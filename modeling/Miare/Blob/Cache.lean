import Miare.Blob.Stream
import Miare.Misc.Ledger

/-!
# The cache of decoded chunks

Every `BlobReader` keeps at most one decoded chunk, and the readers of a session account for their
chunks in one atomic counter, `BlobCacheState::usedBytes`.  A reader fills its cache under
`session.mutex` (`include/miare/detail/exact_store.hpp:2912-2974`) but gives a chunk back in
`close` without it (`include/miare/database.hpp:234-252`), so the accesses to the counter
interleave.  Here readers are threads of a machine whose steps are those accesses: between two of
them a reader is at one of the places of `ReaderPhase`.

The calls of one reader do not overlap; the calls of different readers do, on any threads.
-/

namespace Miare

open Misc

variable {L : Limits}

/-- Where a reader is in its code.  `offset` is the position of the next byte to copy and
`remaining` the number of bytes still to copy. -/
inductive ReaderPhase where
  | idle
  /-- At the head of the loop of `readBlobRange`. -/
  | turn (offset remaining : Nat)
  /-- `session.mutex` is taken. -/
  | locked (offset remaining : Nat)
  /-- The bytes of the old chunk are subtracted, the chunk is not yet reset. -/
  | evicting (offset remaining : Nat)
  /-- There is no chunk. -/
  | released (offset remaining : Nat)
  /-- In the loop that reserves, with the value of the counter that was seen last. -/
  | comparing (offset remaining used : Nat)
  /-- The bytes of the new chunk are added, the chunk is not yet read. -/
  | reserved (offset remaining : Nat)
  /-- In the handler of a failed read. -/
  | failed (offset : Nat)
  /-- An exception leaves the locked section. -/
  | unwinding
  /-- The chunk is there. -/
  | copying (offset remaining : Nat)
  /-- In `close`, before the chunk is given back. -/
  | closing
  /-- In `close`, the bytes of the chunk are subtracted. -/
  | releasing
  | closed
deriving DecidableEq, Repr

/-- The reader is inside the section that `session.mutex` guards. -/
def ReaderPhase.guarded : ReaderPhase → Bool
  | .locked .. | .evicting .. | .released .. | .comparing .. | .reserved .. | .failed ..
  | .unwinding | .copying .. => true
  | _ => false

/-- A `BlobReader` with the place its thread is at; `active` is `active_`. -/
structure CachingReader extends BlobReader where
  active : Bool := true
  phase : ReaderPhase := .idle

/-- What the readers of a session share: the counters of `BlobCacheState` and
`capacityFailureCount`, and the reader that holds `session.mutex`. -/
structure SharedCache where
  usedBytes : Nat := 0
  evictions : Nat := 0
  capacityFailureCount : Nat := 0
  mutex : Option Nat := none
deriving DecidableEq, Repr

/-- `usedBytes.fetch_sub`, which wraps below zero. -/
def SharedCache.subtract (shared : SharedCache) (bytes : Nat) : SharedCache :=
  { shared with usedBytes := wordSub shared.usedBytes bytes }

/-- What the environment contributes to one step: a value of the counter that a relaxed load may
return, a weak comparison that fails for no reason, and what a read of the file finds; `none` is a
call that throws. -/
structure CacheEnvironment (L : Limits) where
  observed : Nat := 0
  spurious : Bool := false
  view : Option (ReaderView L) := none

namespace CachingReader

/-- The length of the chunk that holds the byte at `offset`. -/
def expectedAt (L : Limits) (reader : CachingReader) (offset : Nat) : Nat :=
  ReaderView.expectedLength L reader.version (offset / L.blobChunkBytes)

/-- The read of the chunk that holds the byte at `offset`. -/
def readChunk (environment : CacheEnvironment L) (reader : CachingReader) (offset : Nat) :
    Option Bytes :=
  match environment.view, reader.version.chunks[offset / L.blobChunkBytes]? with
  | some view, some reference =>
    (view.session.opened.readAuthenticatedExtent L view.session.providers
      (view.validation reader.version) view.file reference
      (chunkContext reader.version.id (offset / L.blobChunkBytes))
      (some (reader.expectedAt L offset)) true).toOption
  | _, _ => none

/-- The next step of reader number `self`; `none` where it has to wait or has nothing to do. -/
def advance (capacity self : Nat) (environment : CacheEnvironment L) (reader : CachingReader)
    (shared : SharedCache) : Option (CachingReader × SharedCache) :=
  match reader.phase with
  | .idle => none
  | .turn offset remaining =>
    if remaining = 0 then some ({ reader with position := offset, phase := .idle }, shared)
    else if shared.mutex = none then
      some ({ reader with phase := .locked offset remaining },
        { shared with mutex := some self })
    else none
  | .locked offset remaining =>
    match reader.decodedChunk with
    | none => some ({ reader with phase := .released offset remaining }, shared)
    | some chunk =>
      if chunk.1 = offset / L.blobChunkBytes then
        some ({ reader with phase := .copying offset remaining }, shared)
      else
        some ({ reader with phase := .evicting offset remaining },
          shared.subtract chunk.2.length)
  | .evicting offset remaining =>
    some ({ reader with decodedChunk := none, phase := .released offset remaining },
      { shared with evictions := shared.evictions + 1 })
  | .released offset remaining =>
    some ({ reader with phase := .comparing offset remaining environment.observed }, shared)
  | .comparing offset remaining used =>
    if capacity < used ∨ capacity - used < reader.expectedAt L offset then
      some ({ reader with phase := .unwinding },
        { shared with capacityFailureCount := shared.capacityFailureCount + 1 })
    else if shared.usedBytes = used ∧ environment.spurious = false then
      some ({ reader with phase := .reserved offset remaining },
        { shared with usedBytes := wordAdd used (reader.expectedAt L offset) })
    else
      some ({ reader with phase := .comparing offset remaining environment.observed }, shared)
  | .reserved offset remaining =>
    match reader.readChunk environment offset with
    | none => some ({ reader with phase := .failed offset }, shared)
    | some bytes =>
      some ({ reader with
        decodedChunk := some (offset / L.blobChunkBytes, bytes)
        phase := .copying offset remaining }, shared)
  | .failed offset =>
    some ({ reader with phase := .unwinding }, shared.subtract (reader.expectedAt L offset))
  | .unwinding => some ({ reader with phase := .idle }, { shared with mutex := none })
  | .copying offset remaining =>
    match reader.decodedChunk with
    | none => none
    | some chunk =>
      if chunk.2.length < offset % L.blobChunkBytes then none
      else
        let count := min remaining (chunk.2.length - offset % L.blobChunkBytes)
        some ({ reader with phase := .turn (offset + count) (remaining - count) },
          { shared with mutex := none })
  | .closing =>
    match reader.decodedChunk with
    | none => some ({ reader with phase := .closed }, shared)
    | some chunk =>
      some ({ reader with phase := .releasing }, shared.subtract chunk.2.length)
  | .releasing => some ({ reader with decodedChunk := none, phase := .closed }, shared)
  | .closed => none

/-- `BlobReader::read` up to the loop of `readBlobRange` (`database.hpp:195-212`). -/
def startRead (destinationBytes : Nat) (reader : CachingReader) : Option CachingReader :=
  let count := min (reader.version.size - reader.position) destinationBytes
  if reader.phase = .idle ∧ reader.active = true ∧ count ≠ 0 then
    some { reader with phase := .turn reader.position count }
  else none

/-- `BlobReader::seek`. -/
def startSeek (absoluteOffset : Nat) (reader : CachingReader) : Option CachingReader :=
  if reader.phase = .idle ∧ reader.active = true ∧ absoluteOffset ≤ reader.version.size then
    some { reader with position := absoluteOffset }
  else none

/-- `BlobReader::close` up to the release of the chunk; the destructor calls it too. -/
def startClose (reader : CachingReader) : Option CachingReader :=
  if reader.phase = .idle ∧ reader.active = true then
    some { reader with active := false, phase := .closing }
  else none

/-- What the move constructor leaves behind: an inactive handle whose `decodedChunk_` still holds
a value, of which the bytes are gone (`database.hpp:160-169`). -/
def movedFrom (reader : CachingReader) : CachingReader :=
  { reader with
    decodedChunk := reader.decodedChunk.map fun chunk => (chunk.1, [])
    active := false }

end CachingReader

/-- The readers of a session and what they share. -/
structure CacheMachine where
  shared : SharedCache := {}
  readers : List CachingReader := []

/-- The steps of the machine.  Readers are numbered in the order of their construction. -/
inductive CacheStep (L : Limits) where
  | construct (version : BlobVersion)
  | move (source : Nat)
  | read (self destinationBytes : Nat)
  | seek (self absoluteOffset : Nat)
  | close (self : Nat)
  | advance (self : Nat) (environment : CacheEnvironment L)

namespace CacheMachine

/-- A call that touches nothing but its own reader. -/
def call (machine : CacheMachine) (self : Nat) (start : CachingReader → Option CachingReader) :
    Option CacheMachine := do
  let reader ← machine.readers[self]?
  let called ← start reader
  pure { machine with readers := machine.readers.set self called }

/-- One step; `none` where it is not enabled. -/
def step (capacity : Nat) (machine : CacheMachine) : CacheStep L → Option CacheMachine
  | .construct version =>
    some { machine with readers := machine.readers ++ [{ version }] }
  | .move source => do
    let reader ← machine.readers[source]?
    if reader.phase = .idle ∨ reader.phase = .closed then
      pure { machine with readers := machine.readers.set source reader.movedFrom ++ [reader] }
    else none
  | .read self destinationBytes => machine.call self (CachingReader.startRead destinationBytes)
  | .seek self absoluteOffset => machine.call self (CachingReader.startSeek absoluteOffset)
  | .close self => machine.call self CachingReader.startClose
  | .advance self environment => do
    let reader ← machine.readers[self]?
    let (advanced, shared) ← reader.advance capacity self environment machine.shared
    pure { shared, readers := machine.readers.set self advanced }

/-- A whole interleaving. -/
def run (capacity : Nat) (machine : CacheMachine) : List (CacheStep L) → Option CacheMachine
  | [] => some machine
  | step :: rest => do
    let next ← machine.step capacity step
    next.run capacity rest

end CacheMachine

end Miare
