import Miare.Blob.Transaction
import Miare.Format.Extent

/-!
# Blob streams in bytes

The Blob operations of a write transaction with the bytes they move: `stageBlobChunk` seals the bytes
of the chunk and writes them into the file, and a `BlobReader` reads them back through its cache of
one decoded chunk (`include/miare/database.hpp:154-298`, `exact_store.hpp:2898-2976`).  The books
are those of `BlobTransaction`; here the sealed bytes are computed and no longer chosen by the
environment.
-/

namespace Miare

open Misc

variable {L : Limits}

/-- What a session gives its transactions: the opened database and its committed block map. -/
structure BlobSession (L : Limits) where
  providers : ProviderSet
  opened : OpenedDatabase
  space : CommittedSpace L
  cacheCapacityBytes : Nat
  generation_eq : opened.format.generation = space.generation
  highWater_eq : opened.format.highWaterBytes = space.highWaterBlocks * L.allocationQuantumBytes
  behindCommon : L.commonBlocks ≤ space.highWaterBlocks
  -- the generation of the running transaction is a `std::uint64_t`
  representable : space.generation + 1 ≤ uint64Max

/-! ## Staging -/

/-- What the environment contributes to one call of `stageBlobChunk`: the nonce the provider draws,
and a call that throws although its arguments are good. -/
structure StageEnvironment where
  nonce : Bytes
  nonce_length : nonce.length = aeadNonceBytes
  fault : Option StageFault := none

/-- The order in which the calls of `stageBlobChunk` are made. -/
def StageFault.rank : StageFault → Nat
  | .load _ => 0
  | .prepare => 1
  | .reserve => 2
  | .seal => 3
  | .resize _ => 4
  | .write _ => 5

/-- The first of an own fault and one of the environment.  The committed state is loaded only
once. -/
def StageEnvironment.faultBefore (environment : StageEnvironment) (initialized : Bool)
    (own : StageFault) : StageFault :=
  match environment.fault with
  | none => own
  | some (.load corrupt) => if initialized then own else .load corrupt
  | some fault => if fault.rank < own.rank then fault else own

/-- The context of chunk `ordinal` of a Blob. -/
def chunkContext (id : BlobId) (ordinal : Nat) : ExtentContext where
  unitKind := 13
  keyDomain := 4
  sequence := ordinal
  owner := id.1

namespace BlobSession

variable (session : BlobSession L)

/-- What `stageBlobChunk` makes of the bytes of a chunk: the prepared payload, sealed for the blocks
that the allocator gives it.  The file refuses to grow behind `maxFileOffset`. -/
def chunkInput (readers : List Nat) (state : StagingAllocator) (id : BlobId) (ordinal : Nat)
    (decoded : Bytes) (environment : StageEnvironment) : StageInput :=
  let initialized := state.allocatorInitialized
  let pool := (initializeBlobStagingAllocator session.space readers state).pool
  match prepareExtentPayload L session.providers session.opened decoded true with
  | .error _ =>
    { storedBytes := 0, image := fun _ => 0
      fault := some (environment.faultBefore initialized .prepare) }
  | .ok payload =>
    let storedBytes := payload.stored.length
    let blockCount := L.blocksFor (encodedExtentLength storedBytes)
    let allocated := (pool.allocateBlocks blockCount).1
    match sealAuthenticatedExtent L session.providers session.opened payload
        (chunkContext id ordinal) (session.space.generation + 1) allocated environment.nonce with
    | .error _ =>
      { storedBytes, image := fun _ => 0
        fault := some (environment.faultBefore initialized .seal) }
    | .ok (_, bytes) =>
      { storedBytes, image := fun index => bytes.getD index 0
        fault :=
          if maxFileOffset < (allocated + blockCount) * L.allocationQuantumBytes then
            some (environment.faultBefore initialized (.resize false))
          else environment.fault }

/-- A call of `stageBlobChunk` and the file behind it. -/
structure ChunkStage where
  result : StageResult
  file : Bytes
  sized : result.fileBytes = file.length

/-- `stageBlobChunk` on the bytes of the file; a resize that throws may leave the file as it
was. -/
def stageChunk (readers : List Nat) (state : StagingAllocator) (file : Bytes) (id : BlobId)
    (ordinal : Nat) (decoded : Bytes) (environment : StageEnvironment) : ChunkStage :=
  let result := stageBlobChunk session.space readers state file.length
    (session.chunkInput readers state id ordinal decoded environment)
  { result
    file := resizeTo result.fileBytes (result.issued.foldl DiskOp.apply file)
    sized := (resizeTo_length _ _).symm }

end BlobSession

/-- Where the loop of `BlobWriter::write` stands, with the bytes of the file. -/
structure StreamProgress where
  staging : StagingAllocator
  file : Bytes
  working : Bytes
  prepared : List ExtentReference
  failure : Option StageError := none

/-- The books of the loop. -/
def StreamProgress.books (progress : StreamProgress) : BlobTransaction.WriteProgress where
  staging := progress.staging
  fileBytes := progress.file.length
  working := progress.working
  prepared := progress.prepared
  failure := progress.failure

/-- The loop of `BlobWriter::write` (`database.hpp:393-412`); `staged` counts the chunks of the
earlier calls. -/
def streamLoop (session : BlobSession L) (readers : List Nat) (id : BlobId) (staged : Nat)
    (environment : Nat → StageEnvironment) : Nat → StreamProgress → Bytes → StreamProgress
  | 0, progress, _ => progress
  | turns + 1, progress, source =>
    if source = [] then progress
    else
      let count := min (L.blobChunkBytes - progress.working.length) source.length
      let working := progress.working ++ source.take count
      if working.length = L.blobChunkBytes then
        let stage := session.stageChunk readers progress.staging progress.file id
          (staged + progress.prepared.length) working (environment progress.prepared.length)
        match stage.result.outcome with
        | .ok reference =>
          streamLoop session readers id staged environment turns
            { staging := stage.result.state, file := stage.file, working := [],
              prepared := progress.prepared ++ [reference] } (source.drop count)
        | .error error =>
          { progress with
            staging := stage.result.state
            file := stage.file
            failure := some error }
      else
        streamLoop session readers id staged environment turns { progress with working }
          (source.drop count)

/-! ## Transactions -/

/-- A write transaction and the bytes of the database file. -/
structure StreamTransaction where
  tx : BlobTransaction
  file : Bytes
  sized : tx.fileBytes = file.length

/-- The calls of a write transaction, with what the environment contributes.  `exhausted` is an
allocation that throws: in `write` before the loop, in `finish` behind the staging. -/
inductive StreamOp where
  | beginRead
  | endRead (generation : Nat)
  | createBlob (candidate : Option BlobId)
  | replaceBlob (id : BlobId)
  | eraseBlob (id : BlobId)
  | write (id : BlobId) (source : Bytes) (environment : Nat → StageEnvironment) (exhausted : Bool)
  | finish (id : BlobId) (environment : StageEnvironment) (exhausted : Bool)
  | abort (id : BlobId)

namespace StreamTransaction

/-- Change the books only. -/
def withBooks (stream : StreamTransaction) (tx : BlobTransaction) : StreamTransaction where
  tx := { tx with fileBytes := stream.file.length }
  file := stream.file
  sized := rfl

/-- What `BlobWriter::write` makes of the loop's end (`database.hpp:413-434`). -/
def settleWrite (stream : StreamTransaction) (writer : BlobWriter) (source : Bytes)
    (progress : StreamProgress) : Bool × StreamTransaction :=
  match progress.failure with
  | none =>
    let writer' :=
      { writer with
        buffer := progress.working
        stagedChunks := writer.stagedChunks ++ progress.prepared
        position := writer.position + source.length }
    (true,
      { tx :=
          { stream.tx with
            staging := progress.staging
            fileBytes := progress.file.length
            bytesWritten := stream.tx.bytesWritten + source.length
            writers := writer' :: stream.tx.otherWriters writer.id }
        file := progress.file
        sized := rfl })
  | some error =>
    (false,
      { tx :=
          { stream.tx.deactivate error with
            staging := releaseBlobStagingReferences progress.staging progress.prepared
            fileBytes := progress.file.length }
        file := progress.file
        sized := rfl })

/-- `BlobWriter::write` (`database.hpp:365-435`), and whether it returns. -/
def write (session : BlobSession L) (stream : StreamTransaction) (id : BlobId) (source : Bytes)
    (environment : Nat → StageEnvironment) (exhausted : Bool) : Bool × StreamTransaction :=
  match stream.tx.writer id with
  | none => (false, stream)
  | some writer =>
    if L.maxBlobBytes - writer.position < source.length ∨
        L.maxBlobBytesPerTransaction - stream.tx.bytesWritten < source.length ∨
        exhausted = true then (false, stream)
    else
      stream.settleWrite writer source
        (streamLoop session stream.tx.readers id writer.stagedChunks.length environment
          source.length
          { staging := stream.tx.staging, file := stream.file, working := writer.buffer,
            prepared := [] } source)

/-- What `BlobWriter::finish` makes of the staging of the last chunk. -/
def settleFinish (session : BlobSession L) (stream : StreamTransaction) (writer : BlobWriter)
    (exhausted : Bool) (stage : BlobSession.ChunkStage) : Bool × StreamTransaction :=
  let tx := { stream.tx with staging := stage.result.state, fileBytes := stage.result.fileBytes }
  let staged : StreamTransaction := { tx, file := stage.file, sized := stage.sized }
  match stage.result.outcome with
  | .error error => (false, staged.withBooks (tx.deactivate error))
  | .ok finalChunk =>
    if exhausted then
      (false, staged.withBooks
        { tx with staging := releaseBlobStagingReference tx.staging finalChunk })
    else
      (true, staged.withBooks (tx.install L writer (session.space.generation + 1) [finalChunk]))

/-- `BlobWriter::finish` (`database.hpp:438-505`), and whether it returns. -/
def finish (session : BlobSession L) (stream : StreamTransaction) (id : BlobId)
    (environment : StageEnvironment) (exhausted : Bool) : Bool × StreamTransaction :=
  match stream.tx.writer id with
  | none => (false, stream)
  | some writer =>
    if writer.buffer = [] then
      if exhausted then (false, stream)
      else (true, stream.withBooks (stream.tx.install L writer (session.space.generation + 1) []))
    else
      stream.settleFinish session writer exhausted
        (session.stageChunk stream.tx.readers stream.tx.staging stream.file id
          writer.stagedChunks.length writer.buffer environment)

/-- One call, and whether it returns what it was called for: `createBlob` and `replaceBlob` a
handle. -/
def perform (session : BlobSession L) (stream : StreamTransaction) :
    StreamOp → Bool × StreamTransaction
  | .beginRead =>
    (true, stream.withBooks { stream.tx with readers := session.space.generation :: stream.tx.readers })
  | .endRead generation =>
    (true, stream.withBooks { stream.tx with readers := stream.tx.readers.erase generation })
  | .createBlob candidate =>
    if stream.tx.active then
      let tx := stream.tx.createBlob L candidate
      (decide (stream.tx.writers.length < tx.writers.length), stream.withBooks tx)
    else (false, stream)
  | .replaceBlob id =>
    if stream.tx.active then
      let tx := stream.tx.replaceBlob L id
      (decide (stream.tx.writers.length < tx.writers.length), stream.withBooks tx)
    else (false, stream)
  | .eraseBlob id =>
    if stream.tx.active then (true, stream.withBooks (stream.tx.eraseBlob L id)) else (false, stream)
  | .write id source environment exhausted =>
    if stream.tx.active then stream.write session id source environment exhausted
    else (false, stream)
  | .finish id environment exhausted =>
    if stream.tx.active then stream.finish session id environment exhausted else (false, stream)
  | .abort id =>
    if stream.tx.active then (true, stream.withBooks (stream.tx.abort id)) else (false, stream)

/-- The transaction behind a sequence of calls. -/
def run (session : BlobSession L) (stream : StreamTransaction) : List StreamOp → StreamTransaction
  | [] => stream
  | op :: ops => run session (stream.perform session op).2 ops

/-- The calls with their success. -/
def trace (session : BlobSession L) (stream : StreamTransaction) :
    List StreamOp → List (StreamOp × Bool)
  | [] => []
  | op :: ops =>
    let performed := stream.perform session op
    (op, performed.1) :: trace session performed.2 ops

end StreamTransaction

/-! ## Readers -/

/-- Why a call of a reader throws.  `outOfRange` is an index behind the end of a vector and
`diverges` a loop that makes no progress. -/
inductive ReadError where
  | inactive
  | seekRange
  | cacheCapacity
  | fault
  | extent (error : DatabaseError)
  | outOfRange
  | diverges
deriving DecidableEq, Repr

/-- Text of the errors that the reader raises itself. -/
def ReadError.message : ReadError → Option String
  | .inactive => some "Blob reader is inactive"
  | .seekRange => some "Blob seek exceeds its logical size"
  | .cacheCapacity => some "Blob chunk exceeds the available cache capacity"
  | .extent error => some error.message
  | _ => none

/-- What the environment contributes to the load of one chunk: the bytes that other readers have in
the cache, and a call that throws. -/
structure LoadEnvironment where
  usedBytes : Nat
  fault : Bool
deriving DecidableEq, Repr

/-- What a call of a reader finds: the session, the file, and whether the transaction is active. -/
structure ReaderView (L : Limits) where
  session : BlobSession L
  file : Bytes
  active : Bool

/-- A `BlobReader` handle. -/
structure BlobReader where
  version : BlobVersion
  position : Nat := 0
  decodedChunk : Option (Nat × Bytes) := none

namespace ReaderView

variable (view : ReaderView L)

/-- What references are validated against: a pending version by its own generation and staged size. -/
def validation (version : BlobVersion) : OpenedFormat :=
  if version.pending then
    { generation := version.generation, highWaterBytes := version.stagedHighWaterBytes % 2 ^ 64 }
  else view.session.opened.format.toOpenedFormat

/-- The number of bytes that a chunk must have. -/
def expectedLength (L : Limits) (version : BlobVersion) (ordinal : Nat) : Nat :=
  if ordinal + 1 = version.chunks.length then version.size - ordinal * L.blobChunkBytes
  else L.blobChunkBytes

/-- The part of `readBlobRange` that fills the cache (`exact_store.hpp:2916-2961`). -/
def loadChunk (version : BlobVersion) (ordinal : Nat) (environment : LoadEnvironment)
    (cached : Option (Nat × Bytes)) : Except ReadError Bytes × Option (Nat × Bytes) :=
  let expected := expectedLength L version ordinal
  let capacity := view.session.cacheCapacityBytes
  match cached.filter (·.1 = ordinal) with
  | some chunk => (.ok chunk.2, some chunk)
  | none =>
    if capacity < environment.usedBytes ∨ capacity - environment.usedBytes < expected then
      (.error .cacheCapacity, none)
    else if environment.fault then (.error .fault, none)
    else
      match version.chunks[ordinal]? with
      | none => (.error .outOfRange, none)
      | some reference =>
        match view.session.opened.readAuthenticatedExtent L view.session.providers
            (view.validation version) view.file reference (chunkContext version.id ordinal)
            (some expected) true with
        | .error error => (.error (.extent error), none)
        | .ok bytes => (.ok bytes, some (ordinal, bytes))

/-- `readBlobRange` (`exact_store.hpp:2898-2976`).  A turn that copies nothing would be repeated
forever. -/
def readBlobRange (version : BlobVersion) (environment : Nat → LoadEnvironment) :
    (turns offset remaining : Nat) → Option (Nat × Bytes) →
      Except ReadError Bytes × Option (Nat × Bytes)
  | _, _, 0, cached => (.ok [], cached)
  | 0, _, _ + 1, cached => (.error .diverges, cached)
  | turns + 1, offset, remaining + 1, cached =>
    let ordinal := offset / L.blobChunkBytes
    let within := offset % L.blobChunkBytes
    match view.loadChunk version ordinal (environment ordinal) cached with
    | (.error error, cached) => (.error error, cached)
    | (.ok bytes, cached) =>
      if bytes.length < within then (.error .outOfRange, cached)
      else
        let count := min (remaining + 1) (bytes.length - within)
        match readBlobRange version environment turns (offset + count) (remaining + 1 - count)
            cached with
        | (.error error, cached) => (.error error, cached)
        | (.ok rest, cached) => (.ok (slice bytes within count ++ rest), cached)

/-- `BlobReader::read` (`database.hpp:195-221`). -/
def read (reader : BlobReader) (destinationBytes : Nat) (environment : Nat → LoadEnvironment) :
    Except ReadError Bytes × BlobReader :=
  if view.active = false then (.error .inactive, reader)
  else
    let count := min (reader.version.size - reader.position) destinationBytes
    if count = 0 then (.ok [], reader)
    else
      match view.readBlobRange reader.version environment count reader.position count
          reader.decodedChunk with
      | (.error error, decodedChunk) => (.error error, { reader with decodedChunk })
      | (.ok bytes, decodedChunk) =>
        (.ok bytes, { reader with position := reader.position + count, decodedChunk })

/-- `BlobReader::seek` (`database.hpp:224-232`). -/
def seek (reader : BlobReader) (absoluteOffset : Nat) : Except ReadError Bytes × BlobReader :=
  if view.active = false then (.error .inactive, reader)
  else if reader.version.size < absoluteOffset then (.error .seekRange, reader)
  else (.ok [], { reader with position := absoluteOffset })

end ReaderView

/-- The calls of a reader. -/
inductive ReaderCall where
  | seek (absoluteOffset : Nat)
  | read (destinationBytes : Nat) (environment : Nat → LoadEnvironment)

/-- A call, its result, and the positions before and behind it. -/
structure ReaderObservation where
  call : ReaderCall
  before : Nat
  result : Except ReadError Bytes
  after : Nat

namespace ReaderView

def call (view : ReaderView L) (reader : BlobReader) :
    ReaderCall → Except ReadError Bytes × BlobReader
  | .seek absoluteOffset => view.seek reader absoluteOffset
  | .read destinationBytes environment => view.read reader destinationBytes environment

end ReaderView

/-- A sequence of calls, each with what it finds. -/
def BlobReader.run (reader : BlobReader) :
    List (ReaderView L × ReaderCall) → List (ReaderView L × ReaderObservation)
  | [] => []
  | (view, call) :: rest =>
    let (result, moved) := view.call reader call
    (view, { call, before := reader.position, result, after := moved.position }) ::
      moved.run rest

/-- The calls of a reader of a transaction, between which the transaction goes on. -/
def StreamTransaction.interleave (session : BlobSession L) (stream : StreamTransaction) :
    List (List StreamOp × ReaderCall) → List (ReaderView L × ReaderCall)
  | [] => []
  | (ops, call) :: rest =>
    let stream := stream.run session ops
    ({ session, file := stream.file, active := stream.tx.active }, call) ::
      stream.interleave session rest

end Miare
