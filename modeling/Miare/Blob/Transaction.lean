import Miare.Blob.Staging
import Miare.Misc.Keyed

/-!
# Blob operations of a write transaction

The Blob half of `WriteTransaction` and its `BlobWriter` handles
(`include/miare/database.hpp:336-592` and `815-898`): creating, replacing and erasing Blobs,
streaming bytes into chunks, finishing and aborting.  An operation that throws leaves the state
as its `catch` blocks do.  The counter `openWriters` and the set `openWriterIds` of the source are
the length and the ids of the list of active handles.
-/

namespace Miare

open Misc

/-- A `BlobId`: sixteen bytes, compared lexicographically. -/
abbrev BlobId : Type := { bytes : Bytes // bytes.length = 16 }

/-- A finished Blob as the catalog holds it (`exact_store.hpp:88-132`).  A pending version has
been staged by the running transaction and has no manifest yet. -/
structure BlobVersion where
  id : BlobId
  size : Nat
  generation : Nat
  manifest : ExtentReference := {}
  chunkRoot : ExtentReference := {}
  chunks : List ExtentReference
  reachable : List ExtentReference
  stagedHighWaterBytes : Nat := 0
  pending : Bool := false
deriving DecidableEq, Repr

/-- `std::map<BlobId, BlobVersionPtr>`. -/
abbrev BlobCatalog : Type := Keyed BlobVersion.id

/-- An active `BlobWriter` handle. -/
structure BlobWriter where
  id : BlobId
  buffer : Bytes := []
  stagedChunks : List ExtentReference := []
  position : Nat := 0
deriving DecidableEq, Repr

/-- The Blob state of a write transaction, with the live readers of its session and the size of
the database file. -/
structure BlobTransaction where
  staging : StagingAllocator := {}
  blobs : BlobCatalog
  generatedIds : List BlobId := []
  discardedStagedReferences : List ExtentReference := []
  mutations : Nat := 0
  bytesWritten : Nat := 0
  writers : List BlobWriter := []
  readers : List Nat
  fileBytes : Nat
  active : Bool := true

/-- Chunks of a version that only the running transaction knows. -/
def BlobVersion.pendingChunks (version : BlobVersion) : List ExtentReference :=
  if version.pending then version.chunks else []

/-- The chunks of the pending Blobs of a catalog, in catalog order. -/
def pendingChunks (blobs : BlobCatalog) : List ExtentReference :=
  blobs.entries.flatMap BlobVersion.pendingChunks

namespace BlobTransaction

variable {L : Limits}

/-- The handle that writes `id`. -/
def writer (tx : BlobTransaction) (id : BlobId) : Option BlobWriter :=
  tx.writers.find? fun writer => writer.id = id

/-- The handles of the other Blobs. -/
def otherWriters (tx : BlobTransaction) (id : BlobId) : List BlobWriter :=
  tx.writers.filter fun writer => writer.id ≠ id

/-- `requireBlobWriterCapacity` (`database.hpp:1099-1120`). -/
def writerCapacity (L : Limits) (tx : BlobTransaction) : Bool :=
  tx.mutations ≠ L.maxBlobMutationsPerTransaction ∧
    tx.writers.length ≠ L.maxOpenBlobWritersPerTransaction

/-- Open a handle for `id`. -/
def openWriter (tx : BlobTransaction) (id : BlobId) : BlobTransaction :=
  { tx with
    writers := { id } :: tx.writers
    mutations := tx.mutations + 1 }

/-- `createBlob` (`database.hpp:816-852`); `candidate` is the first fresh identifier the entropy
source offers within 256 attempts. -/
def createBlob (L : Limits) (tx : BlobTransaction) (candidate : Option BlobId) :
    BlobTransaction :=
  match candidate with
  | none => tx
  | some id =>
    if tx.writerCapacity L ∧ tx.blobs.find id = none ∧ id ∉ tx.generatedIds then
      { tx.openWriter id with generatedIds := id :: tx.generatedIds }
    else tx

/-- `replaceBlob` (`database.hpp:855-874`). -/
def replaceBlob (L : Limits) (tx : BlobTransaction) (id : BlobId) : BlobTransaction :=
  match tx.blobs.find id with
  | none => tx
  | some _ =>
    if (tx.writer id).isSome then tx
    else if tx.writerCapacity L then tx.openWriter id
    else tx

/-- `eraseBlob` (`database.hpp:877-898`). -/
def eraseBlob (L : Limits) (tx : BlobTransaction) (id : BlobId) : BlobTransaction :=
  if (tx.writer id).isSome then tx
  else
    match tx.blobs.find id with
    | none => tx
    | some found =>
      if tx.mutations = L.maxBlobMutationsPerTransaction then tx
      else
        { tx with
          discardedStagedReferences := tx.discardedStagedReferences ++ found.pendingChunks
          blobs := tx.blobs.erase id
          mutations := tx.mutations + 1 }

/-- Where the loop of `BlobWriter::write` stands. -/
structure WriteProgress where
  staging : StagingAllocator
  fileBytes : Nat
  working : Bytes
  prepared : List ExtentReference
  failure : Option StageError := none

/-- The loop of `BlobWriter::write` (`database.hpp:393-412`).  Each turn moves at least one byte
of a nonempty source, so the length of the source bounds the number of turns. -/
def writeLoop (space : CommittedSpace L) (readers : List Nat) (input : Nat → StageInput) :
    Nat → WriteProgress → Bytes → WriteProgress
  | 0, progress, _ => progress
  | turns + 1, progress, source =>
    if source = [] then progress
    else
      let count := min (L.blobChunkBytes - progress.working.length) source.length
      let working := progress.working ++ source.take count
      if working.length = L.blobChunkBytes then
        let staged := stageBlobChunk space readers progress.staging progress.fileBytes
          (input progress.prepared.length)
        match staged.outcome with
        | .ok reference =>
          writeLoop space readers input turns
            { staging := staged.state, fileBytes := staged.fileBytes, working := [],
              prepared := progress.prepared ++ [reference] } (source.drop count)
        | .error error =>
          { progress with
            staging := staged.state
            fileBytes := staged.fileBytes
            failure := some error }
      else
        writeLoop space readers input turns { progress with working } (source.drop count)

/-- A `Corrupt` error ends the transaction (`handleCorruption`); only loading the committed
allocator state can raise it here. -/
def deactivate (tx : BlobTransaction) (error : StageError) : BlobTransaction :=
  match error with
  | .fault (.load true) => { tx with active := false }
  | _ => tx

/-- `BlobWriter::write` (`database.hpp:365-435`). -/
def write (space : CommittedSpace L) (tx : BlobTransaction) (id : BlobId) (source : Bytes)
    (input : Nat → StageInput) : BlobTransaction :=
  match tx.writer id with
  | none => tx
  | some writer =>
    if L.maxBlobBytes - writer.position < source.length ∨
        L.maxBlobBytesPerTransaction - tx.bytesWritten < source.length then tx
    else
      let progress := writeLoop space tx.readers input source.length
        { staging := tx.staging, fileBytes := tx.fileBytes, working := writer.buffer,
          prepared := [] } source
      match progress.failure with
      | none =>
        let writer :=
          { writer with
            buffer := progress.working
            stagedChunks := writer.stagedChunks ++ progress.prepared
            position := writer.position + source.length }
        { tx with
          staging := progress.staging
          fileBytes := progress.fileBytes
          bytesWritten := tx.bytesWritten + source.length
          writers := writer :: tx.otherWriters id }
      | some error =>
        deactivate
          { tx with
            staging := releaseBlobStagingReferences progress.staging progress.prepared
            fileBytes := progress.fileBytes }
          error

/-- The part of `BlobWriter::finish` behind the staging of the last chunk: the version enters
the catalog and a pending predecessor's chunks are discarded. -/
def install (L : Limits) (tx : BlobTransaction) (writer : BlobWriter)
    (generation : Nat) (finalChunk : List ExtentReference) : BlobTransaction :=
  let chunks := writer.stagedChunks ++ finalChunk
  let version : BlobVersion :=
    { id := writer.id, size := writer.position, generation, chunks, reachable := chunks,
      stagedHighWaterBytes := tx.staging.stagingNextBlock * L.allocationQuantumBytes,
      pending := true }
  let discarded := ((tx.blobs.find writer.id).map BlobVersion.pendingChunks).getD []
  { tx with
    blobs := tx.blobs.insertOrAssign version
    discardedStagedReferences := tx.discardedStagedReferences ++ discarded
    staging :=
      { tx.staging with
        abortableStagingReferences :=
          tx.staging.abortableStagingReferences - chunks.length }
    writers := tx.otherWriters writer.id }

/-- `BlobWriter::finish` (`database.hpp:438-505`).  `exhausted` says that an allocation behind
the staging of the last chunk throws. -/
def finish (space : CommittedSpace L) (tx : BlobTransaction) (id : BlobId) (input : StageInput)
    (exhausted : Bool) : BlobTransaction :=
  match tx.writer id with
  | none => tx
  | some writer =>
    if writer.buffer = [] then
      if exhausted then tx else tx.install L writer (space.generation + 1) []
    else
      let staged := stageBlobChunk space tx.readers tx.staging tx.fileBytes input
      let tx := { tx with staging := staged.state, fileBytes := staged.fileBytes }
      match staged.outcome with
      | .error error => tx.deactivate error
      | .ok finalChunk =>
        if exhausted then
          { tx with staging := releaseBlobStagingReference tx.staging finalChunk }
        else tx.install L writer (space.generation + 1) [finalChunk]

/-- `BlobWriter::abort` (`database.hpp:507-526`), also run by the destructor. -/
def abort (tx : BlobTransaction) (id : BlobId) : BlobTransaction :=
  match tx.writer id with
  | none => tx
  | some writer =>
    { tx with
      staging := releaseBlobStagingReferences tx.staging writer.stagedChunks
      writers := tx.otherWriters id
      mutations := tx.mutations - 1 }

end BlobTransaction

/-- What can happen between `beginWrite` and `commit`: reads of other threads begin and end, and
the transaction performs Blob operations. -/
inductive BlobOp where
  | beginRead
  | endRead (generation : Nat)
  | createBlob (candidate : Option BlobId)
  | replaceBlob (id : BlobId)
  | eraseBlob (id : BlobId)
  | write (id : BlobId) (source : Bytes) (input : Nat → StageInput)
  | finish (id : BlobId) (input : StageInput) (exhausted : Bool)
  | abort (id : BlobId)

namespace BlobTransaction

variable {L : Limits}

/-- The transaction part of an operation; an inactive transaction refuses all of them. -/
def perform (space : CommittedSpace L) (tx : BlobTransaction) : BlobOp → BlobTransaction
  | .beginRead => { tx with readers := space.generation :: tx.readers }
  | .endRead generation => { tx with readers := tx.readers.erase generation }
  | .createBlob candidate => if tx.active then tx.createBlob L candidate else tx
  | .replaceBlob id => if tx.active then tx.replaceBlob L id else tx
  | .eraseBlob id => if tx.active then tx.eraseBlob L id else tx
  | .write id source input => if tx.active then tx.write space id source input else tx
  | .finish id input exhausted => if tx.active then tx.finish space id input exhausted else tx
  | .abort id => if tx.active then tx.abort id else tx

/-- A history of one write transaction. -/
def run (space : CommittedSpace L) (tx : BlobTransaction) (ops : List BlobOp) : BlobTransaction :=
  ops.foldl (perform space) tx

/-- A transaction right after `beginWrite`; the committed catalog has no pending versions. -/
structure Fresh (tx : BlobTransaction) : Prop where
  staging : tx.staging = {}
  committed : ∀ version ∈ tx.blobs.entries, version.pending = false
  discarded : tx.discardedStagedReferences = []
  generated : tx.generatedIds = []
  writers : tx.writers = []
  active : tx.active = true

/-- `commit` proceeds only when every writer is finished or aborted (`database.hpp:970-974`). -/
def readyToCommit (tx : BlobTransaction) : Bool :=
  tx.active && tx.writers.isEmpty

end BlobTransaction

end Miare
