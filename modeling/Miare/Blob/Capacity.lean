import Miare.Blob.Stream

/-!
# The capacity of the free-run vector

`abort` and the `catch` blocks give blocks back without allocating: `insertBlobStagingFreeRun` must
find a free place in the vector `stagingFreeRuns`, and the counters must not fall below zero
(`exact_store.hpp:2749-2768` asserts both).  Capacity is reserved when the allocator is initialised,
in `BlobWriter::write` (`database.hpp:386-396`) and in `stageBlobChunk` (`exact_store.hpp:2791-2793`).

The functions here run beside those of `StreamTransaction`.  They count the least capacity that the
standard grants and name the first step that would allocate or underflow.
-/

namespace Miare

open Misc

variable {L : Limits}

/-- What a path that must not throw cannot afford. -/
inductive StagingViolation where
  | reallocates
  | underflows
deriving DecidableEq, Repr

/-- Whether `insertBlobStagingFreeRun` calls `vector::insert`: not if the run before takes the new
one in. -/
def insertsRun (runs : List ExtentRun) (inserted : ExtentRun) : Bool :=
  match (runs.takeWhile fun run => run.start < inserted.start).getLast? with
  | none => true
  | some previous => decide (previous.limit < inserted.start)

/-- `vector::insert` moves a full vector. -/
def checkInsert (runs : List ExtentRun) (inserted : ExtentRun) (capacity : Nat) :
    Except StagingViolation Unit :=
  if insertsRun runs inserted = true ∧ capacity ≤ runs.length then .error .reallocates else .ok ()

/-- The assertions of `releaseBlobStagingReference`. -/
def checkRelease (state : StagingAllocator) (capacity : Nat) : Except StagingViolation Unit :=
  if state.abortableStagingReferences = 0 then .error .underflows
  else if capacity ≤ state.stagingFreeRuns.length then .error .reallocates
  else .ok ()

/-- The assertions of `releaseBlobStagingReferences`. -/
def checkReleases (capacity : Nat) :
    StagingAllocator → List ExtentReference → Except StagingViolation Unit
  | _, [] => .ok ()
  | state, reference :: rest =>
    match checkRelease state capacity with
    | .error violation => .error violation
    | .ok () => checkReleases capacity (releaseBlobStagingReference state reference) rest

/-- `initializeBlobStagingAllocator` moves in a vector that holds the initial runs. -/
def initializedCapacity (space : CommittedSpace L) (readers : List Nat) (state : StagingAllocator)
    (capacity : Nat) : Nat :=
  if state.allocatorInitialized then capacity
  else max capacity (initialStagingRuns space readers).length

/-- The reservation in `stageBlobChunk`, and the `catch` block that gives the blocks back. -/
def reserveCapacity (space : CommittedSpace L) (state : StagingAllocator) (fileBytes : Nat)
    (input : StageInput) (capacity : Nat) : Except StagingViolation Nat :=
  let reserved :=
    max capacity (state.stagingFreeRuns.length + state.abortableStagingReferences + 1)
  let blockCount := L.blocksFor (encodedExtentLength input.storedBytes)
  let taken := state.pool.allocateBlocks blockCount
  match (reserveAndWrite space state fileBytes input).outcome with
  | .ok _ => .ok reserved
  | .error _ =>
    match checkInsert taken.2.freeRuns { start := taken.1, count := blockCount } reserved with
    | .error violation => .error violation
    | .ok () => .ok reserved

/-- The capacity behind `stageBlobChunk`. -/
def stageCapacity (space : CommittedSpace L) (readers : List Nat) (state : StagingAllocator)
    (fileBytes : Nat) (input : StageInput) (capacity : Nat) : Except StagingViolation Nat :=
  let initialized := initializeBlobStagingAllocator space readers state
  let capacity' := initializedCapacity space readers state capacity
  match input.fault with
  | some (.load _) =>
    if state.allocatorInitialized then reserveCapacity space state fileBytes input capacity
    else .ok capacity
  | some .prepare => .ok capacity'
  | some .reserve => .ok capacity'
  | _ => reserveCapacity space initialized fileBytes input capacity'

/-- The capacity behind the loop of `BlobWriter::write`. -/
def loopCapacity (session : BlobSession L) (readers : List Nat) (id : BlobId) (staged : Nat)
    (environment : Nat → StageEnvironment) :
    Nat → StreamProgress → Bytes → Nat → Except StagingViolation Nat
  | 0, _, _, capacity => .ok capacity
  | turns + 1, progress, source, capacity =>
    if source = [] then .ok capacity
    else
      let count := min (L.blobChunkBytes - progress.working.length) source.length
      let working := progress.working ++ source.take count
      if working.length = L.blobChunkBytes then
        let ordinal := staged + progress.prepared.length
        let stage := session.stageChunk readers progress.staging progress.file id ordinal working
          (environment progress.prepared.length)
        match stageCapacity session.space readers progress.staging progress.file.length
            (session.chunkInput readers progress.staging id ordinal working
              (environment progress.prepared.length)) capacity with
        | .error violation => .error violation
        | .ok capacity =>
          match stage.result.outcome with
          | .ok reference =>
            loopCapacity session readers id staged environment turns
              { staging := stage.result.state, file := stage.file, working := [],
                prepared := progress.prepared ++ [reference] } (source.drop count) capacity
          | .error _ => .ok capacity
      else
        loopCapacity session readers id staged environment turns { progress with working }
          (source.drop count) capacity

namespace StreamTransaction

/-- What `BlobWriter::write` reserves before its loop.  A load that throws throws here already, and
so does the first reservation. -/
def writeReserves (session : BlobSession L) (stream : StreamTransaction) (writer : BlobWriter)
    (source : Bytes) (environment : StageEnvironment) (capacity : Nat) : Nat :=
  let possibleChunks := source.length / L.blobChunkBytes +
    (source.length % L.blobChunkBytes + writer.buffer.length) / L.blobChunkBytes
  let initialized := initializeBlobStagingAllocator session.space stream.tx.readers stream.tx.staging
  let capacity' := initializedCapacity session.space stream.tx.readers stream.tx.staging capacity
  if possibleChunks = 0 then capacity
  else
    match environment.fault with
    | some (.load _) =>
      if stream.tx.staging.allocatorInitialized then
        max capacity (stream.tx.staging.stagingFreeRuns.length + possibleChunks)
      else capacity
    | some .reserve => capacity'
    | _ => max capacity' (initialized.stagingFreeRuns.length + possibleChunks)

/-- The capacity behind `BlobWriter::write`. -/
def writeCapacity (session : BlobSession L) (stream : StreamTransaction) (id : BlobId)
    (source : Bytes) (environment : Nat → StageEnvironment) (exhausted : Bool) (capacity : Nat) :
    Except StagingViolation Nat :=
  match stream.tx.writer id with
  | none => .ok capacity
  | some writer =>
    if L.maxBlobBytes - writer.position < source.length ∨
        L.maxBlobBytesPerTransaction - stream.tx.bytesWritten < source.length ∨
        exhausted = true then .ok capacity
    else
      let start : StreamProgress :=
        { staging := stream.tx.staging, file := stream.file, working := writer.buffer, prepared := [] }
      let progress := streamLoop session stream.tx.readers id writer.stagedChunks.length environment
        source.length start source
      match loopCapacity session stream.tx.readers id writer.stagedChunks.length environment
          source.length start source
          (stream.writeReserves session writer source (environment 0) capacity) with
      | .error violation => .error violation
      | .ok capacity =>
        match progress.failure with
        | none => .ok capacity
        | some _ =>
          match checkReleases capacity progress.staging progress.prepared with
          | .error violation => .error violation
          | .ok () => .ok capacity

/-- The counters that `finish` takes the chunks of the version from. -/
def checkFinish (state : StagingAllocator) (chunks : Nat) : Except StagingViolation Unit :=
  if state.abortableStagingReferences < chunks then .error .underflows else .ok ()

/-- The capacity behind `BlobWriter::finish`. -/
def finishCapacity (session : BlobSession L) (stream : StreamTransaction) (id : BlobId)
    (environment : StageEnvironment) (exhausted : Bool) (capacity : Nat) :
    Except StagingViolation Nat :=
  match stream.tx.writer id with
  | none => .ok capacity
  | some writer =>
    if writer.buffer = [] then
      if exhausted then .ok capacity
      else (checkFinish stream.tx.staging writer.stagedChunks.length).map fun _ => capacity
    else
      let ordinal := writer.stagedChunks.length
      let stage := session.stageChunk stream.tx.readers stream.tx.staging stream.file id ordinal
        writer.buffer environment
      match stageCapacity session.space stream.tx.readers stream.tx.staging stream.file.length
          (session.chunkInput stream.tx.readers stream.tx.staging id ordinal writer.buffer
            environment) capacity with
      | .error violation => .error violation
      | .ok capacity =>
        match stage.result.outcome with
        | .error _ => .ok capacity
        | .ok _ =>
          if exhausted then (checkRelease stage.result.state capacity).map fun _ => capacity
          else (checkFinish stage.result.state (ordinal + 1)).map fun _ => capacity

/-- `BlobWriter::abort`: the chunks go back, and the handle and its mutation are uncounted. -/
def abortCapacity (stream : StreamTransaction) (id : BlobId) (capacity : Nat) :
    Except StagingViolation Nat :=
  match stream.tx.writer id with
  | none => .ok capacity
  | some writer =>
    if stream.tx.mutations = 0 then .error .underflows
    else (checkReleases capacity stream.tx.staging writer.stagedChunks).map fun _ => capacity

/-- The capacity behind one call. -/
def performCapacity (session : BlobSession L) (stream : StreamTransaction) (op : StreamOp)
    (capacity : Nat) : Except StagingViolation Nat :=
  match op with
  | .write id source environment exhausted =>
    if stream.tx.active then stream.writeCapacity session id source environment exhausted capacity
    else .ok capacity
  | .finish id environment exhausted =>
    if stream.tx.active then stream.finishCapacity session id environment exhausted capacity
    else .ok capacity
  | .abort id => if stream.tx.active then stream.abortCapacity id capacity else .ok capacity
  | _ => .ok capacity

/-- The capacity behind a sequence of calls. -/
def runCapacity (session : BlobSession L) (stream : StreamTransaction) (capacity : Nat) :
    List StreamOp → Except StagingViolation Nat
  | [] => .ok capacity
  | op :: ops =>
    match stream.performCapacity session op capacity with
    | .error violation => .error violation
    | .ok capacity => runCapacity session (stream.perform session op).2 capacity ops

/-- The readers under which the allocator is initialised, if it is: those of the call that does it. -/
def initialReaders (session : BlobSession L) (stream : StreamTransaction) (current : List Nat) :
    List StreamOp → List Nat
  | [] => current
  | op :: ops =>
    let readers := if stream.tx.staging.allocatorInitialized then current else stream.tx.readers
    initialReaders session (stream.perform session op).2 readers ops

end StreamTransaction

end Miare
