import Miare.Blob.Capacity
import Miare.Blob.Proofs.StreamExact

/-!
# Giving blocks back never allocates

The free-run vector has a free place for every chunk of an open handle, and one more while a chunk is
being staged.
-/

namespace Miare

open Misc

variable {L : Limits}

/-! ## Lengths of the free list -/

theorem takeFirstFit_length {count allocated : Nat} {runs remaining : List ExtentRun}
    (taken : takeFirstFit count runs = some (allocated, remaining)) :
    remaining.length = runs.length := by
  induction runs generalizing allocated remaining with
  | nil => cases taken
  | cons run rest ih =>
    rw [takeFirstFit] at taken
    split at taken
    · cases taken
      rfl
    · cases later : takeFirstFit count rest with
      | none =>
        rw [later] at taken
        cases taken
      | some found =>
        rw [later] at taken
        cases taken
        rw [List.length_cons, ih later, List.length_cons]

theorem allocateBlocks_length (pool : BlockPool) (count : Nat) :
    (pool.allocateBlocks count).2.freeRuns.length = pool.freeRuns.length := by
  unfold BlockPool.allocateBlocks
  cases taken : takeFirstFit count pool.freeRuns with
  | none => rfl
  | some found => exact takeFirstFit_length taken

theorem absorbFollowing_length (position : ExtentRun) (after : List ExtentRun) :
    (absorbFollowing position after).length ≤ after.length + 1 := by
  induction after generalizing position with
  | nil => exact Nat.le_refl _
  | cons following rest ih =>
    rw [absorbFollowing]
    split
    · exact (ih _).trans (Nat.le_succ _)
    · exact Nat.le_refl _

theorem insertBlobStagingFreeRun_length (runs : List ExtentRun) (inserted : ExtentRun) :
    (insertBlobStagingFreeRun runs inserted).length ≤ runs.length + 1 := by
  have parts : (runs.takeWhile fun run => run.start < inserted.start).length +
      (runs.dropWhile fun run => run.start < inserted.start).length = runs.length := by
    rw [← List.length_append, List.takeWhile_append_dropWhile]
  unfold insertBlobStagingFreeRun
  dsimp only
  split
  · have := absorbFollowing_length inserted (runs.dropWhile fun run => run.start < inserted.start)
    omega
  · next previous _ =>
    split
    · have := absorbFollowing_length
        { previous with count := max previous.limit inserted.limit - previous.start }
        (runs.dropWhile fun run => run.start < inserted.start)
      rw [List.length_append, List.length_dropLast]
      omega
    · have := absorbFollowing_length inserted
        (runs.dropWhile fun run => run.start < inserted.start)
      rw [List.length_append]
      omega

/-! ## Room for every chunk that can be aborted -/

/-- The vector has a free place for each abortable reference. -/
structure StagingRoom (state : StagingAllocator) (capacity : Nat) : Prop where
  idle : state.allocatorInitialized = false →
    state.abortableStagingReferences = 0 ∧ state.stagingFreeRuns = []
  room : state.stagingFreeRuns.length + state.abortableStagingReferences ≤ capacity

namespace StagingRoom

variable {state : StagingAllocator} {capacity : Nat}

theorem mono {later : Nat} (room : StagingRoom state capacity) (more : capacity ≤ later) :
    StagingRoom state later :=
  ⟨room.idle, room.room.trans more⟩

theorem release (room : StagingRoom state capacity) (reference : ExtentReference)
    (owned : 0 < state.abortableStagingReferences) :
    checkRelease state capacity = .ok () ∧
      StagingRoom (releaseBlobStagingReference state reference) capacity := by
  have fits := room.room
  have grown := insertBlobStagingFreeRun_length state.stagingFreeRuns reference.toRun
  refine ⟨?_, fun idle => ?_, ?_⟩
  · rw [checkRelease, if_neg (by omega), if_neg (by omega)]
  · have := (room.idle idle).1
    omega
  · simp only [releaseBlobStagingReference]
    omega

theorem releases (room : StagingRoom state capacity) (references : List ExtentReference)
    (owned : references.length ≤ state.abortableStagingReferences) :
    checkReleases capacity state references = .ok () ∧
      StagingRoom (releaseBlobStagingReferences state references) capacity ∧
      (releaseBlobStagingReferences state references).abortableStagingReferences =
        state.abortableStagingReferences - references.length := by
  induction references generalizing state with
  | nil => exact ⟨rfl, room, rfl⟩
  | cons reference rest ih =>
    rw [List.length_cons] at owned
    obtain ⟨checked, next⟩ := room.release reference (by omega)
    obtain ⟨others, last, count⟩ := ih next (by simp only [releaseBlobStagingReference]; omega)
    refine ⟨?_, last, ?_⟩
    · rw [checkReleases, checked]
      exact others
    · change (releaseBlobStagingReferences (releaseBlobStagingReference state reference)
        rest).abortableStagingReferences = _
      rw [count, List.length_cons]
      simp only [releaseBlobStagingReference]
      omega

/-- The initial runs fit the vector that is moved in. -/
theorem loaded (room : StagingRoom state capacity) (space : CommittedSpace L)
    (readers : List Nat) :
    StagingRoom (initializeBlobStagingAllocator space readers state)
      (initializedCapacity space readers state capacity) := by
  unfold initializeBlobStagingAllocator initializedCapacity
  by_cases initialized : state.allocatorInitialized = true
  · rw [if_pos initialized, if_pos initialized]
    exact room
  · rw [if_neg initialized, if_neg initialized]
    have unused := (room.idle (Bool.not_eq_true _ ▸ initialized)).1
    refine ⟨fun fresh => (Bool.noConfusion fresh), ?_⟩
    simp only [unused]
    omega

/-- The room behind a staging; a staged chunk is counted. -/
structure Behind (count : Nat) (result : StageResult) (capacity : Nat) : Prop where
  room : StagingRoom result.state capacity
  counted : result.state.abortableStagingReferences =
    match result.outcome with
    | .ok _ => count + 1
    | .error _ => count

/-- The reservation makes place for the chunk and for the blocks that a failure gives back. -/
theorem reserve (initialized : state.allocatorInitialized = true) (space : CommittedSpace L)
    (fileBytes : Nat) (input : StageInput) :
    ∃ reserved, reserveCapacity space state fileBytes input capacity = .ok reserved ∧
      Behind state.abortableStagingReferences (reserveAndWrite space state fileBytes input)
        reserved := by
  have same := allocateBlocks_length state.pool (L.blocksFor (encodedExtentLength input.storedBytes))
  unfold reserveCapacity reserveAndWrite
  dsimp only
  generalize isTaken : state.pool.allocateBlocks
    (L.blocksFor (encodedExtentLength input.storedBytes)) = taken at same ⊢
  change taken.2.freeRuns.length = state.stagingFreeRuns.length at same
  generalize writeStagedExtent L space.highWaterBlocks fileBytes taken.1
    (L.blocksFor (encodedExtentLength input.storedBytes)) input = written
  obtain ⟨issued, written, error⟩ := written
  cases error with
  | none =>
    refine ⟨_, rfl, ⟨fun idle => ?_, ?_⟩, rfl⟩
    · rw [initialized] at idle
      cases idle
    · simp only
      omega
  | some error =>
    have given := insertBlobStagingFreeRun_length taken.2.freeRuns
      { start := taken.1
        count := L.blocksFor (encodedExtentLength input.storedBytes) }
    refine ⟨max capacity (state.stagingFreeRuns.length + state.abortableStagingReferences + 1), ?_,
      ⟨fun idle => ?_, ?_⟩, rfl⟩
    · dsimp only
      rw [checkInsert, if_neg (by omega)]
    · rw [initialized] at idle
      cases idle
    · simp only [ExtentReference.toRun]
      omega

theorem stage (room : StagingRoom state capacity) (space : CommittedSpace L) (readers : List Nat)
    (fileBytes : Nat) (input : StageInput) :
    ∃ later, stageCapacity space readers state fileBytes input capacity = .ok later ∧
      Behind state.abortableStagingReferences (stageBlobChunk space readers state fileBytes input)
        later := by
  have begun := room.loaded space readers
  have isInitialized :
      (initializeBlobStagingAllocator space readers state).allocatorInitialized = true := by
    unfold initializeBlobStagingAllocator
    split
    · assumption
    · rfl
  have counter : (initializeBlobStagingAllocator space readers state).abortableStagingReferences =
      state.abortableStagingReferences := by
    unfold initializeBlobStagingAllocator
    split <;> rfl
  have reserves := @reserve L _ (initializedCapacity space readers state capacity) isInitialized
    space fileBytes input
  rw [counter] at reserves
  unfold stageCapacity stageBlobChunk
  cases input.fault with
  | none => exact reserves
  | some fault =>
    cases fault with
    | load corrupt =>
      by_cases initialized : state.allocatorInitialized = true
      · simp only [if_pos initialized]
        exact reserve initialized space fileBytes input
      · simp only [if_neg initialized]
        exact ⟨capacity, rfl, room, rfl⟩
    | prepare => exact ⟨_, rfl, begun, counter⟩
    | reserve => exact ⟨_, rfl, begun, counter⟩
    | «seal» => exact reserves
    | resize grown => exact reserves
    | write written => exact reserves

theorem stageChunk (room : StagingRoom state capacity) (session : BlobSession L)
    (readers : List Nat) (file : Bytes) (id : BlobId) (ordinal : Nat) (decoded : Bytes)
    (environment : StageEnvironment) :
    ∃ later, stageCapacity session.space readers state file.length
        (session.chunkInput readers state id ordinal decoded environment) capacity = .ok later ∧
      Behind state.abortableStagingReferences
        (session.stageChunk readers state file id ordinal decoded environment).result later :=
  room.stage session.space readers file.length _

end StagingRoom

/-! ## Calls -/

variable {session : BlobSession L}

/-- Every prepared chunk is counted. -/
theorem streamLoop_room {readers : List Nat} {id : BlobId} {staged : Nat}
    (environment : Nat → StageEnvironment) (turns : Nat) {progress : StreamProgress}
    {source : Bytes} {capacity : Nat} (room : StagingRoom progress.staging capacity) :
    ∃ later, loopCapacity session readers id staged environment turns progress source capacity =
        .ok later ∧
      StagingRoom
        (streamLoop session readers id staged environment turns progress source).staging later ∧
      (streamLoop session readers id staged environment turns progress
          source).staging.abortableStagingReferences + progress.prepared.length =
        progress.staging.abortableStagingReferences +
          (streamLoop session readers id staged environment turns progress
            source).prepared.length := by
  induction turns generalizing progress source capacity with
  | zero => exact ⟨capacity, rfl, room, rfl⟩
  | succ turns ih =>
    rw [loopCapacity, streamLoop]
    by_cases done : source = []
    · rw [if_pos done, if_pos done]
      exact ⟨capacity, rfl, room, rfl⟩
    · rw [if_neg done, if_neg done]
      generalize min (L.blobChunkBytes - progress.working.length) source.length = count
      by_cases full : (progress.working ++ source.take count).length = L.blobChunkBytes
      · simp only [if_pos full]
        obtain ⟨later, isLater, behind⟩ := room.stageChunk session readers progress.file id
          (staged + progress.prepared.length) (progress.working ++ source.take count)
          (environment progress.prepared.length)
        rw [isLater]
        generalize session.stageChunk readers progress.staging progress.file id _ _ _ = stage
          at behind ⊢
        obtain ⟨next, counted⟩ := behind
        cases outcome : stage.result.outcome with
        | error error =>
          rw [outcome] at counted
          exact ⟨later, rfl, next, congrArg (· + progress.prepared.length) counted⟩
        | ok reference =>
          rw [outcome] at counted
          obtain ⟨last, isLast, rest, total⟩ := @ih
            { staging := stage.result.state, file := stage.file, working := [],
              prepared := progress.prepared ++ [reference] } (source.drop count) later next
          refine ⟨last, isLast, rest, ?_⟩
          simp only [List.length_append, List.length_singleton, counted] at total
          dsimp only
          omega
      · simp only [if_neg full]
        exact @ih { progress with working := progress.working ++ source.take count }
          (source.drop count) capacity room

/-- The chunks of the open handles. -/
def BlobTransaction.openChunks (tx : BlobTransaction) : List ExtentReference :=
  tx.writers.flatMap BlobWriter.stagedChunks

/-- Every chunk of an open handle is counted and has its place, and every handle its mutation. -/
structure StreamRoom (stream : StreamTransaction) (capacity : Nat) : Prop where
  room : StagingRoom stream.tx.staging capacity
  count : stream.tx.staging.abortableStagingReferences = stream.tx.openChunks.length
  mutations : stream.tx.writers.length ≤ stream.tx.mutations

section Calls

variable {stream : StreamTransaction} {capacity : Nat}

/-- A handle and the others. -/
theorem length_of_writer {tx : BlobTransaction} {id : BlobId} {writer : BlobWriter}
    (distinct : (tx.writers.map BlobWriter.id).Nodup) (lookup : tx.writer id = some writer) :
    tx.openChunks.length = writer.stagedChunks.length +
        ((tx.otherWriters id).flatMap BlobWriter.stagedChunks).length ∧
      tx.writers.length = (tx.otherWriters id).length + 1 := by
  have moved := (BlobTransaction.perm_of_writer distinct lookup).2
  have chunks := (moved.flatMap_right BlobWriter.stagedChunks).length_eq
  rw [List.flatMap_cons, List.length_append] at chunks
  exact ⟨chunks, moved.length_eq⟩

theorem StreamRoom.write (room : StreamRoom stream capacity)
    (distinct : (stream.tx.writers.map BlobWriter.id).Nodup) (id : BlobId) (source : Bytes)
    (environment : Nat → StageEnvironment) (exhausted : Bool) :
    ∃ later,
      stream.writeCapacity session id source environment exhausted capacity = .ok later ∧
        StreamRoom (stream.write session id source environment exhausted).2 later := by
  unfold StreamTransaction.writeCapacity StreamTransaction.write
  cases lookup : stream.tx.writer id with
  | none => exact ⟨capacity, rfl, room⟩
  | some writer =>
    dsimp only
    obtain ⟨isId, -⟩ := BlobTransaction.perm_of_writer distinct lookup
    obtain ⟨chunks, handles⟩ := length_of_writer distinct lookup
    split
    · exact ⟨capacity, rfl, room⟩
    · have reserves : capacity ≤
          stream.writeReserves session writer source (environment 0) capacity := by
        unfold StreamTransaction.writeReserves initializedCapacity
        dsimp only
        split
        · exact Nat.le_refl _
        · split
          · split
            · exact Nat.le_max_left _ _
            · exact Nat.le_refl _
          · split
            · exact Nat.le_refl _
            · exact Nat.le_max_left _ _
          · split
            · exact Nat.le_max_left _ _
            · exact le_trans (Nat.le_max_left _ _) (Nat.le_max_left _ _)
      obtain ⟨later, isLater, next, counted⟩ := @streamLoop_room _ session stream.tx.readers id
        writer.stagedChunks.length environment source.length
        { staging := stream.tx.staging, file := stream.file, working := writer.buffer,
          prepared := [] } source _ (room.room.mono reserves)
      rw [isLater]
      have count := room.count
      have mutations := room.mutations
      generalize streamLoop session stream.tx.readers id writer.stagedChunks.length environment
        source.length _ source = progress at next counted ⊢
      change progress.staging.abortableStagingReferences =
        stream.tx.staging.abortableStagingReferences + progress.prepared.length at counted
      unfold StreamTransaction.settleWrite
      cases progress.failure with
      | none =>
        refine ⟨later, rfl, next, ?_, ?_⟩
        · simp only [BlobTransaction.openChunks, List.flatMap_cons, List.length_append]
          rw [isId]
          omega
        · simp only [List.length_cons]
          rw [isId]
          omega
      | some error =>
        obtain ⟨checked, released, remaining⟩ := next.releases progress.prepared (by omega)
        obtain ⟨active, isDeactivated⟩ := deactivate_eq stream.tx error
        dsimp only
        rw [checked, isDeactivated]
        refine ⟨later, rfl, released, ?_, mutations⟩
        change (releaseBlobStagingReferences progress.staging
          progress.prepared).abortableStagingReferences = stream.tx.openChunks.length
        omega

theorem StreamRoom.install {writer : BlobWriter} {id : BlobId} {generation : Nat}
    {finalChunk : List ExtentReference} (room : StagingRoom stream.tx.staging capacity)
    (distinct : (stream.tx.writers.map BlobWriter.id).Nodup)
    (lookup : stream.tx.writer id = some writer)
    (count : stream.tx.staging.abortableStagingReferences =
      stream.tx.openChunks.length + finalChunk.length)
    (mutations : stream.tx.writers.length ≤ stream.tx.mutations) :
    StreamTransaction.checkFinish stream.tx.staging
        (writer.stagedChunks.length + finalChunk.length) = .ok () ∧
      StreamRoom (stream.withBooks (stream.tx.install L writer generation finalChunk)) capacity := by
  obtain ⟨isId, -⟩ := BlobTransaction.perm_of_writer distinct lookup
  obtain ⟨chunks, handles⟩ := length_of_writer distinct lookup
  have fits := room.room
  refine ⟨?_, ⟨fun idle => ?_, ?_⟩, ?_, ?_⟩
  · rw [StreamTransaction.checkFinish, if_neg (by omega)]
  · obtain ⟨unused, nothing⟩ := room.idle idle
    refine ⟨?_, nothing⟩
    simp only [StreamTransaction.withBooks, BlobTransaction.install, unused, Nat.zero_sub]
  · simp only [StreamTransaction.withBooks, BlobTransaction.install]
    omega
  · simp only [StreamTransaction.withBooks, BlobTransaction.install, BlobTransaction.openChunks,
      List.length_append]
    rw [isId]
    omega
  · simp only [StreamTransaction.withBooks, BlobTransaction.install]
    rw [isId]
    omega

theorem StreamRoom.finish (room : StreamRoom stream capacity)
    (distinct : (stream.tx.writers.map BlobWriter.id).Nodup) (id : BlobId)
    (environment : StageEnvironment) (exhausted : Bool) :
    ∃ later, stream.finishCapacity session id environment exhausted capacity = .ok later ∧
      StreamRoom (stream.finish session id environment exhausted).2 later := by
  unfold StreamTransaction.finishCapacity StreamTransaction.finish
  cases lookup : stream.tx.writer id with
  | none => exact ⟨capacity, rfl, room⟩
  | some writer =>
    dsimp only
    by_cases empty : writer.buffer = []
    · rw [if_pos empty, if_pos empty]
      cases exhausted with
      | true => exact ⟨capacity, rfl, room⟩
      | false =>
        obtain ⟨checked, next⟩ := @StreamRoom.install L stream capacity writer id
          (session.space.generation + 1) [] room.room distinct lookup room.count room.mutations
        rw [List.length_nil, Nat.add_zero] at checked
        refine ⟨capacity, ?_, next⟩
        simp only [checked, Except.map, Bool.false_eq_true, if_false]
    · rw [if_neg empty, if_neg empty]
      obtain ⟨later, isLater, behind⟩ := room.room.stageChunk session stream.tx.readers stream.file id
        writer.stagedChunks.length writer.buffer environment
      rw [isLater]
      generalize session.stageChunk stream.tx.readers stream.tx.staging stream.file id _ _ _ = stage
        at behind ⊢
      obtain ⟨next, counted⟩ := behind
      have count := room.count
      unfold StreamTransaction.settleFinish
      cases outcome : stage.result.outcome with
      | error error =>
        rw [outcome] at counted
        dsimp only
        obtain ⟨active, isDeactivated⟩ := deactivate_eq
          { stream.tx with staging := stage.result.state, fileBytes := stage.result.fileBytes } error
        rw [isDeactivated]
        exact ⟨later, rfl, next, counted.trans count, room.mutations⟩
      | ok finalChunk =>
        rw [outcome] at counted
        change stage.result.state.abortableStagingReferences =
          stream.tx.staging.abortableStagingReferences + 1 at counted
        cases exhausted with
        | true =>
          obtain ⟨checked, released⟩ := next.release finalChunk (by omega)
          refine ⟨later, ?_, released, ?_, room.mutations⟩
          · simp only [checked, Except.map, if_true]
          · change stage.result.state.abortableStagingReferences - 1 = stream.tx.openChunks.length
            omega
        | false =>
          obtain ⟨checked, installed⟩ := @StreamRoom.install L
            { tx := { stream.tx with staging := stage.result.state, fileBytes := stage.result.fileBytes }
              file := stage.file
              sized := stage.sized } later writer id (session.space.generation + 1) [finalChunk] next
            distinct lookup (counted.trans (congrArg (· + 1) count)) room.mutations
          refine ⟨later, ?_, installed⟩
          rw [List.length_singleton] at checked
          simp only [checked, Except.map, Bool.false_eq_true, if_false]

theorem StreamRoom.abort (room : StreamRoom stream capacity)
    (distinct : (stream.tx.writers.map BlobWriter.id).Nodup) (id : BlobId) :
    ∃ later, stream.abortCapacity id capacity = .ok later ∧
      StreamRoom (stream.withBooks (stream.tx.abort id)) later := by
  unfold StreamTransaction.abortCapacity BlobTransaction.abort
  cases lookup : stream.tx.writer id with
  | none =>
    rw [withBooks_self]
    exact ⟨capacity, rfl, room⟩
  | some writer =>
    obtain ⟨chunks, handles⟩ := length_of_writer distinct lookup
    have count := room.count
    have mutations := room.mutations
    obtain ⟨checked, released, remaining⟩ := room.room.releases writer.stagedChunks (by omega)
    refine ⟨capacity, ?_, released, ?_, ?_⟩
    · simp only [checked, Except.map]
      rw [if_neg (by omega)]
    · change (releaseBlobStagingReferences stream.tx.staging
        writer.stagedChunks).abortableStagingReferences =
          ((stream.tx.otherWriters id).flatMap BlobWriter.stagedChunks).length
      omega
    · change (stream.tx.otherWriters id).length ≤ stream.tx.mutations - 1
      omega

/-- A new handle has no chunks. -/
theorem StreamRoom.opened (room : StreamRoom stream capacity) (id : BlobId)
    (generatedIds : List BlobId) :
    StreamRoom (stream.withBooks { stream.tx.openWriter id with generatedIds }) capacity :=
  ⟨room.room, room.count, Nat.succ_le_succ room.mutations⟩

theorem StreamRoom.perform (room : StreamRoom stream capacity)
    (distinct : (stream.tx.writers.map BlobWriter.id).Nodup) (op : StreamOp) :
    ∃ later, stream.performCapacity session op capacity = .ok later ∧
      StreamRoom (stream.perform session op).2 later := by
  cases op with
  | beginRead => exact ⟨capacity, rfl, room.room, room.count, room.mutations⟩
  | endRead generation => exact ⟨capacity, rfl, room.room, room.count, room.mutations⟩
  | createBlob candidate =>
    refine ⟨capacity, rfl, ?_⟩
    simp only [StreamTransaction.perform]
    split
    · rcases createBlob_cases L stream.tx candidate with same | ⟨id, -, opens⟩
      · rw [same, withBooks_self]
        exact room
      · rw [opens]
        exact room.opened id _
    · exact room
  | replaceBlob id =>
    refine ⟨capacity, rfl, ?_⟩
    simp only [StreamTransaction.perform]
    split
    · rcases replaceBlob_cases L stream.tx id with same | opens
      · rw [same, withBooks_self]
        exact room
      · rw [opens]
        exact room.opened id stream.tx.generatedIds
    · exact room
  | eraseBlob id =>
    refine ⟨capacity, rfl, ?_⟩
    simp only [StreamTransaction.perform]
    split
    · unfold BlobTransaction.eraseBlob
      split
      · rw [withBooks_self]
        exact room
      · split
        · rw [withBooks_self]
          exact room
        · split
          · rw [withBooks_self]
            exact room
          · exact ⟨room.room, room.count, room.mutations.trans (Nat.le_succ _)⟩
    · exact room
  | write id source environment exhausted =>
    simp only [StreamTransaction.perform, StreamTransaction.performCapacity]
    by_cases active : stream.tx.active = true
    · rw [if_pos active, if_pos active]
      exact room.write distinct id source environment exhausted
    · rw [if_neg active, if_neg active]
      exact ⟨capacity, rfl, room⟩
  | finish id environment exhausted =>
    simp only [StreamTransaction.perform, StreamTransaction.performCapacity]
    by_cases active : stream.tx.active = true
    · rw [if_pos active, if_pos active]
      exact room.finish distinct id environment exhausted
    · rw [if_neg active, if_neg active]
      exact ⟨capacity, rfl, room⟩
  | abort id =>
    simp only [StreamTransaction.perform, StreamTransaction.performCapacity]
    by_cases active : stream.tx.active = true
    · rw [if_pos active, if_pos active]
      exact room.abort distinct id
    · rw [if_neg active, if_neg active]
      exact ⟨capacity, rfl, room⟩

/-! ## The theorem -/

/-- The books with the readers of the initialisation, and the room. -/
structure AllocatorInv (session : BlobSession L) (stream : StreamTransaction)
    (initialReaders : List Nat) (capacity : Nat) : Prop where
  books : stream.tx.InvFor session.space (· = initialReaders)
  room : StreamRoom stream capacity

/-- Before the initialisation the readers do not matter. -/
theorem AllocatorInv.now {initialReaders : List Nat}
    (inv : AllocatorInv session stream initialReaders capacity) :
    AllocatorInv session stream
      (if stream.tx.staging.allocatorInitialized then initialReaders else stream.tx.readers)
      capacity := by
  by_cases initialized : stream.tx.staging.allocatorInitialized = true
  · rw [if_pos initialized]
    exact inv
  · rw [if_neg initialized]
    refine ⟨⟨?_, inv.books.writerIds, inv.books.known⟩, inv.room⟩
    rcases inv.books.books with untouched | ⟨readers, -, booked⟩
    · exact .inl untouched
    · exact absurd booked.initialized initialized

theorem run_allocator {initialReaders : List Nat} (ops : List StreamOp)
    (inv : AllocatorInv session stream initialReaders capacity) :
    ∃ later, stream.runCapacity session capacity ops = .ok later ∧
      AllocatorInv session (stream.run session ops)
        (stream.initialReaders session initialReaders ops) later := by
  induction ops generalizing stream initialReaders capacity with
  | nil => exact ⟨capacity, rfl, inv⟩
  | cons op ops ih =>
    have now := inv.now
    obtain ⟨later, isLater, next⟩ := @StreamRoom.perform L session stream capacity inv.room
      inv.books.writerIds op
    have books := StreamTransaction.perform_invFor now.books (fun fresh => by simp [fresh]) op
    obtain ⟨last, isLast, rest⟩ := ih ⟨books, next⟩
    refine ⟨last, ?_, rest⟩
    rw [StreamTransaction.runCapacity, isLater]
    exact isLast

/-- The staging allocator never shares a block.  Behind any calls of a transaction, failed ones
included, the free runs ascend; they, the chunks of open handles, those of pending Blobs and the
discarded ones have no block twice and are exactly the blocks that were free or eligible when the
allocator was initialised and those between the old high-water mark and `stagingNextBlock`.  The
counter of abortable references is the number of chunks of open handles, each of which has its place
in the free-run vector, and no release on the way had to allocate or to underflow. -/
theorem stagingAllocator_exact (session : BlobSession L) (start : StreamTransaction)
    (fresh : start.tx.Fresh) (committed : session.opened.format.highWaterBytes ≤ start.file.length)
    (small : start.file.length ≤ maxFileOffset) (ops : List StreamOp) :
    ∃ capacity tx, start.runCapacity session 0 ops = .ok capacity ∧
      (start.run session ops).tx = tx ∧
      Ascending tx.staging.stagingFreeRuns ∧
      (∀ block, coverage tx.staging.stagingFreeRuns block + coverage tx.openChunks block +
          coverage (pendingChunks tx.blobs) block +
          coverage tx.discardedStagedReferences block =
        if tx.staging.allocatorInitialized then
          coverage (session.space.freeRuns ++
              eligibleRuns (start.initialReaders session start.tx.readers ops)
                session.space.retiredRuns) block +
            between session.space.highWaterBlocks tx.staging.stagingNextBlock block
        else 0) ∧
      (∀ block, coverage tx.staging.stagingFreeRuns block + coverage tx.openChunks block +
          coverage (pendingChunks tx.blobs) block +
          coverage tx.discardedStagedReferences block ≤ 1) ∧
      tx.staging.abortableStagingReferences = tx.openChunks.length ∧
      tx.staging.stagingFreeRuns.length + tx.openChunks.length ≤ capacity ∧
      tx.staging.stagingNextBlock * L.allocationQuantumBytes < 2 ^ 64 := by
  have begun : StreamInv session start [] := StreamInv.start fresh small
  have blocks := session.committed_fileBlocks committed small
  have stream := run_stream begun blocks ops
  have empty : AllocatorInv session start start.tx.readers 0 := by
    have books : start.tx.Inv session.space := fresh.inv
    refine ⟨⟨?_, books.writerIds, books.known⟩, ⟨fun _ => ?_, ?_⟩, ?_, ?_⟩
    · rcases books.books with untouched | ⟨readers, -, booked⟩
      · exact .inl untouched
      · rw [fresh.staging] at booked
        cases booked.initialized
    · rw [fresh.staging]
      exact ⟨rfl, rfl⟩
    · rw [fresh.staging]
      exact Nat.le_refl _
    · rw [fresh.staging, BlobTransaction.openChunks, fresh.writers]
      rfl
    · rw [fresh.writers]
      exact Nat.zero_le _
  obtain ⟨capacity, isCapacity, inv⟩ := run_allocator ops empty
  refine ⟨capacity, (start.run session ops).tx, isCapacity, rfl, ?_⟩
  have room := inv.room.room.room
  rw [inv.room.count] at room
  generalize start.initialReaders session start.tx.readers ops = readers at inv ⊢
  have whole (block : Nat) : coverage (start.run session ops).tx.held block =
      coverage (start.run session ops).tx.openChunks block +
        coverage (pendingChunks (start.run session ops).tx.blobs) block +
        coverage (start.run session ops).tx.discardedStagedReferences block := by
    rw [BlobTransaction.held, coverage_append, coverage_append, Nat.add_assoc]
    rfl
  rcases inv.books.books with ⟨untouched, -, nothing⟩ | ⟨initialReaders, isReaders, books⟩
  · have none := (inv.room.room.idle untouched).2
    have zero (block : Nat) : coverage (start.run session ops).tx.held block = 0 := by
      rw [nothing]
      rfl
    refine ⟨?_, fun block => ?_, fun block => ?_, inv.room.count, room, stream.tail.representable⟩
    · rw [none]
      exact List.Pairwise.nil
    · have := zero block
      rw [untouched, none, coverage_nil]
      rw [whole] at this
      simp only [Bool.false_eq_true, if_false]
      omega
    · have := zero block
      rw [none, coverage_nil]
      rw [whole] at this
      omega
  · subst isReaders
    refine ⟨books.ascending, fun block => ?_, fun block => ?_, inv.room.count, room,
      stream.tail.representable⟩
    · have balance := books.balance block
      rw [whole, stagedBlocks, coverage_initialStagingRuns] at balance
      rw [if_pos books.initialized, coverage_append]
      omega
    · have balance := books.balance block
      have atMost := stagedBlocks_le_one session.space initialReaders
        (start.run session ops).tx.staging.stagingNextBlock block
      rw [whole] at balance
      omega

/-- Calls for three Blobs of one chunk: the first is finished, the second is erased again, and the
third runs out of memory behind its staging and is aborted.  A fourth Blob is begun. -/
def mixedCalls : List StreamOp :=
  let id (byte : Byte) : BlobId := ⟨List.replicate 16 byte, List.length_replicate⟩
  let calls (byte : Byte) (exhausted : Bool) : List StreamOp :=
    [.createBlob (some (id byte)), .write (id byte) [byte] (fun _ => plainStage) false,
      .finish (id byte) plainStage exhausted]
  calls 2 false ++ (calls 3 false ++ .eraseBlob (id 3) :: (calls 4 true ++
    [.abort (id 4), .createBlob (some firstBlob)]))

theorem run_snoc (stream : StreamTransaction) (ops : List StreamOp) (op : StreamOp) :
    stream.run session (ops ++ [op]) = ((stream.run session ops).perform session op).2 := by
  induction ops generalizing stream with
  | nil => rfl
  | cons first ops ih => exact ih _

/-- A chunk of the fourth Blob is staged behind them: one run is free, and a chunk of an open handle,
one of a pending Blob and a discarded one are in use. -/
theorem stagingAllocator_exact_mixed : ∃ capacity tx,
    plainStart.runCapacity chunkSession 0
        (mixedCalls ++ [.write firstBlob chunkBytes (fun _ => plainStage) false]) = .ok capacity ∧
      (plainStart.run chunkSession
        (mixedCalls ++ [.write firstBlob chunkBytes (fun _ => plainStage) false])).tx = tx ∧
      tx.staging.stagingFreeRuns = [⟨19, 1, 0⟩] ∧ tx.openChunks = [⟨20, 17, 65712, 3⟩] ∧
      pendingChunks tx.blobs = [⟨17, 1, 177, 3⟩] ∧
      tx.discardedStagedReferences = [⟨18, 1, 177, 3⟩] ∧
      (∀ block, coverage tx.staging.stagingFreeRuns block + coverage tx.openChunks block +
          coverage (pendingChunks tx.blobs) block +
          coverage tx.discardedStagedReferences block = between 17 37 block) ∧
      tx.staging.abortableStagingReferences = tx.openChunks.length ∧
      tx.staging.stagingFreeRuns.length + tx.openChunks.length ≤ capacity := by
  obtain ⟨mixed, isMixed⟩ : ∃ mixed, plainStart.run chunkSession mixedCalls = mixed := ⟨_, rfl⟩
  have facts : mixed.tx.active = true ∧ mixed.tx.readers = [] ∧ mixed.tx.bytesWritten ≤ 1024 ∧
      mixed.tx.staging = ⟨[⟨19, 1, 0⟩], 20, 0, true⟩ ∧
      mixed.tx.writer firstBlob = some { id := firstBlob } ∧
      mixed.tx.otherWriters firstBlob = [] ∧ pendingChunks mixed.tx.blobs = [⟨17, 1, 177, 3⟩] ∧
      mixed.tx.discardedStagedReferences = [⟨18, 1, 177, 3⟩] := by
    rw [← isMixed]
    decide +kernel
  obtain ⟨active, isReaders, unspent, isState, lookup, alone, pending, discarded⟩ := facts
  obtain ⟨file, written⟩ := @write_chunkBytes _ _ ⟨[⟨19, 1, 0⟩], 37, 1, true⟩ ⟨20, 17, 65712, 3⟩ active
    lookup unspent isReaders isState (by decide +kernel) (by decide +kernel)
  obtain ⟨capacity, tx, returns, isTx, -, covers, -, count, room, -⟩ := stagingAllocator_exact
    chunkSession plainStart plainStart_fresh (by rw [plainStart_file]; decide)
    (by rw [plainStart_file]; decide)
    (mixedCalls ++ [.write firstBlob chunkBytes (fun _ => plainStage) false])
  refine ⟨capacity, tx, returns, isTx, ?_⟩
  rw [run_snoc, isMixed, written] at isTx
  subst isTx
  refine ⟨rfl, ?_, pending, discarded, ?_, count, room⟩
  · rw [BlobTransaction.openChunks, List.flatMap_cons, alone]
    rfl
  · exact fun block => (covers block).trans (Nat.zero_add _)

end Calls

end Miare
