import Miare.Blob.Proofs.Capacity

/-!
# The staging boundary and the capacity profile

`stageBlobChunk` moves `stagingNextBlock` before it compares the reservation with the capacity
profile, and a refused reservation leaves it there.  The boundary stays inside the profile exactly as
long as no reservation has to grow the file behind it.
-/

namespace Miare

open Misc

variable {L : Limits}

/-- The boundary is inside the capacity profile of a transaction over these committed blocks. -/
def WithinProfile (L : Limits) (highWaterBlocks nextBlock : Nat) : Prop :=
  nextBlock * L.allocationQuantumBytes ≤ L.maxDatabaseBytes ∧
    nextBlock * L.allocationQuantumBytes ≤
      highWaterBlocks * L.allocationQuantumBytes + L.maxFileGrowthPerTransaction

instance (L : Limits) (highWaterBlocks nextBlock : Nat) :
    Decidable (WithinProfile L highWaterBlocks nextBlock) :=
  inferInstanceAs (Decidable (_ ∧ _))

theorem WithinProfile.mono {highWaterBlocks nextBlock later : Nat}
    (within : WithinProfile L highWaterBlocks later) (order : nextBlock ≤ later) :
    WithinProfile L highWaterBlocks nextBlock :=
  ⟨(Nat.mul_le_mul_right _ order).trans within.1, (Nat.mul_le_mul_right _ order).trans within.2⟩

theorem WithinProfile.zero (highWaterBlocks : Nat) : WithinProfile L highWaterBlocks 0 := by
  simp [WithinProfile]

/-! ## Reservations that fit -/

/-- The blocks for `count` are free, or the file may grow by them. -/
def StagingAllocator.reservationFits (space : CommittedSpace L) (state : StagingAllocator)
    (count : Nat) : Prop :=
  WithinProfile L space.highWaterBlocks
    (if (takeFirstFit count state.stagingFreeRuns).isSome then state.stagingNextBlock
    else state.stagingNextBlock + count)

/-- The reservation of a call of `stageBlobChunk`, if it comes to one, fits. -/
def stageFits (space : CommittedSpace L) (readers : List Nat) (state : StagingAllocator)
    (input : StageInput) : Prop :=
  let initialized := initializeBlobStagingAllocator space readers state
  let count := L.blocksFor (encodedExtentLength input.storedBytes)
  match input.fault with
  | some (.load _) =>
    state.allocatorInitialized = true → state.reservationFits space count
  | some .prepare => WithinProfile L space.highWaterBlocks initialized.stagingNextBlock
  | some .reserve => WithinProfile L space.highWaterBlocks initialized.stagingNextBlock
  | _ => initialized.reservationFits space count

/-- Every reservation of the loop of `BlobWriter::write` fits. -/
def loopFits (session : BlobSession L) (readers : List Nat) (id : BlobId) (staged : Nat)
    (environment : Nat → StageEnvironment) : Nat → StreamProgress → Bytes → Prop
  | 0, _, _ => True
  | turns + 1, progress, source =>
    if source = [] then True
    else
      let count := min (L.blobChunkBytes - progress.working.length) source.length
      let working := progress.working ++ source.take count
      if working.length = L.blobChunkBytes then
        let ordinal := staged + progress.prepared.length
        let stage := session.stageChunk readers progress.staging progress.file id ordinal working
          (environment progress.prepared.length)
        stageFits session.space readers progress.staging
            (session.chunkInput readers progress.staging id ordinal working
              (environment progress.prepared.length)) ∧
          match stage.result.outcome with
          | .ok reference =>
            loopFits session readers id staged environment turns
              { staging := stage.result.state, file := stage.file, working := [],
                prepared := progress.prepared ++ [reference] } (source.drop count)
          | .error _ => True
      else
        loopFits session readers id staged environment turns { progress with working }
          (source.drop count)

namespace StreamTransaction

/-- Every reservation of `BlobWriter::write` fits. -/
def writeFits (session : BlobSession L) (stream : StreamTransaction) (id : BlobId) (source : Bytes)
    (environment : Nat → StageEnvironment) (exhausted : Bool) : Prop :=
  match stream.tx.writer id with
  | none => True
  | some writer =>
    if L.maxBlobBytes - writer.position < source.length ∨
        L.maxBlobBytesPerTransaction - stream.tx.bytesWritten < source.length ∨
        exhausted = true then True
    else
      loopFits session stream.tx.readers id writer.stagedChunks.length environment source.length
        { staging := stream.tx.staging, file := stream.file, working := writer.buffer,
          prepared := [] } source

/-- The reservation of `BlobWriter::finish`, if there is one, fits. -/
def finishFits (session : BlobSession L) (stream : StreamTransaction) (id : BlobId)
    (environment : StageEnvironment) : Prop :=
  match stream.tx.writer id with
  | none => True
  | some writer =>
    if writer.buffer = [] then True
    else
      stageFits session.space stream.tx.readers stream.tx.staging
        (session.chunkInput stream.tx.readers stream.tx.staging id writer.stagedChunks.length
          writer.buffer environment)

/-- Every reservation of a call fits. -/
def performFits (session : BlobSession L) (stream : StreamTransaction) : StreamOp → Prop
  | .write id source environment exhausted =>
    if stream.tx.active then stream.writeFits session id source environment exhausted else True
  | .finish id environment _ =>
    if stream.tx.active then stream.finishFits session id environment else True
  | _ => True

/-- Every reservation of a run fits. -/
def runFits (session : BlobSession L) (stream : StreamTransaction) : List StreamOp → Prop
  | [] => True
  | op :: ops => stream.performFits session op ∧ runFits session (stream.perform session op).2 ops

end StreamTransaction

/-! ## The boundary behind a call -/

section Stage

variable {space : CommittedSpace L} {state : StagingAllocator}

theorem allocateBlocks_nextBlock_eq (pool : BlockPool) (count : Nat) :
    (pool.allocateBlocks count).2.nextBlock =
      if (takeFirstFit count pool.freeRuns).isSome then pool.nextBlock
      else pool.nextBlock + count := by
  unfold BlockPool.allocateBlocks
  cases takeFirstFit count pool.freeRuns with
  | none => rfl
  | some found => rfl

theorem reserveAndWrite_nextBlock (fileBytes : Nat) (input : StageInput) :
    (reserveAndWrite space state fileBytes input).state.stagingNextBlock =
      if (takeFirstFit (L.blocksFor (encodedExtentLength input.storedBytes))
          state.stagingFreeRuns).isSome then state.stagingNextBlock
      else state.stagingNextBlock + L.blocksFor (encodedExtentLength input.storedBytes) := by
  have taken := allocateBlocks_nextBlock_eq state.pool
    (L.blocksFor (encodedExtentLength input.storedBytes))
  unfold reserveAndWrite
  dsimp only
  split <;> exact taken

theorem reservationFits_iff (fileBytes : Nat) (input : StageInput) :
    WithinProfile L space.highWaterBlocks
        (reserveAndWrite space state fileBytes input).state.stagingNextBlock ↔
      state.reservationFits space (L.blocksFor (encodedExtentLength input.storedBytes)) := by
  rw [reserveAndWrite_nextBlock, StagingAllocator.reservationFits]

theorem StagingAllocator.reservationFits.within {count : Nat}
    (fits : state.reservationFits space count) :
    WithinProfile L space.highWaterBlocks state.stagingNextBlock := by
  refine fits.mono ?_
  split
  · exact Nat.le_refl _
  · exact Nat.le_add_right _ _

/-- The boundary behind `stageBlobChunk` is inside the profile if it was before and the reservation
fits, and only then. -/
theorem stage_within_iff (space : CommittedSpace L)
    (idle : state.allocatorInitialized = false → state.stagingNextBlock = 0) (readers : List Nat)
    (fileBytes : Nat) (input : StageInput) :
    WithinProfile L space.highWaterBlocks
        (stageBlobChunk space readers state fileBytes input).state.stagingNextBlock ↔
      WithinProfile L space.highWaterBlocks state.stagingNextBlock ∧
        stageFits space readers state input := by
  have before (later : StagingAllocator)
      (isLater : initializeBlobStagingAllocator space readers state = later)
      (within : WithinProfile L space.highWaterBlocks later.stagingNextBlock) :
      WithinProfile L space.highWaterBlocks state.stagingNextBlock := by
    subst isLater
    by_cases initialized : state.allocatorInitialized = true
    · rwa [initializeBlobStagingAllocator, if_pos initialized] at within
    · rw [idle (Bool.not_eq_true _ ▸ initialized)]
      exact WithinProfile.zero _
  have reserves : WithinProfile L space.highWaterBlocks
      (reserveAndWrite space (initializeBlobStagingAllocator space readers state) fileBytes
        input).state.stagingNextBlock ↔
      WithinProfile L space.highWaterBlocks state.stagingNextBlock ∧
        (initializeBlobStagingAllocator space readers state).reservationFits space
          (L.blocksFor (encodedExtentLength input.storedBytes)) := by
    rw [reservationFits_iff]
    exact ⟨fun fits => ⟨before _ rfl fits.within, fits⟩, fun both => both.2⟩
  unfold stageFits stageBlobChunk
  cases input.fault with
  | none => exact reserves
  | some fault =>
    cases fault with
    | load corrupt =>
      dsimp only
      by_cases initialized : state.allocatorInitialized = true
      · rw [if_pos initialized, reservationFits_iff]
        exact ⟨fun fits => ⟨fits.within, fun _ => fits⟩, fun both => both.2 initialized⟩
      · rw [if_neg initialized]
        exact ⟨fun within => ⟨within, fun absurd => (initialized absurd).elim⟩, fun both => both.1⟩
    | prepare => exact ⟨fun within => ⟨before _ rfl within, within⟩, fun both => both.2⟩
    | reserve => exact ⟨fun within => ⟨before _ rfl within, within⟩, fun both => both.2⟩
    | «seal» => exact reserves
    | resize grown => exact reserves
    | write written => exact reserves

theorem stageChunk_within_iff (session : BlobSession L)
    (idle : state.allocatorInitialized = false → state.stagingNextBlock = 0) (readers : List Nat)
    (file : Bytes) (id : BlobId) (ordinal : Nat) (decoded : Bytes) (environment : StageEnvironment) :
    WithinProfile L session.space.highWaterBlocks
        (session.stageChunk readers state file id ordinal decoded
          environment).result.state.stagingNextBlock ↔
      WithinProfile L session.space.highWaterBlocks state.stagingNextBlock ∧
        stageFits session.space readers state
          (session.chunkInput readers state id ordinal decoded environment) :=
  stage_within_iff session.space idle readers file.length _

theorem StagingInv.idle {readers : List Nat}
    {held : List ExtentReference} (inv : StagingInv space readers state held)
    (fresh : state.allocatorInitialized = false) : state.stagingNextBlock = 0 := by
  rcases inv with ⟨-, unused, -⟩ | ⟨initialReaders, -, books⟩
  · exact unused
  · rw [books.initialized] at fresh
    cases fresh

end Stage

section Run

variable {session : BlobSession L} {stream : StreamTransaction}

theorem loop_within_iff {readers : List Nat} {held : List ExtentReference} {id : BlobId}
    {staged : Nat} (environment : Nat → StageEnvironment) (turns : Nat) {progress : StreamProgress}
    {source : Bytes}
    (inv : StagingInv session.space readers progress.staging (progress.prepared ++ held)) :
    WithinProfile L session.space.highWaterBlocks
        (streamLoop session readers id staged environment turns progress
          source).staging.stagingNextBlock ↔
      WithinProfile L session.space.highWaterBlocks progress.staging.stagingNextBlock ∧
        loopFits session readers id staged environment turns progress source := by
  induction turns generalizing progress source with
  | zero => exact ⟨fun within => ⟨within, trivial⟩, fun both => both.1⟩
  | succ turns ih =>
    rw [loopFits, streamLoop]
    by_cases done : source = []
    · rw [if_pos done, if_pos done]
      exact ⟨fun within => ⟨within, trivial⟩, fun both => both.1⟩
    · rw [if_neg done, if_neg done]
      generalize min (L.blobChunkBytes - progress.working.length) source.length = count
      by_cases full : (progress.working ++ source.take count).length = L.blobChunkBytes
      · simp only [if_pos full]
        have boundary := stageChunk_within_iff session inv.idle readers progress.file id
          (staged + progress.prepared.length) (progress.working ++ source.take count)
          (environment progress.prepared.length)
        have books : StageResult.Keeps session.space readers (progress.prepared ++ held)
            (session.stageChunk readers progress.staging progress.file id
              (staged + progress.prepared.length) (progress.working ++ source.take count)
              (environment progress.prepared.length)).result :=
          stageBlobChunk_keeps inv progress.file.length _
        generalize session.stageChunk readers progress.staging progress.file id _ _ _ = stage
          at boundary books ⊢
        unfold StageResult.Keeps at books
        cases outcome : stage.result.outcome with
        | error error =>
          rw [and_true]
          exact boundary
        | ok reference =>
          rw [outcome] at books
          have rest := @ih { staging := stage.result.state, file := stage.file, working := [],
                             prepared := progress.prepared ++ [reference] } (source.drop count) (by
            refine books.perm ?_
            rw [List.append_assoc]
            exact List.perm_middle)
          rw [rest, boundary, and_assoc]
      · simp only [if_neg full]
        exact @ih { progress with working := progress.working ++ source.take count }
          (source.drop count) inv

theorem releases_nextBlock (state : StagingAllocator) (references : List ExtentReference) :
    (releaseBlobStagingReferences state references).stagingNextBlock = state.stagingNextBlock := by
  induction references generalizing state with
  | nil => rfl
  | cons reference rest ih => exact ih (releaseBlobStagingReference state reference)

theorem write_within_iff (inv : stream.tx.Inv session.space) (id : BlobId) (source : Bytes)
    (environment : Nat → StageEnvironment) (exhausted : Bool) :
    WithinProfile L session.space.highWaterBlocks
        (stream.write session id source environment exhausted).2.tx.staging.stagingNextBlock ↔
      WithinProfile L session.space.highWaterBlocks stream.tx.staging.stagingNextBlock ∧
        stream.writeFits session id source environment exhausted := by
  unfold StreamTransaction.write StreamTransaction.writeFits
  cases stream.tx.writer id with
  | none => exact (and_iff_left trivial).symm
  | some writer =>
    dsimp only
    by_cases refused : L.maxBlobBytes - writer.position < source.length ∨
        L.maxBlobBytesPerTransaction - stream.tx.bytesWritten < source.length ∨ exhausted = true
    · rw [if_pos refused, if_pos refused]
      exact (and_iff_left trivial).symm
    · rw [if_neg refused, if_neg refused]
      rw [← @loop_within_iff L session stream.tx.readers stream.tx.held id
        writer.stagedChunks.length environment source.length
        { staging := stream.tx.staging, file := stream.file, working := writer.buffer,
          prepared := [] } source inv.books]
      generalize streamLoop session stream.tx.readers id writer.stagedChunks.length environment
        source.length _ source = progress
      unfold StreamTransaction.settleWrite
      cases progress.failure with
      | none => exact Iff.rfl
      | some error =>
        rw [releases_nextBlock]

theorem finish_within_iff (inv : stream.tx.Inv session.space) (id : BlobId)
    (environment : StageEnvironment) (exhausted : Bool) :
    WithinProfile L session.space.highWaterBlocks
        (stream.finish session id environment exhausted).2.tx.staging.stagingNextBlock ↔
      WithinProfile L session.space.highWaterBlocks stream.tx.staging.stagingNextBlock ∧
        stream.finishFits session id environment := by
  unfold StreamTransaction.finish StreamTransaction.finishFits
  cases stream.tx.writer id with
  | none => exact (and_iff_left trivial).symm
  | some writer =>
    dsimp only
    by_cases empty : writer.buffer = []
    · rw [if_pos empty, if_pos empty]
      cases exhausted with
      | true => exact (and_iff_left trivial).symm
      | false => exact (and_iff_left trivial).symm
    · rw [if_neg empty, if_neg empty]
      rw [← stageChunk_within_iff session inv.books.idle stream.tx.readers stream.file]
      generalize session.stageChunk stream.tx.readers stream.tx.staging stream.file id _ _ _ = stage
      unfold StreamTransaction.settleFinish
      cases stage.result.outcome with
      | error error =>
        obtain ⟨active, isDeactivated⟩ := deactivate_eq
          { stream.tx with staging := stage.result.state, fileBytes := stage.result.fileBytes } error
        dsimp only
        rw [isDeactivated]
        exact Iff.rfl
      | ok finalChunk =>
        cases exhausted with
        | true => exact Iff.rfl
        | false => exact Iff.rfl

/-- One call. -/
theorem perform_within_iff (inv : stream.tx.Inv session.space) (op : StreamOp) :
    WithinProfile L session.space.highWaterBlocks
        (stream.perform session op).2.tx.staging.stagingNextBlock ↔
      WithinProfile L session.space.highWaterBlocks stream.tx.staging.stagingNextBlock ∧
        stream.performFits session op := by
  have unmoved {next : StreamTransaction}
      (same : next.tx.staging.stagingNextBlock = stream.tx.staging.stagingNextBlock) :
      WithinProfile L session.space.highWaterBlocks next.tx.staging.stagingNextBlock ↔
        WithinProfile L session.space.highWaterBlocks stream.tx.staging.stagingNextBlock ∧ True := by
    rw [same, and_true]
  cases op with
  | beginRead => exact unmoved rfl
  | endRead generation => exact unmoved rfl
  | createBlob candidate =>
    simp only [StreamTransaction.perform]
    split
    · rcases createBlob_cases L stream.tx candidate with same | ⟨id, -, opens⟩
      · rw [same]
        exact unmoved rfl
      · rw [opens]
        exact unmoved rfl
    · exact unmoved rfl
  | replaceBlob id =>
    simp only [StreamTransaction.perform]
    split
    · rcases replaceBlob_cases L stream.tx id with same | opens
      · rw [same]
        exact unmoved rfl
      · rw [opens]
        exact unmoved rfl
    · exact unmoved rfl
  | eraseBlob id =>
    simp only [StreamTransaction.perform]
    split
    · unfold BlobTransaction.eraseBlob
      refine unmoved ?_
      split
      · rfl
      · split
        · rfl
        · split <;> rfl
    · exact unmoved rfl
  | write id source environment exhausted =>
    simp only [StreamTransaction.perform, StreamTransaction.performFits]
    by_cases active : stream.tx.active = true
    · rw [if_pos active, if_pos active]
      exact write_within_iff inv id source environment exhausted
    · rw [if_neg active, if_neg active]
      exact unmoved rfl
  | finish id environment exhausted =>
    simp only [StreamTransaction.perform, StreamTransaction.performFits]
    by_cases active : stream.tx.active = true
    · rw [if_pos active, if_pos active]
      exact finish_within_iff inv id environment exhausted
    · rw [if_neg active, if_neg active]
      exact unmoved rfl
  | abort id =>
    simp only [StreamTransaction.perform]
    split
    · unfold BlobTransaction.abort
      refine unmoved ?_
      split
      · rfl
      · exact releases_nextBlock _ _
    · exact unmoved rfl

theorem run_within_iff (ops : List StreamOp) (inv : stream.tx.Inv session.space) :
    WithinProfile L session.space.highWaterBlocks
        (stream.run session ops).tx.staging.stagingNextBlock ↔
      WithinProfile L session.space.highWaterBlocks stream.tx.staging.stagingNextBlock ∧
        stream.runFits session ops := by
  induction ops generalizing stream with
  | nil => exact (and_iff_left trivial).symm
  | cons op ops ih =>
    rw [StreamTransaction.run, StreamTransaction.runFits,
      ih (StreamTransaction.perform_inv inv op), perform_within_iff inv op, and_assoc]

/-- A failed Blob write keeps the boundary inside the capacity profile if every reservation of the
transaction finds its blocks free or may grow the file by them, and only then. -/
theorem stagingBoundary_within_iff (session : BlobSession L) (start : StreamTransaction)
    (fresh : start.tx.Fresh) (ops : List StreamOp) :
    WithinProfile L session.space.highWaterBlocks
        (start.run session ops).tx.staging.stagingNextBlock ↔
      start.runFits session ops := by
  rw [run_within_iff ops fresh.inv]
  refine ⟨fun both => both.2, fun fits => ⟨?_, fits⟩⟩
  rw [fresh.staging]
  exact WithinProfile.zero _

/-- A reservation of one block that the default profile admits. -/
theorem stagingBoundary_within_short :
    WithinProfile .default plainSession.space.highWaterBlocks
        (plainStart.run plainSession
          (plainWrites ++ [.finish firstBlob plainStage false])).tx.staging.stagingNextBlock ∧
      plainStart.runFits plainSession (plainWrites ++ [.finish firstBlob plainStage false]) := by
  have within : WithinProfile .default plainSession.space.highWaterBlocks
      (plainStart.run plainSession
        (plainWrites ++ [.finish firstBlob plainStage false])).tx.staging.stagingNextBlock := by
    decide +kernel
  exact ⟨within, (stagingBoundary_within_iff plainSession plainStart plainStart_fresh _).1 within⟩

/-- The default limits, for a database that is full with 17 blocks. -/
def fullLimits : Limits :=
  { Limits.default with
    maxDatabaseBytes := 17 * 4096
    fits_uint64 := by decide }

/-- `plainDatabase` under these limits. -/
abbrev fullSession : BlobSession fullLimits := plainSessionOf fullLimits rfl

/-- A Blob of three bytes is refused with `ResourceLimit` when it is finished, and aborted.  The
transaction holds no chunk any more, but its boundary is behind the end of the largest database. -/
theorem stagingBoundary_poisoned :
    WithinProfile fullLimits fullSession.space.highWaterBlocks
        fullSession.space.highWaterBlocks ∧
      (plainStart.run fullSession (plainWrites ++
        [.finish firstBlob plainStage false, .abort firstBlob])).tx.held = [] ∧
      (plainStart.trace fullSession (plainWrites ++
        [.finish firstBlob plainStage false, .abort firstBlob])).map Prod.snd =
          [true, true, false, true] ∧
      ¬ WithinProfile fullLimits fullSession.space.highWaterBlocks
        (plainStart.run fullSession (plainWrites ++
          [.finish firstBlob plainStage false, .abort firstBlob])).tx.staging.stagingNextBlock := by
  decide +kernel

end Run

end Miare
