import Miare.Blob.Proofs.StreamBooks

/-!
# Blob streams are exact

Every open writer holds the bytes of its successful writes, in staged chunks and in its buffer.  A
finished version holds them in chunks that no later operation of the transaction touches.
-/

namespace Miare

open Misc

variable {L : Limits} {session : BlobSession L}

/-! ## The accepted bytes -/

/-- What a call adds to the bytes accepted for a Blob: a new handle begins anew, a write that returns
adds its source. -/
def acceptStep (id : BlobId) (content : Bytes) : StreamOp × Bool → Bytes
  | (.createBlob (some other), true) => if other = id then [] else content
  | (.replaceBlob other, true) => if other = id then [] else content
  | (.write other source _ _, true) => if other = id then content ++ source else content
  | _ => content

/-- The concatenation of the successful writes of the latest handle for a Blob. -/
def accepted (id : BlobId) (history : List (StreamOp × Bool)) : Bytes :=
  history.foldl (acceptStep id) []

theorem accepted_append (id : BlobId) (history : List (StreamOp × Bool)) (call : StreamOp × Bool) :
    accepted id (history ++ [call]) = acceptStep id (accepted id history) call := by
  rw [accepted, List.foldl_append, List.foldl_cons, List.foldl_nil, accepted]

theorem chunkOf_append {content more : Bytes} {ordinal : Nat}
    (whole : (ordinal + 1) * L.blobChunkBytes ≤ content.length) :
    chunkOf L (content ++ more) ordinal = chunkOf L content ordinal := by
  rw [Nat.add_mul, Nat.one_mul] at whole
  exact slice_append_left whole

/-! ## The loop of a write -/

/-- The reference lies in the file. -/
def InFile (L : Limits) (file : Bytes) (reference : ExtentReference) : Prop :=
  (reference.blockIndex + reference.blockCount) * L.allocationQuantumBytes ≤ file.length

theorem InFile.fileBlocks {file : Bytes} {reference : ExtentReference}
    (inside : InFile L file reference) (small : file.length ≤ maxFileOffset) :
    reference.blockIndex + reference.blockCount ≤ L.fileBlocks := by
  rw [Limits.fileBlocks, Nat.le_div_iff_mul_le L.quantum_pos]
  exact inside.trans small

/-- What staging keeps, whether it fails or not. -/
structure StagingKeeps (session : BlobSession L) (readers : List Nat) (held : List ExtentReference)
    (file : Bytes) (progress : StreamProgress) : Prop where
  inv : StagingInv session.space readers progress.staging (progress.prepared ++ held)
  tail : StagingTail L progress.staging
  small : progress.file.length ≤ maxFileOffset
  grown : file.length ≤ progress.file.length
  kept : ∀ reference ∈ held, BlocksKept L file progress.file reference

/-- The bytes of a writer in the loop: `staged` chunks of earlier calls, the prepared ones, and the
working buffer. -/
structure Working (session : BlobSession L) (id : BlobId) (staged : Nat) (content : Bytes)
    (progress : StreamProgress) : Prop where
  whole : (staged + progress.prepared.length) * L.blobChunkBytes ≤ content.length
  working : progress.working = content.drop ((staged + progress.prepared.length) * L.blobChunkBytes)
  short : progress.working.length < L.blobChunkBytes
  stands : ∀ index reference, progress.prepared[index]? = some reference →
    ChunkStands session progress.file id (staged + index) (chunkOf L content (staged + index))
      reference

section Loop

variable {readers : List Nat} {held : List ExtentReference} {id : BlobId} {staged : Nat}
  {content source : Bytes} {progress : StreamProgress}

theorem Working.append (working : Working session id staged content progress) {more : Bytes}
    (short : (progress.working ++ more).length < L.blobChunkBytes) :
    Working session id staged (content ++ more)
      { progress with working := progress.working ++ more } := by
  refine ⟨?_, ?_, short, fun index reference found => ?_⟩
  · rw [List.length_append]
    exact working.whole.trans (Nat.le_add_right _ _)
  · dsimp only
    rw [List.drop_append_of_le_length working.whole, working.working]
  · have inside : index < progress.prepared.length := (List.getElem?_eq_some_iff.1 found).1
    rw [chunkOf_append]
    · exact working.stands index reference found
    · refine le_trans (Nat.mul_le_mul_right _ ?_) working.whole
      omega

/-- A full buffer is the next chunk. -/
theorem Working.chunk (working : Working session id staged content progress) {more : Bytes}
    (full : (progress.working ++ more).length = L.blobChunkBytes) :
    progress.working ++ more =
      chunkOf L (content ++ more) (staged + progress.prepared.length) := by
  rw [chunkOf, slice, List.drop_append_of_le_length working.whole, ← working.working, ← full,
    List.take_length]

/-- The chunk that was staged from the full buffer. -/
theorem Working.push (working : Working session id staged content progress) {more later : Bytes}
    {reference : ExtentReference} (state : StagingAllocator)
    (full : (progress.working ++ more).length = L.blobChunkBytes)
    (kept : ∀ reference ∈ progress.prepared, BlocksKept L progress.file later reference)
    (stands : ChunkStands session later id (staged + progress.prepared.length)
      (progress.working ++ more) reference) :
    Working session id staged (content ++ more)
      { staging := state, file := later, working := [],
        prepared := progress.prepared ++ [reference] } := by
  have whole := working.whole
  have chunk := working.chunk full
  have length := congrArg List.length working.working
  rw [List.length_append] at full
  rw [List.length_drop] at length
  have next : (staged + (progress.prepared ++ [reference]).length) * L.blobChunkBytes =
      (staged + progress.prepared.length) * L.blobChunkBytes + L.blobChunkBytes := by
    rw [List.length_append, List.length_singleton]
    ring
  refine ⟨?_, ?_, L.chunk_pos, fun index other found => ?_⟩
  · refine next.le.trans ?_
    rw [List.length_append]
    omega
  · symm
    rw [List.drop_eq_nil_iff]
    refine le_trans ?_ next.ge
    rw [List.length_append]
    omega
  · dsimp only at found ⊢
    by_cases earlier : index < progress.prepared.length
    · rw [List.getElem?_append_left earlier] at found
      rw [chunkOf_append]
      · exact (working.stands index other found).kept (kept other (List.mem_of_getElem? found))
      · refine le_trans (Nat.mul_le_mul_right _ ?_) whole
        omega
    · rw [List.getElem?_append_right (not_lt.1 earlier)] at found
      obtain ⟨last, isReference⟩ := List.getElem?_eq_some_iff.1 found
      rw [List.length_singleton] at last
      obtain rfl : index = progress.prepared.length := by omega
      simp only [Nat.sub_self, List.getElem_singleton] at isReference
      rw [← isReference, ← chunk]
      exact stands

/-- A staged chunk, in the books and in the file. -/
structure ChunkStaging (session : BlobSession L) (readers : List Nat) (held : List ExtentReference)
    (file : Bytes) (id : BlobId) (ordinal : Nat) (decoded : Bytes)
    (stage : BlobSession.ChunkStage) : Prop
    extends StagedChunk session held file id ordinal decoded stage.file stage.result.outcome where
  books : StageResult.Keeps session.space readers held stage.result
  tail : StagingTail L stage.result.state
  intact : ∀ reference ∈ held, BlocksKept L file stage.file reference

theorem chunk_staging {state : StagingAllocator} {file decoded : Bytes}
    (inv : StagingInv session.space readers state held) (tail : StagingTail L state)
    (small : file.length ≤ maxFileOffset) (committed : session.space.highWaterBlocks ≤ L.fileBlocks)
    (inside : ∀ reference ∈ held, InFile L file reference) (id : BlobId) (ordinal : Nat)
    (short : decoded.length ≤ L.blobChunkBytes) (environment : StageEnvironment) :
    ChunkStaging session readers held file id ordinal decoded
      (session.stageChunk readers state file id ordinal decoded environment) := by
  refine ⟨stageChunk_staged inv small environment, ?_, ?_, fun reference member => ?_⟩
  · exact stageBlobChunk_keeps inv file.length _
  · exact stageChunk_tail tail inv committed
      (fun reference member => (inside reference member).fileBlocks small) short environment
  · exact (stageChunk_staged inv small environment).kept reference member (inside reference member)

theorem streamLoop_keeps (environment : Nat → StageEnvironment) (turns : Nat)
    (committed : session.space.highWaterBlocks ≤ L.fileBlocks)
    (keeps : StagingKeeps session readers held progress.file progress)
    (inside : ∀ reference ∈ held, InFile L progress.file reference)
    (working : Working session id staged content progress) (fresh : progress.failure = none)
    (enough : source.length ≤ turns) :
    StagingKeeps session readers held progress.file
        (streamLoop session readers id staged environment turns progress source) ∧
      ((streamLoop session readers id staged environment turns progress source).failure = none →
        Working session id staged (content ++ source)
          (streamLoop session readers id staged environment turns progress source)) := by
  induction turns generalizing progress content source with
  | zero =>
    obtain rfl : source = [] := List.length_eq_zero_iff.1 (by omega)
    rw [List.append_nil]
    exact ⟨keeps, fun _ => working⟩
  | succ turns ih =>
    rw [streamLoop]
    by_cases done : source = []
    · rw [if_pos done, done, List.append_nil]
      exact ⟨keeps, fun _ => working⟩
    · rw [if_neg done]
      have room := working.short
      generalize isCount : min (L.blobChunkBytes - progress.working.length) source.length = count
      have taken : (source.take count).length = count := by
        rw [List.length_take]
        omega
      have rest : (source.drop count).length ≤ turns := by
        rw [List.length_drop]
        omega
      have parts : content ++ source = content ++ source.take count ++ source.drop count := by
        rw [List.append_assoc, List.take_append_drop]
      rw [parts]
      by_cases full : (progress.working ++ source.take count).length = L.blobChunkBytes
      · simp only [if_pos full]
        have allInside : ∀ reference ∈ progress.prepared ++ held,
            InFile L progress.file reference := by
          intro reference member
          rcases List.mem_append.1 member with isPrepared | isHeld
          · obtain ⟨index, found⟩ := List.getElem?_of_mem isPrepared
            exact (working.stands index reference found).inside
          · exact inside reference isHeld
        have staging := chunk_staging keeps.inv keeps.tail keeps.small committed allInside id
          (staged + progress.prepared.length) full.le (environment progress.prepared.length)
        generalize session.stageChunk readers progress.staging progress.file id _ _ _ = stage
          at staging ⊢
        have books := staging.books
        unfold StageResult.Keeps at books
        cases outcome : stage.result.outcome with
        | error error =>
          rw [outcome] at books
          refine ⟨⟨books, staging.tail, staging.representable, staging.grown, ?_⟩, fun failed => ?_⟩
          · exact fun reference member => staging.intact reference (List.mem_append_right _ member)
          · cases failed
        | ok reference =>
          rw [outcome] at books
          have next : StagingKeeps session readers held stage.file
              { staging := stage.result.state, file := stage.file, working := [],
                prepared := progress.prepared ++ [reference] } := by
            refine ⟨books.perm ?_, staging.tail, staging.representable, Nat.le_refl _, fun _ _ => rfl⟩
            rw [List.append_assoc]
            exact List.perm_middle
          have pushed := working.push stage.result.state full
            (fun other member => staging.intact other (List.mem_append_left _ member))
            (staging.stands reference outcome)
          obtain ⟨loop, done⟩ := ih next
            (fun other member => (inside other member).trans staging.grown) pushed rfl rest
          refine ⟨⟨loop.inv, loop.tail, loop.small, staging.grown.trans loop.grown, ?_⟩, done⟩
          intro other member
          exact (loop.kept other member).trans (staging.intact other (List.mem_append_right _ member))
      · simp only [if_neg full]
        have short : (progress.working ++ source.take count).length < L.blobChunkBytes := by
          rw [List.length_append, taken] at full ⊢
          omega
        have next : StagingKeeps session readers held progress.file
            { progress with working := progress.working ++ source.take count } :=
          ⟨keeps.inv, keeps.tail, keeps.small, keeps.grown, keeps.kept⟩
        exact @ih _ _ { progress with working := progress.working ++ source.take count } next inside
          (working.append short) fresh rest

end Loop

end Miare
