import Miare.Blob.Proofs.NextBlock
import Miare.Blob.Proofs.Reader

/-!
# The books of a stream transaction

A transaction that moves bytes keeps the books of a `BlobTransaction` whose environment chose the
bytes that were sealed.
-/

namespace Miare

open Misc

variable {L : Limits}

namespace BlobTransaction

/-- The loop looks at the inputs from the number of its prepared chunks on. -/
theorem writeLoop_congr {space : CommittedSpace L} {readers : List Nat}
    {input other : Nat → StageInput} {turns : Nat} {progress : WriteProgress} {source : Bytes}
    (agree : ∀ index, progress.prepared.length ≤ index → input index = other index) :
    writeLoop space readers input turns progress source =
      writeLoop space readers other turns progress source := by
  induction turns generalizing progress source with
  | zero => rfl
  | succ turns ih =>
    simp only [writeLoop]
    split
    · rfl
    · split
      · rw [agree _ (Nat.le_refl _)]
        split
        · apply ih
          intro index behind
          apply agree
          rw [List.length_append] at behind
          omega
        · rfl
      · exact ih agree

end BlobTransaction

/-- The loop keeps the books of a `writeLoop` with the inputs it computes. -/
theorem streamLoop_books (session : BlobSession L) (readers : List Nat) (id : BlobId) (staged : Nat)
    (environment : Nat → StageEnvironment) (turns : Nat) (progress : StreamProgress)
    (source : Bytes) :
    ∃ input, BlobTransaction.writeLoop session.space readers input turns progress.books source =
      (streamLoop session readers id staged environment turns progress source).books := by
  induction turns generalizing progress source with
  | zero => exact ⟨fun _ => ⟨0, fun _ => 0, none⟩, rfl⟩
  | succ turns ih =>
    simp only [streamLoop]
    by_cases done : source = []
    · rw [if_pos done]
      refine ⟨fun _ => ⟨0, fun _ => 0, none⟩, ?_⟩
      rw [BlobTransaction.writeLoop, if_pos done]
    · rw [if_neg done]
      generalize isCount : min (L.blobChunkBytes - progress.working.length) source.length = count
      by_cases full : (progress.working ++ source.take count).length = L.blobChunkBytes
      · rw [if_pos full]
        generalize isStage : session.stageChunk readers progress.staging progress.file id _ _ _ =
          stage
        have sized := stage.sized
        have isResult : stageBlobChunk session.space readers progress.staging progress.file.length
            (session.chunkInput readers progress.staging id (staged + progress.prepared.length)
              (progress.working ++ source.take count) (environment progress.prepared.length)) =
            stage.result := by
          rw [← isStage]
          rfl
        generalize session.chunkInput readers progress.staging id _ _ _ = here at isResult
        cases outcome : stage.result.outcome with
        | ok reference =>
          obtain ⟨input, rest⟩ := ih
            { staging := stage.result.state, file := stage.file, working := [],
              prepared := progress.prepared ++ [reference] } (source.drop count)
          refine ⟨fun index => if index = progress.prepared.length then here else input index, ?_⟩
          rw [← rest, BlobTransaction.writeLoop, if_neg done]
          simp only [StreamProgress.books, isCount, if_pos full, if_true, isResult, outcome, sized]
          apply BlobTransaction.writeLoop_congr
          intro index behind
          rw [List.length_append, List.length_singleton] at behind
          rw [if_neg (by omega)]
        | error error =>
          refine ⟨fun _ => here, ?_⟩
          rw [BlobTransaction.writeLoop, if_neg done]
          simp only [StreamProgress.books, isCount, if_pos full, isResult, outcome, sized]
      · rw [if_neg full]
        obtain ⟨input, rest⟩ := ih { progress with working := progress.working ++ source.take count }
          (source.drop count)
        refine ⟨input, ?_⟩
        rw [← rest, BlobTransaction.writeLoop, if_neg done]
        simp only [StreamProgress.books, isCount, if_neg full]

namespace StreamTransaction

variable {stream : StreamTransaction}

theorem withBooks_tx {tx : BlobTransaction} (same : tx.fileBytes = stream.tx.fileBytes) :
    (stream.withBooks tx).tx = tx := by
  have length : stream.file.length = tx.fileBytes := by rw [← stream.sized, same]
  change { tx with fileBytes := stream.file.length } = tx
  rw [length]

theorem createBlob_fileBytes (tx : BlobTransaction) (candidate : Option BlobId) :
    (tx.createBlob L candidate).fileBytes = tx.fileBytes := by
  unfold BlobTransaction.createBlob
  split
  · rfl
  · split <;> rfl

theorem replaceBlob_fileBytes (tx : BlobTransaction) (id : BlobId) :
    (tx.replaceBlob L id).fileBytes = tx.fileBytes := by
  unfold BlobTransaction.replaceBlob
  split
  · rfl
  · split
    · rfl
    · split <;> rfl

theorem eraseBlob_fileBytes (tx : BlobTransaction) (id : BlobId) :
    (tx.eraseBlob L id).fileBytes = tx.fileBytes := by
  unfold BlobTransaction.eraseBlob
  split
  · rfl
  · split
    · rfl
    · split <;> rfl

theorem abort_fileBytes (tx : BlobTransaction) (id : BlobId) :
    (tx.abort id).fileBytes = tx.fileBytes := by
  unfold BlobTransaction.abort
  split <;> rfl

theorem deactivate_fileBytes (tx : BlobTransaction) (error : StageError) :
    (tx.deactivate error).fileBytes = tx.fileBytes := by
  unfold BlobTransaction.deactivate
  split <;> rfl

/-- `write` keeps the books of a `BlobTransaction.write`, or throws before it changes anything. -/
theorem write_books (session : BlobSession L) (id : BlobId) (source : Bytes)
    (environment : Nat → StageEnvironment) (exhausted : Bool) :
    (stream.write session id source environment exhausted).2 = stream ∨
      ∃ input, (stream.write session id source environment exhausted).2.tx =
        stream.tx.write session.space id source input := by
  unfold write
  split
  · exact .inl rfl
  · next writer lookup =>
    split
    · exact .inl rfl
    · next admitted =>
      right
      obtain ⟨input, loop⟩ := streamLoop_books session stream.tx.readers id
        writer.stagedChunks.length environment source.length
        { staging := stream.tx.staging, file := stream.file, working := writer.buffer,
          prepared := [] } source
      refine ⟨input, ?_⟩
      simp only [StreamProgress.books, ← stream.sized] at loop
      simp only [BlobTransaction.write, lookup, loop]
      rw [if_neg fun refused => admitted (by tauto)]
      have isId : writer.id = id := by simpa using List.find?_some lookup
      generalize streamLoop session stream.tx.readers id writer.stagedChunks.length environment
        source.length _ source = progress
      unfold settleWrite
      rw [isId]
      cases progress.failure with
      | none => rfl
      | some error =>
        simp only [BlobTransaction.deactivate]
        split <;> rfl

/-- `finish` keeps the books of a `BlobTransaction.finish`. -/
theorem finish_books (session : BlobSession L) (id : BlobId) (environment : StageEnvironment)
    (exhausted : Bool) :
    ∃ input, (stream.finish session id environment exhausted).2.tx =
      stream.tx.finish session.space id input exhausted := by
  unfold finish BlobTransaction.finish
  cases lookup : stream.tx.writer id with
  | none => exact ⟨⟨0, fun _ => 0, none⟩, rfl⟩
  | some writer =>
    by_cases empty : writer.buffer = []
    · refine ⟨⟨0, fun _ => 0, none⟩, ?_⟩
      simp only [empty, if_true]
      split
      · rfl
      · exact withBooks_tx rfl
    · refine ⟨session.chunkInput stream.tx.readers stream.tx.staging id writer.stagedChunks.length
        writer.buffer environment, ?_⟩
      have isResult : stageBlobChunk session.space stream.tx.readers stream.tx.staging
          stream.tx.fileBytes (session.chunkInput stream.tx.readers stream.tx.staging id
            writer.stagedChunks.length writer.buffer environment) =
          (session.stageChunk stream.tx.readers stream.tx.staging stream.file id
            writer.stagedChunks.length writer.buffer environment).result := by
        rw [stream.sized]
        rfl
      simp only [empty, if_false, isResult]
      generalize session.stageChunk stream.tx.readers stream.tx.staging stream.file id _ _ _ = stage
      unfold settleFinish
      cases stage.result.outcome with
      | error error => exact withBooks_tx (deactivate_fileBytes _ _)
      | ok finalChunk =>
        cases exhausted with
        | true => exact withBooks_tx rfl
        | false => exact withBooks_tx rfl

/-- One call keeps the books of a Blob operation, or changes nothing. -/
theorem perform_books (session : BlobSession L) (stream : StreamTransaction) (op : StreamOp) :
    (stream.perform session op).2.tx = stream.tx ∨
      ∃ blobOp, (stream.perform session op).2.tx = stream.tx.perform session.space blobOp := by
  by_cases active : stream.tx.active = true
  case neg =>
    cases op with
    | beginRead => exact .inr ⟨.beginRead, withBooks_tx rfl⟩
    | endRead generation => exact .inr ⟨.endRead generation, withBooks_tx rfl⟩
    | _ => exact .inl (by simp only [perform, if_neg active])
  case pos =>
    cases op with
    | beginRead => exact .inr ⟨.beginRead, withBooks_tx rfl⟩
    | endRead generation => exact .inr ⟨.endRead generation, withBooks_tx rfl⟩
    | createBlob candidate =>
      refine .inr ⟨.createBlob candidate, ?_⟩
      simp only [perform, BlobTransaction.perform, if_pos active]
      exact withBooks_tx (createBlob_fileBytes _ _)
    | replaceBlob id =>
      refine .inr ⟨.replaceBlob id, ?_⟩
      simp only [perform, BlobTransaction.perform, if_pos active]
      exact withBooks_tx (replaceBlob_fileBytes _ _)
    | eraseBlob id =>
      refine .inr ⟨.eraseBlob id, ?_⟩
      simp only [perform, BlobTransaction.perform, if_pos active]
      exact withBooks_tx (eraseBlob_fileBytes _ _)
    | write id source environment exhausted =>
      rw [perform, if_pos active]
      rcases write_books session id source environment exhausted with same | ⟨input, books⟩
      · exact .inl (congrArg StreamTransaction.tx same)
      · refine .inr ⟨.write id source input, ?_⟩
        rw [books, BlobTransaction.perform, if_pos active]
    | finish id environment exhausted =>
      rw [perform, if_pos active]
      obtain ⟨input, books⟩ := finish_books session id environment exhausted
      refine .inr ⟨.finish id input exhausted, ?_⟩
      rw [books, BlobTransaction.perform, if_pos active]
    | abort id =>
      refine .inr ⟨.abort id, ?_⟩
      simp only [perform, BlobTransaction.perform, if_pos active]
      exact withBooks_tx (abort_fileBytes _ _)

theorem perform_inv {session : BlobSession L} (inv : stream.tx.Inv session.space) (op : StreamOp) :
    (stream.perform session op).2.tx.Inv session.space := by
  rcases perform_books session stream op with same | ⟨blobOp, books⟩
  · rw [same]
    exact inv
  · rw [books]
    exact BlobTransaction.perform_inv inv blobOp

/-- The same for what is known of the readers at the initialisation. -/
theorem perform_invFor {session : BlobSession L} {initial : List Nat → Prop}
    (inv : stream.tx.InvFor session.space initial)
    (now : stream.tx.staging.allocatorInitialized = false → initial stream.tx.readers)
    (op : StreamOp) : (stream.perform session op).2.tx.InvFor session.space initial := by
  rcases perform_books session stream op with same | ⟨blobOp, books⟩
  · rw [same]
    exact inv
  · rw [books]
    exact BlobTransaction.perform_invFor inv now blobOp

end StreamTransaction

end Miare
