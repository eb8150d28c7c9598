import Miare.Blob.Proofs.Stream

/-!
# Runs of Blob streams

One call keeps what every open handle holds, and the blocks of every version that was finished
before it; so does a run of calls.
-/

namespace Miare

open Misc

variable {L : Limits} {session : BlobSession L}

/-! ## States -/

/-- A handle that holds a content, in its chunks and in its buffer. -/
structure WriterStream (session : BlobSession L) (file : Bytes) (writer : BlobWriter)
    (content : Bytes) : Prop where
  position : writer.position = content.length
  limit : content.length ≤ L.maxBlobBytes
  whole : writer.stagedChunks.length * L.blobChunkBytes ≤ content.length
  buffer : writer.buffer = content.drop (writer.stagedChunks.length * L.blobChunkBytes)
  short : writer.buffer.length < L.blobChunkBytes
  stands : ∀ index reference, writer.stagedChunks[index]? = some reference →
    ChunkStands session file writer.id index (chunkOf L content index) reference

theorem WriterStream.kept {file later content : Bytes} {writer : BlobWriter}
    (holds : WriterStream session file writer content)
    (kept : ∀ reference ∈ writer.stagedChunks, BlocksKept L file later reference) :
    WriterStream session later writer content :=
  ⟨holds.position, holds.limit, holds.whole, holds.buffer, holds.short,
    fun index reference found =>
      (holds.stands index reference found).kept (kept reference (List.mem_of_getElem? found))⟩

theorem WriterStream.fresh (file : Bytes) (id : BlobId) :
    WriterStream session file { id } [] := by
  refine ⟨rfl, Nat.zero_le _, ?_, ?_, L.chunk_pos, fun index reference found => ?_⟩
  · simp
  · simp
  · simp at found

/-- The chunks of finished versions, also of those that were replaced or erased since. -/
def BlobTransaction.finishedChunks (tx : BlobTransaction) : List ExtentReference :=
  pendingChunks tx.blobs ++ tx.discardedStagedReferences

theorem BlobTransaction.mem_held {tx : BlobTransaction} {reference : ExtentReference} :
    reference ∈ tx.held ↔
      (∃ writer ∈ tx.writers, reference ∈ writer.stagedChunks) ∨ reference ∈ tx.finishedChunks := by
  rw [BlobTransaction.held, BlobTransaction.finishedChunks, List.mem_append, List.mem_flatMap]

/-- What holds of a transaction behind the calls of `history`. -/
structure StreamInv (session : BlobSession L) (stream : StreamTransaction)
    (history : List (StreamOp × Bool)) : Prop where
  books : stream.tx.Inv session.space
  tail : StagingTail L stream.tx.staging
  small : stream.file.length ≤ maxFileOffset
  inside : ∀ reference ∈ stream.tx.held, InFile L stream.file reference
  writers : ∀ writer ∈ stream.tx.writers,
    WriterStream session stream.file writer (accepted writer.id history)

/-- What a call leaves of the chunks that are held when it is made. -/
structure StreamStep (L : Limits) (stream next : StreamTransaction) : Prop where
  grown : stream.file.length ≤ next.file.length
  kept : ∀ reference ∈ stream.tx.held, BlocksKept L stream.file next.file reference
  finished : ∀ reference ∈ stream.tx.finishedChunks, reference ∈ next.tx.finishedChunks

theorem StreamStep.refl (stream : StreamTransaction) : StreamStep L stream stream :=
  ⟨Nat.le_refl _, fun _ _ => rfl, fun _ member => member⟩

theorem withBooks_self (stream : StreamTransaction) : stream.withBooks stream.tx = stream := by
  obtain ⟨tx, file, sized⟩ := stream
  simp only [StreamTransaction.withBooks, StreamTransaction.mk.injEq, and_true]
  rw [← sized]

section Calls

variable {stream : StreamTransaction} {history : List (StreamOp × Bool)}

/-- A call that throws before it does anything. -/
theorem StreamInv.refused (inv : StreamInv session stream history) (op : StreamOp) :
    StreamInv session stream (history ++ [(op, false)]) ∧ StreamStep L stream stream := by
  refine ⟨⟨inv.books, inv.tail, inv.small, inv.inside, fun writer member => ?_⟩,
    StreamStep.refl stream⟩
  have unchanged (content : Bytes) : acceptStep writer.id content (op, false) = content := by
    unfold acceptStep
    split <;> simp_all
  rw [accepted_append, unchanged]
  exact inv.writers writer member

/-- A call that changes the books only. -/
theorem StreamInv.sameFile (inv : StreamInv session stream history) {tx : BlobTransaction}
    {history' : List (StreamOp × Bool)} (books : tx.Inv session.space)
    (tail : StagingTail L tx.staging) (held : ∀ reference ∈ tx.held, reference ∈ stream.tx.held)
    (finished : ∀ reference ∈ stream.tx.finishedChunks, reference ∈ tx.finishedChunks)
    (writers : ∀ writer ∈ tx.writers,
      writer ∈ stream.tx.writers ∧ accepted writer.id history' = accepted writer.id history ∨
        writer = { id := writer.id } ∧ accepted writer.id history' = []) :
    StreamInv session (stream.withBooks tx) history' ∧
      StreamStep L stream (stream.withBooks tx) := by
  refine ⟨⟨⟨books.books, books.writerIds, books.known⟩, tail, inv.small,
    fun reference member => inv.inside reference (held reference member),
    fun writer member => ?_⟩, Nat.le_refl _, fun _ _ => rfl, finished⟩
  rcases writers writer member with ⟨present, same⟩ | ⟨isFresh, nothing⟩
  · rw [same]
    exact inv.writers writer present
  · rw [nothing, isFresh]
    exact WriterStream.fresh _ _

/-- A handle is opened. -/
theorem StreamInv.opened (inv : StreamInv session stream history) {id : BlobId} {op : StreamOp}
    {generatedIds : List BlobId}
    (books : ({ stream.tx.openWriter id with generatedIds } : BlobTransaction).Inv session.space)
    (accepts : ∀ other content,
      acceptStep other content (op, true) = if id = other then [] else content) :
    StreamInv session (stream.withBooks { stream.tx.openWriter id with generatedIds })
        (history ++ [(op, true)]) ∧
      StreamStep L stream (stream.withBooks { stream.tx.openWriter id with generatedIds }) := by
  refine inv.sameFile books inv.tail (fun reference member => ?_) (fun _ member => member)
    fun writer member => ?_
  · simpa [BlobTransaction.held, BlobTransaction.openWriter] using member
  · rw [accepted_append, accepts]
    rcases List.mem_cons.1 member with rfl | present
    · exact .inr ⟨rfl, if_pos rfl⟩
    · refine .inl ⟨present, if_neg fun same => ?_⟩
      refine (List.nodup_cons.1 books.writerIds).1 ?_
      exact List.mem_map.2 ⟨writer, present, same.symm⟩

theorem createBlob_cases (L : Limits) (tx : BlobTransaction) (candidate : Option BlobId) :
    tx.createBlob L candidate = tx ∨ ∃ id, candidate = some id ∧
      tx.createBlob L candidate =
        { tx.openWriter id with generatedIds := id :: tx.generatedIds } := by
  unfold BlobTransaction.createBlob
  split
  · exact .inl rfl
  · next id =>
    split
    · exact .inr ⟨id, rfl, rfl⟩
    · exact .inl rfl

theorem replaceBlob_cases (L : Limits) (tx : BlobTransaction) (id : BlobId) :
    tx.replaceBlob L id = tx ∨ tx.replaceBlob L id = tx.openWriter id := by
  unfold BlobTransaction.replaceBlob
  split
  · exact .inl rfl
  · split
    · exact .inl rfl
    · split
      · exact .inr rfl
      · exact .inl rfl

theorem createBlob_step (inv : StreamInv session stream history) (candidate : Option BlobId) :
    StreamInv session (stream.withBooks (stream.tx.createBlob L candidate))
        (history ++ [(.createBlob candidate,
          decide (stream.tx.writers.length < (stream.tx.createBlob L candidate).writers.length))]) ∧
      StreamStep L stream (stream.withBooks (stream.tx.createBlob L candidate)) := by
  have books := BlobTransaction.createBlob_inv (L := L) inv.books candidate
  rcases createBlob_cases L stream.tx candidate with same | ⟨id, rfl, opens⟩
  · rw [same, withBooks_self, decide_eq_false (Nat.lt_irrefl _)]
    exact inv.refused _
  · have opened : decide (stream.tx.writers.length <
        (stream.tx.createBlob L (some id)).writers.length) = true := by
      rw [opens]
      exact decide_eq_true (Nat.lt_succ_self _)
    rw [opened, opens]
    rw [opens] at books
    exact inv.opened books fun other content => rfl

theorem replaceBlob_step (inv : StreamInv session stream history) (id : BlobId) :
    StreamInv session (stream.withBooks (stream.tx.replaceBlob L id))
        (history ++ [(.replaceBlob id,
          decide (stream.tx.writers.length < (stream.tx.replaceBlob L id).writers.length))]) ∧
      StreamStep L stream (stream.withBooks (stream.tx.replaceBlob L id)) := by
  have books := BlobTransaction.replaceBlob_inv (L := L) inv.books id
  rcases replaceBlob_cases L stream.tx id with same | opens
  · rw [same, withBooks_self, decide_eq_false (Nat.lt_irrefl _)]
    exact inv.refused _
  · have opened : decide (stream.tx.writers.length < (stream.tx.replaceBlob L id).writers.length) =
        true := by
      rw [opens]
      exact decide_eq_true (Nat.lt_succ_self _)
    rw [opened, opens]
    rw [opens] at books
    exact @StreamInv.opened _ _ _ _ inv id _ stream.tx.generatedIds books fun other content => rfl

/-- An erased version moves to the discarded ones. -/
theorem eraseBlob_step (inv : StreamInv session stream history) (id : BlobId) :
    StreamInv session (stream.withBooks (stream.tx.eraseBlob L id))
        (history ++ [(.eraseBlob id, true)]) ∧
      StreamStep L stream (stream.withBooks (stream.tx.eraseBlob L id)) := by
  have books := BlobTransaction.eraseBlob_inv (L := L) inv.books id
  have unchanged (other : BlobId) :
      accepted other (history ++ [(.eraseBlob id, true)]) = accepted other history :=
    accepted_append other history _
  have cases : (stream.tx.eraseBlob L id).staging = stream.tx.staging ∧
      (stream.tx.eraseBlob L id).writers = stream.tx.writers ∧
      ∀ reference, reference ∈ (stream.tx.eraseBlob L id).finishedChunks ↔
        reference ∈ stream.tx.finishedChunks := by
    unfold BlobTransaction.eraseBlob
    split
    · exact ⟨rfl, rfl, fun _ => Iff.rfl⟩
    · split
      · exact ⟨rfl, rfl, fun _ => Iff.rfl⟩
      · next version found =>
        split
        · exact ⟨rfl, rfl, fun _ => Iff.rfl⟩
        · refine ⟨rfl, rfl, fun reference => ?_⟩
          have left := (Keyed.perm_of_find found).flatMap_right BlobVersion.pendingChunks
          have moved := left.mem_iff (a := reference)
          simp only [List.flatMap_cons, List.mem_append] at moved
          simp only [BlobTransaction.finishedChunks, pendingChunks, List.mem_append, moved]
          tauto
  obtain ⟨sameStaging, sameWriters, sameFinished⟩ := cases
  refine inv.sameFile books ?_ (fun reference member => ?_)
    (fun reference => (sameFinished reference).2) fun writer member => ?_
  · rw [sameStaging]
    exact inv.tail
  · rw [BlobTransaction.mem_held, sameWriters, sameFinished] at member
    exact BlobTransaction.mem_held.2 member
  · rw [sameWriters] at member
    exact .inl ⟨member, unchanged writer.id⟩

theorem abort_step (inv : StreamInv session stream history) (id : BlobId) :
    StreamInv session (stream.withBooks (stream.tx.abort id)) (history ++ [(.abort id, true)]) ∧
      StreamStep L stream (stream.withBooks (stream.tx.abort id)) := by
  have books := BlobTransaction.abort_inv (L := L) inv.books id
  have unchanged (other : BlobId) :
      accepted other (history ++ [(.abort id, true)]) = accepted other history :=
    accepted_append other history _
  unfold BlobTransaction.abort at books ⊢
  split at books
  · refine inv.sameFile books inv.tail (fun _ member => member) (fun _ member => member)
      fun writer member => ?_
    exact .inl ⟨member, unchanged writer.id⟩
  · next writer lookup =>
    refine inv.sameFile books (inv.tail.releases _) (fun reference member => ?_)
      (fun _ member => member) fun other member => ?_
    · rw [BlobTransaction.mem_held] at member ⊢
      refine member.imp_left ?_
      rintro ⟨other, present, owned⟩
      exact ⟨other, (List.mem_filter.1 present).1, owned⟩
    · exact .inl ⟨(List.mem_filter.1 member).1, unchanged other.id⟩

theorem deactivate_eq (tx : BlobTransaction) (error : StageError) :
    ∃ active, tx.deactivate error = { tx with active } := by
  unfold BlobTransaction.deactivate
  split
  · exact ⟨false, rfl⟩
  · exact ⟨tx.active, rfl⟩

/-- Other handles are not touched by what is written to `id`. -/
theorem StreamInv.others (inv : StreamInv session stream history) {file : Bytes}
    (kept : ∀ reference ∈ stream.tx.held, BlocksKept L stream.file file reference)
    {writer : BlobWriter} (present : writer ∈ stream.tx.writers) :
    WriterStream session file writer (accepted writer.id history) :=
  (inv.writers writer present).kept fun reference owned =>
    kept reference (BlobTransaction.mem_held.2 (.inl ⟨writer, present, owned⟩))

/-- The handle behind a write that returns. -/
theorem WriterStream.append {file later content source : Bytes} {writer : BlobWriter}
    {progress : StreamProgress} (holds : WriterStream session file writer content)
    (room : content.length + source.length ≤ L.maxBlobBytes)
    (kept : ∀ reference ∈ writer.stagedChunks, BlocksKept L file later reference)
    (isFile : progress.file = later)
    (working : Working session writer.id writer.stagedChunks.length (content ++ source) progress) :
    WriterStream session later
      { writer with
        buffer := progress.working
        stagedChunks := writer.stagedChunks ++ progress.prepared
        position := writer.position + source.length } (content ++ source) := by
  subst isFile
  refine ⟨?_, ?_, ?_, ?_, working.short, fun index reference found => ?_⟩
  · rw [List.length_append, holds.position]
  · rw [List.length_append]
    exact room
  · rw [List.length_append]
    exact working.whole
  · dsimp only
    rw [List.length_append]
    exact working.working
  · dsimp only at found ⊢
    by_cases earlier : index < writer.stagedChunks.length
    · rw [List.getElem?_append_left earlier] at found
      rw [chunkOf_append]
      · exact (holds.stands index reference found).kept
          (kept reference (List.mem_of_getElem? found))
      · exact le_trans (Nat.mul_le_mul_right _ earlier) holds.whole
    · rw [List.getElem?_append_right (not_lt.1 earlier)] at found
      have stands := working.stands _ reference found
      rw [Nat.add_sub_cancel' (not_lt.1 earlier)] at stands
      exact stands

/-- Whether the loop fails or not, `write` leaves a good transaction. -/
theorem settleWrite_step (inv : StreamInv session stream history) {id : BlobId}
    {writer : BlobWriter} {source : Bytes} {progress : StreamProgress}
    (lookup : stream.tx.writer id = some writer)
    (room : source.length ≤ L.maxBlobBytes - writer.position)
    (keeps : StagingKeeps session stream.tx.readers stream.tx.held stream.file progress)
    (done : progress.failure = none →
      Working session id writer.stagedChunks.length (accepted id history ++ source) progress)
    (books : (stream.settleWrite writer source progress).2.tx.Inv session.space)
    (environment : Nat → StageEnvironment) (exhausted : Bool) :
    StreamInv session (stream.settleWrite writer source progress).2
        (history ++ [(.write id source environment exhausted,
          (stream.settleWrite writer source progress).1)]) ∧
      StreamStep L stream (stream.settleWrite writer source progress).2 := by
  obtain ⟨isId, -⟩ := BlobTransaction.perm_of_writer inv.books.writerIds lookup
  have present : writer ∈ stream.tx.writers := List.mem_of_find?_eq_some lookup
  have holds := inv.writers writer present
  have inFile : ∀ reference ∈ stream.tx.held, InFile L progress.file reference :=
    fun reference member => (inv.inside reference member).trans keeps.grown
  unfold StreamTransaction.settleWrite at books ⊢
  cases failed : progress.failure with
  | none =>
    simp only [failed] at books ⊢
    have working := done failed
    refine ⟨⟨books, keeps.tail, keeps.small, fun reference member => ?_, fun other member => ?_⟩,
      keeps.grown, keeps.kept, fun _ finished => finished⟩
    · rcases BlobTransaction.mem_held.1 member with ⟨other, among, owned⟩ | finished
      · rcases List.mem_cons.1 among with rfl | among
        · rcases List.mem_append.1 owned with earlier | prepared
          · exact inFile reference (BlobTransaction.mem_held.2 (.inl ⟨writer, present, earlier⟩))
          · obtain ⟨index, found⟩ := List.getElem?_of_mem prepared
            exact (working.stands index reference found).inside
        · exact inFile reference
            (BlobTransaction.mem_held.2 (.inl ⟨other, (List.mem_filter.1 among).1, owned⟩))
      · exact inFile reference (BlobTransaction.mem_held.2 (.inr finished))
    · rw [accepted_append]
      rcases List.mem_cons.1 member with rfl | among
      · have content : acceptStep writer.id (accepted writer.id history)
            (.write id source environment exhausted, true) = accepted writer.id history ++ source :=
          if_pos isId.symm
        rw [content]
        rw [← isId] at working
        have position := holds.position
        have limit := holds.limit
        refine holds.append (by omega) (fun reference owned => ?_) rfl working
        exact keeps.kept reference (BlobTransaction.mem_held.2 (.inl ⟨writer, present, owned⟩))
      · obtain ⟨among, differs⟩ := List.mem_filter.1 among
        have content : acceptStep other.id (accepted other.id history)
            (.write id source environment exhausted, true) = accepted other.id history := by
          refine if_neg fun same => ?_
          rw [isId, same] at differs
          simp at differs
        rw [content]
        exact inv.others keeps.kept among
  | some error =>
    simp only [failed] at books ⊢
    obtain ⟨active, isDeactivated⟩ := deactivate_eq stream.tx error
    rw [isDeactivated] at books ⊢
    refine ⟨⟨books, keeps.tail.releases _, keeps.small, inFile, fun other member => ?_⟩,
      keeps.grown, keeps.kept, fun _ finished => finished⟩
    rw [accepted_append]
    exact inv.others keeps.kept member

theorem write_step (inv : StreamInv session stream history)
    (committed : session.space.highWaterBlocks ≤ L.fileBlocks) (id : BlobId) (source : Bytes)
    (environment : Nat → StageEnvironment) (exhausted : Bool) :
    StreamInv session (stream.write session id source environment exhausted).2
        (history ++ [(.write id source environment exhausted,
          (stream.write session id source environment exhausted).1)]) ∧
      StreamStep L stream (stream.write session id source environment exhausted).2 := by
  have books : (stream.write session id source environment exhausted).2.tx.Inv session.space := by
    rcases @StreamTransaction.write_books _ stream session id source environment exhausted
      with same | ⟨input, same⟩
    · rw [same]
      exact inv.books
    · rw [same]
      exact BlobTransaction.write_inv inv.books id source input
  unfold StreamTransaction.write at books ⊢
  cases lookup : stream.tx.writer id with
  | none => exact inv.refused _
  | some writer =>
    simp only [lookup] at books ⊢
    split at books
    · next refused =>
      simp only [if_pos refused]
      exact inv.refused _
    · next admitted =>
      simp only [if_neg admitted]
      obtain ⟨isId, -⟩ := BlobTransaction.perm_of_writer inv.books.writerIds lookup
      have holds := inv.writers writer (List.mem_of_find?_eq_some lookup)
      rw [isId] at holds
      have start : Working session id writer.stagedChunks.length (accepted id history)
          { staging := stream.tx.staging, file := stream.file, working := writer.buffer,
            prepared := [] } :=
        ⟨holds.whole, holds.buffer, holds.short, fun index reference found => by simp at found⟩
      obtain ⟨keeps, done⟩ := @streamLoop_keeps _ session stream.tx.readers stream.tx.held _ _ _
        source { staging := stream.tx.staging, file := stream.file, working := writer.buffer,
                 prepared := [] } environment source.length committed
        ⟨inv.books.books, inv.tail, inv.small, Nat.le_refl _, fun _ _ => rfl⟩ inv.inside start rfl
        (Nat.le_refl _)
      exact settleWrite_step inv lookup (by omega) keeps done books environment exhausted

/-! ## Finished versions -/

/-- A finished version of a content whose chunks no operation can touch any more. -/
structure VersionStands (session : BlobSession L) (stream : StreamTransaction)
    (version : BlobVersion) (content : Bytes) : Prop where
  size : version.size = content.length
  limit : content.length ≤ L.maxBlobBytes
  count : ChunkCount L content version.chunks.length
  generation : version.generation = session.space.generation + 1
  pending : version.pending = true
  owned : ∀ reference ∈ version.chunks, reference ∈ stream.tx.finishedChunks
  stands : ∀ index reference, version.chunks[index]? = some reference →
    ChunkStands session stream.file version.id index (chunkOf L content index) reference
  reached : ∀ reference ∈ version.chunks,
    (reference.blockIndex + reference.blockCount) * L.allocationQuantumBytes ≤
      version.stagedHighWaterBytes
  representable : version.stagedHighWaterBytes < 2 ^ 64

theorem VersionStands.next {next : StreamTransaction} {version : BlobVersion} {content : Bytes}
    (stands : VersionStands session stream version content) (step : StreamStep L stream next) :
    VersionStands session next version content := by
  refine ⟨stands.size, stands.limit, stands.count, stands.generation, stands.pending,
    fun reference member => step.finished reference (stands.owned reference member),
    fun index reference found => ?_, stands.reached, stands.representable⟩
  refine (stands.stands index reference found).kept (step.kept reference ?_)
  exact BlobTransaction.mem_held.2 (.inr (stands.owned reference (List.mem_of_getElem? found)))

/-- The last chunk of a handle: none, or what is left in the buffer. -/
def FinalChunk (session : BlobSession L) (file : Bytes) (writer : BlobWriter)
    (finalChunk : List ExtentReference) : Prop :=
  (finalChunk = [] ∧ writer.buffer = []) ∨
    ∃ reference, finalChunk = [reference] ∧ writer.buffer ≠ [] ∧
      ChunkStands session file writer.id writer.stagedChunks.length writer.buffer reference

section Final

variable {file content : Bytes} {writer : BlobWriter} {finalChunk : List ExtentReference}

theorem WriterStream.count (holds : WriterStream session file writer content)
    (final : FinalChunk session file writer finalChunk) :
    ChunkCount L content (writer.stagedChunks ++ finalChunk).length := by
  have whole := holds.whole
  have short := holds.short
  have length := congrArg List.length holds.buffer
  rw [List.length_drop] at length
  rcases final with ⟨rfl, done⟩ | ⟨reference, rfl, left, -⟩
  · rw [done, List.length_nil] at length
    rw [List.append_nil]
    constructor <;> omega
  · have := List.length_pos_iff.2 left
    rw [List.length_append, List.length_singleton]
    constructor
    all_goals
      rw [Nat.add_mul]
      omega

theorem WriterStream.chunks (holds : WriterStream session file writer content)
    (final : FinalChunk session file writer finalChunk) {index : Nat} {reference : ExtentReference}
    (found : (writer.stagedChunks ++ finalChunk)[index]? = some reference) :
    ChunkStands session file writer.id index (chunkOf L content index) reference := by
  by_cases earlier : index < writer.stagedChunks.length
  · rw [List.getElem?_append_left earlier] at found
    exact holds.stands index reference found
  · rw [List.getElem?_append_right (not_lt.1 earlier)] at found
    rcases final with ⟨rfl, -⟩ | ⟨last, rfl, -, stands⟩
    · simp at found
    · obtain ⟨inside, isLast⟩ := List.getElem?_eq_some_iff.1 found
      rw [List.length_singleton] at inside
      obtain rfl : index = writer.stagedChunks.length := by omega
      simp only [Nat.sub_self, List.getElem_singleton] at isLast
      have whole : chunkOf L content writer.stagedChunks.length = writer.buffer := by
        rw [chunkOf, slice, ← holds.buffer]
        exact List.take_of_length_le holds.short.le
      rw [whole, ← isLast]
      exact stands

end Final

theorem install_finishedChunks (tx : BlobTransaction) (writer : BlobWriter) (generation : Nat)
    (finalChunk : List ExtentReference) (reference : ExtentReference) :
    reference ∈ (tx.install L writer generation finalChunk).finishedChunks ↔
      reference ∈ writer.stagedChunks ++ finalChunk ∨ reference ∈ tx.finishedChunks := by
  have catalog := (BlobTransaction.pendingChunks_insertOrAssign tx.blobs
    { id := writer.id, size := writer.position, generation,
      chunks := writer.stagedChunks ++ finalChunk,
      reachable := writer.stagedChunks ++ finalChunk,
      stagedHighWaterBytes := tx.staging.stagingNextBlock * L.allocationQuantumBytes,
      pending := true } rfl).mem_iff (a := reference)
  simp only [List.mem_append] at catalog
  simp only [BlobTransaction.finishedChunks, BlobTransaction.install, List.mem_append]
  tauto

/-- A version enters the catalog. -/
theorem install_step {id : BlobId} {writer : BlobWriter} {finalChunk : List ExtentReference}
    (tail : StagingTail L stream.tx.staging) (small : stream.file.length ≤ maxFileOffset)
    (inside : ∀ reference ∈ finalChunk ++ stream.tx.held, InFile L stream.file reference)
    (writers : ∀ writer ∈ stream.tx.writers,
      WriterStream session stream.file writer (accepted writer.id history))
    (lookup : stream.tx.writer id = some writer) (isId : writer.id = id)
    (final : FinalChunk session stream.file writer finalChunk)
    (books : (stream.tx.install L writer (session.space.generation + 1) finalChunk).Inv
      session.space) (environment : StageEnvironment) (exhausted : Bool) :
    StreamInv session
        (stream.withBooks (stream.tx.install L writer (session.space.generation + 1) finalChunk))
        (history ++ [(.finish id environment exhausted, true)]) ∧
      ∃ version, (stream.tx.install L writer (session.space.generation + 1)
            finalChunk).blobs.find id = some version ∧
        VersionStands session
          (stream.withBooks (stream.tx.install L writer (session.space.generation + 1) finalChunk))
          version (accepted id history) := by
  have present : writer ∈ stream.tx.writers := List.mem_of_find?_eq_some lookup
  have holds := writers writer present
  rw [isId] at holds
  refine ⟨⟨⟨books.books, books.writerIds, books.known⟩, ⟨tail.separated, tail.bounded⟩, small,
    fun reference member => ?_, fun other member => ?_⟩, ?_⟩
  · refine inside reference ?_
    rw [List.mem_append, BlobTransaction.mem_held]
    have owners := BlobTransaction.mem_held.1 member
    rcases owners with ⟨other, among, owned⟩ | finished
    · exact .inr (.inl ⟨other, (List.mem_filter.1 among).1, owned⟩)
    · rcases (install_finishedChunks _ _ _ _ reference).1 finished with new | old
      · rcases List.mem_append.1 new with staged | last
        · exact .inr (.inl ⟨writer, present, staged⟩)
        · exact .inl last
      · exact .inr (.inr old)
  · rw [accepted_append]
    exact writers other (List.mem_filter.1 member).1
  · refine ⟨_, (findKey_eq_some_iff (Keyed.increasing _)).2
      ⟨(mem_putEntry stream.tx.blobs.increasing).2 (.inl rfl), isId⟩, ?_⟩
    have finished : ∀ reference ∈ writer.stagedChunks ++ finalChunk,
        reference ∈ (stream.tx.install L writer (session.space.generation + 1)
          finalChunk).finishedChunks := fun reference member =>
      (install_finishedChunks _ _ _ _ reference).2 (.inl member)
    refine ⟨holds.position, holds.limit, holds.count final, rfl, rfl, finished,
      fun index reference found => holds.chunks final found, fun reference member => ?_,
      tail.representable⟩
    refine Nat.mul_le_mul_right _ ?_
    have isHeld := BlobTransaction.mem_held.2 (.inr (finished reference member))
    rcases books.books with ⟨-, -, nothing⟩ | ⟨initialReaders, -, booked⟩
    · rw [nothing] at isHeld
      cases isHeld
    · exact (booked.bounds session.behindCommon isHeld).2

/-- What `finish` leaves: if it returns, a version of all bytes that were accepted. -/
structure FinishStep (session : BlobSession L) (stream : StreamTransaction)
    (history : List (StreamOp × Bool)) (id : BlobId) (op : StreamOp)
    (result : Bool × StreamTransaction) : Prop where
  inv : StreamInv session result.2 (history ++ [(op, result.1)])
  step : StreamStep L stream result.2
  version : result.1 = true → ∃ version, result.2.tx.blobs.find id = some version ∧
    VersionStands session result.2 version (accepted id history)

/-- The staging of the last chunk and what `finish` makes of it. -/
theorem settleFinish_step (inv : StreamInv session stream history) {id : BlobId}
    {writer : BlobWriter} {stage : BlobSession.ChunkStage}
    (lookup : stream.tx.writer id = some writer) (left : writer.buffer ≠ [])
    (staging : ChunkStaging session stream.tx.readers stream.tx.held stream.file id
      writer.stagedChunks.length writer.buffer stage)
    (environment : StageEnvironment) (exhausted : Bool) :
    FinishStep session stream history id (.finish id environment exhausted)
      (stream.settleFinish session writer exhausted stage) := by
  obtain ⟨isId, -⟩ := BlobTransaction.perm_of_writer inv.books.writerIds lookup
  have inFile : ∀ reference ∈ stream.tx.held, InFile L stage.file reference :=
    fun reference member => (inv.inside reference member).trans staging.grown
  have others : ∀ writer ∈ stream.tx.writers,
      WriterStream session stage.file writer (accepted writer.id history) :=
    fun writer among => inv.others staging.intact among
  have books := staging.books
  unfold StageResult.Keeps at books
  unfold StreamTransaction.settleFinish
  cases outcome : stage.result.outcome with
  | error error =>
    rw [outcome] at books
    dsimp only
    obtain ⟨active, isDeactivated⟩ := deactivate_eq
      { stream.tx with staging := stage.result.state, fileBytes := stage.result.fileBytes } error
    rw [isDeactivated]
    refine ⟨⟨⟨books, inv.books.writerIds, inv.books.known⟩, staging.tail, staging.representable,
      inFile, fun writer member => ?_⟩, ⟨staging.grown, staging.intact, fun _ member => member⟩,
      fun returned => Bool.noConfusion returned⟩
    rw [accepted_append]
    exact others writer member
  | ok finalChunk =>
    rw [outcome] at books
    cases exhausted with
    | true =>
      refine ⟨⟨⟨books.release, inv.books.writerIds, inv.books.known⟩, staging.tail.release _,
        staging.representable, inFile, fun writer member => ?_⟩,
        ⟨staging.grown, staging.intact, fun _ member => member⟩,
        fun returned => Bool.noConfusion returned⟩
      rw [accepted_append]
      exact others writer member
    | false =>
      have stands := staging.stands finalChunk outcome
      rw [← isId] at stands
      have final : FinalChunk session stage.file writer [finalChunk] :=
        .inr ⟨finalChunk, rfl, left, stands⟩
      have allInside : ∀ reference ∈ [finalChunk] ++ stream.tx.held,
          InFile L stage.file reference := by
        intro reference member
        rcases List.mem_append.1 member with isFinal | isHeld
        · rw [List.mem_singleton.1 isFinal]
          exact stands.inside
        · exact inFile reference isHeld
      obtain ⟨installed, version⟩ := @install_step _ session
        { tx := { stream.tx with staging := stage.result.state, fileBytes := stage.result.fileBytes }
          file := stage.file
          sized := stage.sized } history id writer [finalChunk] staging.tail staging.representable
        allInside others lookup isId final
        (BlobTransaction.install_inv inv.books.writerIds inv.books.known lookup books) environment
        false
      refine ⟨installed, ⟨staging.grown, staging.intact, fun reference member => ?_⟩,
        fun _ => version⟩
      exact (install_finishedChunks _ _ _ _ reference).2 (.inr member)

section Inv

variable (inv : StreamInv session stream history)
  (committed : session.space.highWaterBlocks ≤ L.fileBlocks)

include inv committed

theorem finish_step (id : BlobId) (environment : StageEnvironment) (exhausted : Bool) :
    FinishStep session stream history id (.finish id environment exhausted)
      (stream.finish session id environment exhausted) := by
  have idle : FinishStep session stream history id (.finish id environment exhausted)
      (false, stream) :=
    ⟨(inv.refused _).1, (inv.refused (.finish id environment exhausted)).2,
      fun returned => Bool.noConfusion returned⟩
  unfold StreamTransaction.finish
  cases lookup : stream.tx.writer id with
  | none => exact idle
  | some writer =>
    obtain ⟨isId, -⟩ := BlobTransaction.perm_of_writer inv.books.writerIds lookup
    dsimp only
    by_cases empty : writer.buffer = []
    · rw [if_pos empty]
      cases exhausted with
      | true => exact idle
      | false =>
        obtain ⟨installed, version⟩ := @install_step _ _ _ _ _ _ [] inv.tail inv.small inv.inside
          inv.writers lookup isId (.inl ⟨rfl, empty⟩)
          (BlobTransaction.install_inv inv.books.writerIds inv.books.known lookup inv.books.books)
          environment false
        refine ⟨installed, ⟨Nat.le_refl _, fun _ _ => rfl, fun reference member => ?_⟩,
          fun _ => version⟩
        exact (install_finishedChunks _ _ _ _ reference).2 (.inr member)
    · rw [if_neg empty]
      have holds := inv.writers writer (List.mem_of_find?_eq_some lookup)
      exact settleFinish_step inv lookup empty
        (chunk_staging inv.books.books inv.tail inv.small committed inv.inside id
          writer.stagedChunks.length holds.short.le environment) environment exhausted

/-! ## Runs -/

/-- One call. -/
theorem perform_step (op : StreamOp) :
    StreamInv session (stream.perform session op).2
        (history ++ [(op, (stream.perform session op).1)]) ∧
      StreamStep L stream (stream.perform session op).2 := by
  have books := StreamTransaction.perform_inv inv.books op
  have unchanged (readers : List Nat) (op : StreamOp)
      (accepts : ∀ id content, acceptStep id content (op, true) = content)
      (books : ({ stream.tx with readers } : BlobTransaction).Inv session.space) :
      StreamInv session (stream.withBooks { stream.tx with readers }) (history ++ [(op, true)]) ∧
        StreamStep L stream (stream.withBooks { stream.tx with readers }) := by
    refine inv.sameFile books inv.tail (fun _ member => member) (fun _ member => member)
      fun writer member => .inl ⟨member, ?_⟩
    rw [accepted_append, accepts]
  cases op with
  | beginRead =>
    exact unchanged _ .beginRead (fun _ _ => rfl) ⟨books.books, books.writerIds, books.known⟩
  | endRead generation =>
    exact unchanged _ (.endRead generation) (fun _ _ => rfl)
      ⟨books.books, books.writerIds, books.known⟩
  | createBlob candidate =>
    simp only [StreamTransaction.perform]
    split
    · exact createBlob_step inv candidate
    · exact inv.refused _
  | replaceBlob id =>
    simp only [StreamTransaction.perform]
    split
    · exact replaceBlob_step inv id
    · exact inv.refused _
  | eraseBlob id =>
    simp only [StreamTransaction.perform]
    split
    · exact eraseBlob_step inv id
    · exact inv.refused _
  | write id source environment exhausted =>
    simp only [StreamTransaction.perform]
    split
    · exact write_step inv committed id source environment exhausted
    · exact inv.refused _
  | finish id environment exhausted =>
    simp only [StreamTransaction.perform]
    split
    · have step := finish_step inv committed id environment exhausted
      exact ⟨step.inv, step.step⟩
    · exact inv.refused _
  | abort id =>
    simp only [StreamTransaction.perform]
    split
    · exact abort_step inv id
    · exact inv.refused _

theorem run_stream (ops : List StreamOp) :
    StreamInv session (stream.run session ops) (history ++ stream.trace session ops) := by
  induction ops generalizing stream history with
  | nil =>
    rw [StreamTransaction.trace, List.append_nil]
    exact inv
  | cons op ops ih =>
    have rest := ih (perform_step inv committed op).1
    rw [List.append_assoc] at rest
    exact rest

end Inv

/-- The committed blocks lie in the largest file. -/
theorem BlobSession.committed_fileBlocks (session : BlobSession L) {file : Bytes}
    (committed : session.opened.format.highWaterBytes ≤ file.length)
    (small : file.length ≤ maxFileOffset) : session.space.highWaterBlocks ≤ L.fileBlocks := by
  rw [session.highWater_eq] at committed
  rw [Limits.fileBlocks, Nat.le_div_iff_mul_le L.quantum_pos]
  exact committed.trans small

/-- A transaction right behind `beginWrite` holds no staged chunk. -/
theorem StreamInv.start {stream : StreamTransaction} (fresh : stream.tx.Fresh)
    (small : stream.file.length ≤ maxFileOffset) : StreamInv session stream [] := by
  have books : stream.tx.Inv session.space := fresh.inv
  refine ⟨books, ?_, small, fun reference member => ?_, fun writer member => ?_⟩
  · rw [fresh.staging]
    exact ⟨List.Pairwise.nil, Nat.zero_le _⟩
  · rcases books.books with ⟨-, -, nothing⟩ | ⟨initialReaders, -, booked⟩
    · rw [nothing] at member
      cases member
    · rw [fresh.staging] at booked
      cases booked.initialized
  · rw [fresh.writers] at member
    cases member

/-- A version stands behind every later run of calls. -/
theorem VersionStands.run {version : BlobVersion} {content : Bytes}
    (committed : session.space.highWaterBlocks ≤ L.fileBlocks) (ops : List StreamOp)
    (inv : StreamInv session stream history)
    (stands : VersionStands session stream version content) :
    VersionStands session (stream.run session ops) version content := by
  induction ops generalizing stream history with
  | nil => exact stands
  | cons op ops ih =>
    obtain ⟨next, step⟩ := perform_step inv committed op
    exact ih next (stands.next step)

end Calls

end Miare
