import Miare.Blob.Proofs.Staging
import Miare.Blob.Transaction

/-!
# The books of a write transaction

Every staged chunk is held by exactly one owner: an open writer, a pending Blob of the catalog,
or the list of discarded references.  Blob operations move chunks between the owners and the
staging free list and lose none.
-/

namespace Miare

open Misc

variable {L : Limits} {space : CommittedSpace L}

namespace StagingInvFor

variable {initial : List Nat → Prop} {state : StagingAllocator} {held : List ExtentReference}

theorem perm {held' : List ExtentReference} (inv : StagingInvFor space initial state held)
    (same : held'.Perm held) : StagingInvFor space initial state held' := by
  rcases inv with ⟨fresh, unused, rfl⟩ | ⟨initialReaders, kept, books⟩
  · exact Or.inl ⟨fresh, unused, List.perm_nil.1 same⟩
  · exact Or.inr ⟨initialReaders, kept, books.congr (coverage_perm same)
      fun reference member => books.nonempty reference (same.mem_iff.1 member)⟩

theorem release {reference : ExtentReference}
    (inv : StagingInvFor space initial state (reference :: held)) :
    StagingInvFor space initial (releaseBlobStagingReference state reference) held := by
  rcases inv with ⟨-, -, impossible⟩ | ⟨initialReaders, kept, books⟩
  · cases impossible
  · exact Or.inr ⟨initialReaders, kept, books.release⟩

theorem releases {references : List ExtentReference}
    (inv : StagingInvFor space initial state (references ++ held)) :
    StagingInvFor space initial (releaseBlobStagingReferences state references) held := by
  induction references generalizing state with
  | nil => exact inv
  | cons reference rest ih => exact ih inv.release

/-- The counter of abortable references plays no part. -/
theorem abortable (inv : StagingInvFor space initial state held) (count : Nat) :
    StagingInvFor space initial { state with abortableStagingReferences := count } held := by
  rcases inv with ⟨fresh, nothing⟩ | ⟨initialReaders, kept, books⟩
  · exact Or.inl ⟨fresh, nothing⟩
  · exact Or.inr ⟨initialReaders, kept,
      ⟨books.initialized, books.ascending, books.grown, books.nonempty, books.balance⟩⟩

end StagingInvFor

namespace StagingInv

variable {readers : List Nat} {state : StagingAllocator} {held : List ExtentReference}

theorem of_books {initialReaders : List Nat}
    (kept : ∀ run ∈ space.retiredRuns,
      run.eligible initialReaders = true → run.eligible readers = true)
    (books : StagingBooks space initialReaders state held) :
    StagingInv space readers state held :=
  Or.inr ⟨initialReaders, kept, books⟩

theorem perm {held' : List ExtentReference} (inv : StagingInv space readers state held)
    (same : held'.Perm held) : StagingInv space readers state held' :=
  StagingInvFor.perm inv same

theorem release {reference : ExtentReference}
    (inv : StagingInv space readers state (reference :: held)) :
    StagingInv space readers (releaseBlobStagingReference state reference) held :=
  StagingInvFor.release inv

/-- A reader that begins now holds the current generation, so no eligible run is lost. -/
theorem beginRead (inv : StagingInv space readers state held) :
    StagingInv space (space.generation :: readers) state held := by
  rcases inv with fresh | ⟨initialReaders, kept, books⟩
  · exact Or.inl fresh
  · refine of_books (fun run member eligible => ?_) books
    obtain ⟨small, below⟩ := eligible_iff.1 (kept run member eligible)
    refine eligible_iff.2 ⟨small, fun reader live => ?_⟩
    rcases List.mem_cons.1 live with rfl | live
    · exact (space.retirement run member).2
    · exact below reader live

theorem endRead (inv : StagingInv space readers state held) (generation : Nat) :
    StagingInv space (readers.erase generation) state held := by
  rcases inv with fresh | ⟨initialReaders, kept, books⟩
  · exact Or.inl fresh
  · refine of_books (fun run member eligible => ?_) books
    obtain ⟨small, below⟩ := eligible_iff.1 (kept run member eligible)
    exact eligible_iff.2 ⟨small, fun reader live => below reader (List.mem_of_mem_erase live)⟩

end StagingInv

/-! ## Staging one chunk -/

/-- A staged chunk is held; a chunk that failed leaves the held ones as they were. -/
def StageResult.KeepsFor (space : CommittedSpace L) (initial : List Nat → Prop)
    (held : List ExtentReference) (result : StageResult) : Prop :=
  match result.outcome with
  | .ok reference => StagingInvFor space initial result.state (reference :: held)
  | .error _ => StagingInvFor space initial result.state held

def StageResult.Keeps (space : CommittedSpace L) (readers : List Nat)
    (held : List ExtentReference) (result : StageResult) : Prop :=
  match result.outcome with
  | .ok reference => StagingInv space readers result.state (reference :: held)
  | .error _ => StagingInv space readers result.state held

section Staging

variable {initial : List Nat → Prop} {readers : List Nat} {state : StagingAllocator}
  {held : List ExtentReference}

theorem reserveAndWrite_keeps {initialReaders : List Nat} (kept : initial initialReaders)
    (books : StagingBooks space initialReaders state held) (fileBytes : Nat) (input : StageInput) :
    (reserveAndWrite space state fileBytes input).KeepsFor space initial held := by
  have reserved := books.reserve
    (L.blocksFor_pos (encodedExtentLength_pos input.storedBytes))
    { blockIndex := (state.pool.allocateBlocks
        (L.blocksFor (encodedExtentLength input.storedBytes))).1
      blockCount := L.blocksFor (encodedExtentLength input.storedBytes)
      encodedLength := encodedExtentLength input.storedBytes
      creationGeneration := space.generation + 1 } rfl rfl
  unfold reserveAndWrite
  simp only
  split
  · exact StagingInvFor.abortable (Or.inr ⟨initialReaders, kept, reserved⟩) _
  · exact Or.inr ⟨initialReaders, kept, reserved.giveBack⟩

theorem stageBlobChunk_keepsFor (inv : StagingInvFor space initial state held)
    (now : state.allocatorInitialized = false → initial readers) (fileBytes : Nat)
    (input : StageInput) :
    (stageBlobChunk space readers state fileBytes input).KeepsFor space initial held := by
  obtain ⟨initialReaders, kept, books⟩ := inv.initialize now
  unfold stageBlobChunk
  split
  · split
    · rename_i initialized
      rw [initializeBlobStagingAllocator, if_pos initialized] at books
      exact reserveAndWrite_keeps kept books fileBytes input
    · exact inv
  · exact Or.inr ⟨initialReaders, kept, books⟩
  · exact Or.inr ⟨initialReaders, kept, books⟩
  · exact reserveAndWrite_keeps kept books fileBytes input

theorem stageBlobChunk_keeps (inv : StagingInv space readers state held) (fileBytes : Nat)
    (input : StageInput) :
    (stageBlobChunk space readers state fileBytes input).Keeps space readers held :=
  stageBlobChunk_keepsFor inv (fun _ _ _ eligible => eligible) fileBytes input

end Staging

namespace BlobTransaction

/-- The chunks of a write loop in progress are prepared but not yet the writer's. -/
theorem writeLoop_inv {initial : List Nat → Prop} {readers : List Nat}
    (held : List ExtentReference) (input : Nat → StageInput) (turns : Nat)
    (progress : WriteProgress) (source : Bytes)
    (inv : StagingInvFor space initial progress.staging (progress.prepared ++ held))
    (now : progress.staging.allocatorInitialized = false → initial readers) :
    StagingInvFor space initial (writeLoop space readers input turns progress source).staging
      ((writeLoop space readers input turns progress source).prepared ++ held) := by
  induction turns generalizing progress source with
  | zero => exact inv
  | succ turns ih =>
    simp only [writeLoop]
    split
    · exact inv
    · split
      · have keeps := stageBlobChunk_keepsFor inv now progress.fileBytes
          (input progress.prepared.length)
        unfold StageResult.KeepsFor at keeps
        split
        · rename_i reference staged
          simp only [staged] at keeps
          apply ih
          · refine keeps.perm ?_
            rw [List.append_assoc]
            exact List.perm_middle
          · intro fresh
            rcases keeps with ⟨-, -, impossible⟩ | ⟨initialReaders, -, books⟩
            · cases impossible
            · rw [books.initialized] at fresh
              cases fresh
        · rename_i error staged
          simp only [staged] at keeps
          exact keeps
      · exact ih _ _ inv now

/-! ## The owners of the staged chunks -/

/-- All references staged by the transaction and not given back. -/
def held (tx : BlobTransaction) : List ExtentReference :=
  tx.writers.flatMap BlobWriter.stagedChunks ++
    (pendingChunks tx.blobs ++ tx.discardedStagedReferences)

/-- The books balance, no two handles write the same Blob, and a handle writes a Blob that this
transaction created or that the catalog has. -/
structure Inv (space : CommittedSpace L) (tx : BlobTransaction) : Prop where
  books : StagingInv space tx.readers tx.staging tx.held
  writerIds : (tx.writers.map BlobWriter.id).Nodup
  known : ∀ writer ∈ tx.writers,
    writer.id ∈ tx.generatedIds ∨ ∃ version ∈ tx.blobs.entries, version.id = writer.id

/-- The same, with a property of the readers under which the allocator was initialised. -/
structure InvFor (space : CommittedSpace L) (initial : List Nat → Prop) (tx : BlobTransaction) :
    Prop where
  books : StagingInvFor space initial tx.staging tx.held
  writerIds : (tx.writers.map BlobWriter.id).Nodup
  known : ∀ writer ∈ tx.writers,
    writer.id ∈ tx.generatedIds ∨ ∃ version ∈ tx.blobs.entries, version.id = writer.id

theorem perm_of_writer {writers : List BlobWriter} {id : BlobId} {found : BlobWriter}
    (distinct : (writers.map BlobWriter.id).Nodup)
    (lookup : writers.find? (fun writer => writer.id = id) = some found) :
    found.id = id ∧ writers.Perm (found :: writers.filter fun writer => writer.id ≠ id) := by
  have foundId : found.id = id := by simpa using List.find?_some lookup
  refine ⟨foundId, ?_⟩
  induction writers with
  | nil => simp at lookup
  | cons head rest ih =>
    obtain ⟨fresh, tail⟩ := List.nodup_cons.1 distinct
    by_cases same : head.id = id
    · have headFound : head = found := by
        rw [List.find?_cons_of_pos (by simpa using same)] at lookup
        exact Option.some.inj lookup
      subst headFound
      have others : rest.filter (fun writer => writer.id ≠ id) = rest := by
        apply List.filter_eq_self.2
        intro writer member
        simp only [ne_eq, decide_not, Bool.not_eq_eq_eq_not, Bool.not_true,
          decide_eq_false_iff_not]
        intro clash
        exact fresh (List.mem_map.2 ⟨writer, member, clash.trans same.symm⟩)
      rw [List.filter_cons_of_neg (by simpa using same), others]
    · rw [List.find?_cons_of_neg (by simpa using same)] at lookup
      rw [List.filter_cons_of_pos (by simpa using same)]
      exact ((ih tail lookup).cons head).trans (List.Perm.swap _ _ _)

/-- A version enters the catalog; the chunks of a pending predecessor leave it. -/
theorem pendingChunks_insertOrAssign (blobs : BlobCatalog) (version : BlobVersion)
    (pending : version.pending = true) :
    (pendingChunks (blobs.insertOrAssign version) ++
        ((blobs.find version.id).map BlobVersion.pendingChunks).getD []).Perm
      (version.chunks ++ pendingChunks blobs) := by
  have entered : (pendingChunks (blobs.insertOrAssign version)).Perm
      (version.chunks ++ pendingChunks (blobs.erase version.id)) := by
    have := (blobs.insertOrAssign_perm version).flatMap_right BlobVersion.pendingChunks
    simpa [pendingChunks, BlobVersion.pendingChunks, pending] using this
  cases found : blobs.find version.id with
  | none => simpa [Keyed.erase_of_find_none found] using entered
  | some prior =>
    have left : (pendingChunks blobs).Perm
        (prior.pendingChunks ++ pendingChunks (blobs.erase version.id)) := by
      have := (Keyed.perm_of_find found).flatMap_right BlobVersion.pendingChunks
      simpa [pendingChunks] using this
    rw [List.perm_iff_count]
    intro reference
    have counted := entered.count_eq reference
    have before := left.count_eq reference
    simp only [Option.map_some, Option.getD_some, List.count_append] at counted before ⊢
    omega

theorem held_of_writer {tx : BlobTransaction} {id : BlobId} {found : BlobWriter}
    (distinct : (tx.writers.map BlobWriter.id).Nodup) (lookup : tx.writer id = some found) :
    tx.held.Perm (found.stagedChunks ++ ((tx.otherWriters id).flatMap BlobWriter.stagedChunks ++
      (pendingChunks tx.blobs ++ tx.discardedStagedReferences))) := by
  have moved := (perm_of_writer distinct lookup).2.flatMap_right BlobWriter.stagedChunks
  rw [List.flatMap_cons] at moved
  rw [held, ← List.append_assoc found.stagedChunks]
  exact moved.append_right _

theorem otherWriters_distinct {tx : BlobTransaction} (id : BlobId)
    (distinct : (tx.writers.map BlobWriter.id).Nodup) :
    ((tx.otherWriters id).map BlobWriter.id).Nodup :=
  distinct.sublist ((List.filter_sublist (l := tx.writers)).map _)

theorem not_mem_otherWriters (tx : BlobTransaction) (id : BlobId) :
    id ∉ (tx.otherWriters id).map BlobWriter.id := by
  intro member
  obtain ⟨writer, kept, same⟩ := List.mem_map.1 member
  have := (List.mem_filter.1 kept).2
  simp [same] at this

/-! ## One operation -/

section Operations

variable {initial : List Nat → Prop}

theorem openWriter_invFor {tx : BlobTransaction} {id : BlobId} (inv : tx.InvFor space initial)
    (unused : tx.writer id = none) (generatedIds : List BlobId)
    (grown : ∀ other ∈ tx.generatedIds, other ∈ generatedIds)
    (known : id ∈ generatedIds ∨ ∃ version ∈ tx.blobs.entries, version.id = id) :
    ({ tx.openWriter id with generatedIds } : BlobTransaction).InvFor space initial := by
  refine ⟨?_, ?_, ?_⟩
  · simpa [held, openWriter] using inv.books
  · refine List.nodup_cons.2 ⟨?_, inv.writerIds⟩
    intro member
    obtain ⟨writer, present, same⟩ := List.mem_map.1 member
    have := List.find?_eq_none.1 unused writer present
    simp [same] at this
  · intro writer member
    rcases List.mem_cons.1 member with rfl | member
    · exact known
    · exact (inv.known writer member).imp_left (grown _)

theorem createBlob_invFor {tx : BlobTransaction} (inv : tx.InvFor space initial)
    (candidate : Option BlobId) :
    (tx.createBlob L candidate).InvFor space initial := by
  unfold createBlob
  split
  · exact inv
  · rename_i id
    split
    · rename_i admitted
      obtain ⟨-, absent, fresh⟩ := admitted
      have unused : tx.writer id = none := by
        apply List.find?_eq_none.2
        intro writer member same
        simp only [decide_eq_true_eq] at same
        rcases inv.known writer member with generated | ⟨version, present, versionId⟩
        · exact fresh (same ▸ generated)
        · exact findKey_eq_none_iff.1 absent version present (versionId.trans same)
      exact openWriter_invFor inv unused _ (fun other => List.mem_cons_of_mem _)
        (Or.inl List.mem_cons_self)
    · exact inv

theorem replaceBlob_invFor {tx : BlobTransaction} (inv : tx.InvFor space initial) (id : BlobId) :
    (tx.replaceBlob L id).InvFor space initial := by
  unfold replaceBlob
  split
  · exact inv
  · rename_i version found
    obtain ⟨present, versionId⟩ := (findKey_eq_some_iff tx.blobs.increasing).1 found
    split
    · exact inv
    · rename_i unused
      split
      · exact openWriter_invFor inv (by simpa using unused) _ (fun _ known => known)
          (Or.inr ⟨version, present, versionId⟩)
      · exact inv

theorem eraseBlob_invFor {tx : BlobTransaction} (inv : tx.InvFor space initial) (id : BlobId) :
    (tx.eraseBlob L id).InvFor space initial := by
  unfold eraseBlob
  split
  · exact inv
  · rename_i unused
    split
    · exact inv
    · rename_i version found
      split
      · exact inv
      · refine ⟨inv.books.perm ?_, inv.writerIds, ?_⟩
        · -- the chunks of the erased version become discarded references
          have left := (Keyed.perm_of_find found).flatMap_right BlobVersion.pendingChunks
          rw [List.perm_iff_count]
          intro reference
          have counted := left.count_eq reference
          simp only [held, pendingChunks, List.flatMap_cons, List.count_append] at counted ⊢
          omega
        · intro writer member
          rcases inv.known writer member with generated | ⟨other, present, same⟩
          · exact Or.inl generated
          · refine Or.inr ⟨other, mem_removeKey.2 ⟨present, ?_⟩, same⟩
            intro clash
            rw [Bool.not_eq_true, Option.isSome_eq_false_iff, Option.isNone_iff_eq_none] at unused
            have := List.find?_eq_none.1 unused writer member
            simp [← same, clash] at this

theorem install_invFor {tx : BlobTransaction} {id : BlobId} {writer : BlobWriter} {generation : Nat}
    {finalChunk : List ExtentReference} (distinct : (tx.writers.map BlobWriter.id).Nodup)
    (known : ∀ writer ∈ tx.writers,
      writer.id ∈ tx.generatedIds ∨ ∃ version ∈ tx.blobs.entries, version.id = writer.id)
    (lookup : tx.writer id = some writer)
    (books : StagingInvFor space initial tx.staging (finalChunk ++ tx.held)) :
    (tx.install L writer generation finalChunk).InvFor space initial := by
  have writerId : writer.id = id := (perm_of_writer distinct lookup).1
  refine ⟨(books.perm ?_).abortable _, otherWriters_distinct _ distinct, ?_⟩
  · rw [List.perm_iff_count]
    intro reference
    have owners := (held_of_writer distinct lookup).count_eq reference
    have catalog := (pendingChunks_insertOrAssign tx.blobs
      { id := writer.id, size := writer.position, generation,
        chunks := writer.stagedChunks ++ finalChunk,
        reachable := writer.stagedChunks ++ finalChunk,
        stagedHighWaterBytes := tx.staging.stagingNextBlock * L.allocationQuantumBytes,
        pending := true } rfl).count_eq reference
    simp only [install, held, List.count_append, writerId] at owners catalog ⊢
    omega
  · intro other member
    obtain ⟨present, differs⟩ := List.mem_filter.1 member
    rcases known other present with generated | ⟨version, inCatalog, same⟩
    · exact Or.inl generated
    · refine Or.inr ⟨version, (mem_putEntry tx.blobs.increasing).2 (Or.inr ⟨inCatalog, ?_⟩), same⟩
      simpa [same] using differs

theorem deactivate_invFor {tx : BlobTransaction} (inv : tx.InvFor space initial) (error : StageError) :
    (tx.deactivate error).InvFor space initial := by
  unfold deactivate
  split
  · exact ⟨inv.books, inv.writerIds, inv.known⟩
  · exact inv

theorem write_invFor {tx : BlobTransaction} (inv : tx.InvFor space initial)
    (now : tx.staging.allocatorInitialized = false → initial tx.readers) (id : BlobId)
    (source : Bytes) (input : Nat → StageInput) :
    (tx.write space id source input).InvFor space initial := by
  unfold write
  split
  · exact inv
  · rename_i writer lookup
    split
    · exact inv
    · have writerId : writer.id = id := (perm_of_writer inv.writerIds lookup).1
      have looped := writeLoop_inv tx.held input source.length
        { staging := tx.staging, fileBytes := tx.fileBytes, working := writer.buffer,
          prepared := [] } source inv.books now
      generalize writeLoop space tx.readers input source.length _ source = progress at looped ⊢
      simp only
      split
      · refine ⟨looped.perm ?_, ?_, ?_⟩
        · -- the prepared chunks become the writer's
          rw [List.perm_iff_count]
          intro reference
          have owners := (held_of_writer inv.writerIds lookup).count_eq reference
          simp only [held, List.flatMap_cons, List.count_append] at owners ⊢
          omega
        · rw [List.map_cons, List.nodup_cons]
          refine ⟨?_, otherWriters_distinct id inv.writerIds⟩
          rw [writerId]
          exact not_mem_otherWriters tx id
        · intro other member
          rcases List.mem_cons.1 member with rfl | member
          · exact inv.known writer (List.mem_of_find?_eq_some lookup)
          · exact inv.known other (List.mem_filter.1 member).1
      · apply deactivate_invFor
        exact ⟨looped.releases, inv.writerIds, inv.known⟩

theorem finish_invFor {tx : BlobTransaction} (inv : tx.InvFor space initial)
    (now : tx.staging.allocatorInitialized = false → initial tx.readers) (id : BlobId)
    (input : StageInput) (exhausted : Bool) :
    (tx.finish space id input exhausted).InvFor space initial := by
  unfold finish
  split
  · exact inv
  · rename_i writer lookup
    split
    · split
      · exact inv
      · exact install_invFor inv.writerIds inv.known lookup inv.books
    · have keeps := stageBlobChunk_keepsFor inv.books now tx.fileBytes input
      unfold StageResult.KeepsFor at keeps
      simp only
      split
      · rename_i error staged
        simp only [staged] at keeps
        apply deactivate_invFor
        exact ⟨keeps, inv.writerIds, inv.known⟩
      · rename_i finalChunk staged
        simp only [staged] at keeps
        split
        · exact ⟨keeps.release, inv.writerIds, inv.known⟩
        · exact install_invFor inv.writerIds inv.known lookup keeps

theorem abort_invFor {tx : BlobTransaction} (inv : tx.InvFor space initial) (id : BlobId) :
    (tx.abort id).InvFor space initial := by
  unfold abort
  split
  · exact inv
  · rename_i writer lookup
    refine ⟨?_, otherWriters_distinct id inv.writerIds, ?_⟩
    · exact (inv.books.perm (held_of_writer inv.writerIds lookup).symm).releases
    · intro other member
      exact inv.known other (List.mem_filter.1 member).1

/-- An operation of the transaction itself. -/
theorem perform_invFor {tx : BlobTransaction} (inv : tx.InvFor space initial)
    (now : tx.staging.allocatorInitialized = false → initial tx.readers) (op : BlobOp) :
    (tx.perform space op).InvFor space initial := by
  cases op <;> simp only [perform]
  case beginRead => exact ⟨inv.books, inv.writerIds, inv.known⟩
  case endRead generation => exact ⟨inv.books, inv.writerIds, inv.known⟩
  all_goals split
  case createBlob.isTrue candidate _ => exact createBlob_invFor inv candidate
  case replaceBlob.isTrue id _ => exact replaceBlob_invFor inv id
  case eraseBlob.isTrue id _ => exact eraseBlob_invFor inv id
  case write.isTrue id source input _ => exact write_invFor inv now id source input
  case finish.isTrue id input exhausted _ => exact finish_invFor inv now id input exhausted
  case abort.isTrue id _ => exact abort_invFor inv id
  all_goals exact inv

end Operations

/-- Readers whose eligible runs are still eligible. -/
def StillEligible (space : CommittedSpace L) (readers initialReaders : List Nat) : Prop :=
  ∀ run ∈ space.retiredRuns, run.eligible initialReaders = true → run.eligible readers = true

theorem Inv.invFor {tx : BlobTransaction} (inv : tx.Inv space) :
    tx.InvFor space (StillEligible space tx.readers) :=
  ⟨inv.books, inv.writerIds, inv.known⟩

theorem InvFor.inv {tx : BlobTransaction} {readers : List Nat}
    (inv : tx.InvFor space (StillEligible space readers)) (same : tx.readers = readers) :
    tx.Inv space := by
  subst same
  exact ⟨inv.books, inv.writerIds, inv.known⟩

section Readers

variable (tx : BlobTransaction)

theorem createBlob_readers (candidate : Option BlobId) :
    (tx.createBlob L candidate).readers = tx.readers := by
  unfold createBlob
  split
  · rfl
  · split <;> rfl

theorem replaceBlob_readers (id : BlobId) : (tx.replaceBlob L id).readers = tx.readers := by
  unfold replaceBlob
  split
  · rfl
  · split
    · rfl
    · split <;> rfl

theorem eraseBlob_readers (id : BlobId) : (tx.eraseBlob L id).readers = tx.readers := by
  unfold eraseBlob
  split
  · rfl
  · split
    · rfl
    · split <;> rfl

theorem deactivate_readers (error : StageError) : (tx.deactivate error).readers = tx.readers := by
  unfold deactivate
  split <;> rfl

theorem write_readers (id : BlobId) (source : Bytes) (input : Nat → StageInput) :
    (tx.write space id source input).readers = tx.readers := by
  unfold write
  split
  · rfl
  · split
    · rfl
    · dsimp only
      split
      · rfl
      · rw [deactivate_readers]

theorem finish_readers (id : BlobId) (input : StageInput) (exhausted : Bool) :
    (tx.finish space id input exhausted).readers = tx.readers := by
  unfold finish
  split
  · rfl
  · split
    · split <;> rfl
    · dsimp only
      split
      · rw [deactivate_readers]
      · split <;> rfl

theorem abort_readers (id : BlobId) : (tx.abort id).readers = tx.readers := by
  unfold abort
  split <;> rfl

end Readers

section Now

variable {tx : BlobTransaction} (inv : tx.Inv space)

include inv

theorem createBlob_inv (candidate : Option BlobId) : (tx.createBlob L candidate).Inv space :=
  (createBlob_invFor inv.invFor candidate).inv (tx.createBlob_readers candidate)

theorem replaceBlob_inv (id : BlobId) : (tx.replaceBlob L id).Inv space :=
  (replaceBlob_invFor inv.invFor id).inv (tx.replaceBlob_readers id)

theorem eraseBlob_inv (id : BlobId) : (tx.eraseBlob L id).Inv space :=
  (eraseBlob_invFor inv.invFor id).inv (tx.eraseBlob_readers id)

theorem write_inv (id : BlobId) (source : Bytes) (input : Nat → StageInput) :
    (tx.write space id source input).Inv space :=
  (write_invFor inv.invFor (fun _ _ _ eligible => eligible) id source input).inv
    (tx.write_readers id source input)

theorem finish_inv (id : BlobId) (input : StageInput) (exhausted : Bool) :
    (tx.finish space id input exhausted).Inv space :=
  (finish_invFor inv.invFor (fun _ _ _ eligible => eligible) id input exhausted).inv
    (tx.finish_readers id input exhausted)

theorem abort_inv (id : BlobId) : (tx.abort id).Inv space :=
  (abort_invFor inv.invFor id).inv (tx.abort_readers id)

end Now

theorem install_inv {tx : BlobTransaction} {id : BlobId} {writer : BlobWriter} {generation : Nat}
    {finalChunk : List ExtentReference} (distinct : (tx.writers.map BlobWriter.id).Nodup)
    (known : ∀ writer ∈ tx.writers,
      writer.id ∈ tx.generatedIds ∨ ∃ version ∈ tx.blobs.entries, version.id = writer.id)
    (lookup : tx.writer id = some writer)
    (books : StagingInv space tx.readers tx.staging (finalChunk ++ tx.held)) :
    (tx.install L writer generation finalChunk).Inv space :=
  InvFor.inv (install_invFor distinct known lookup books) rfl

/-! ## Whole transactions -/

theorem Fresh.inv {tx : BlobTransaction} (fresh : tx.Fresh) : tx.Inv space := by
  have nothing : pendingChunks tx.blobs = [] := by
    apply List.flatMap_eq_nil_iff.2
    intro version member
    simp [BlobVersion.pendingChunks, fresh.committed version member]
  refine ⟨Or.inl ⟨by rw [fresh.staging], by rw [fresh.staging], ?_⟩, ?_, ?_⟩
  · simp [held, fresh.writers, fresh.discarded, nothing]
  · simp [fresh.writers]
  · simp [fresh.writers]

/-- One operation keeps the books. -/
theorem perform_inv {tx : BlobTransaction} (inv : tx.Inv space) (op : BlobOp) :
    (tx.perform space op).Inv space := by
  cases op <;> simp only [perform]
  case beginRead => exact ⟨inv.books.beginRead, inv.writerIds, inv.known⟩
  case endRead generation => exact ⟨inv.books.endRead generation, inv.writerIds, inv.known⟩
  all_goals split
  case createBlob.isTrue candidate _ => exact createBlob_inv inv candidate
  case replaceBlob.isTrue id _ => exact replaceBlob_inv inv id
  case eraseBlob.isTrue id _ => exact eraseBlob_inv inv id
  case write.isTrue id source input _ => exact write_inv inv id source input
  case finish.isTrue id input exhausted _ => exact finish_inv inv id input exhausted
  case abort.isTrue id _ => exact abort_inv inv id
  all_goals exact inv

/-- A whole history keeps the books. -/
theorem run_inv {tx : BlobTransaction} (inv : tx.Inv space) (ops : List BlobOp) :
    (tx.run space ops).Inv space := by
  induction ops generalizing tx with
  | nil => exact inv
  | cons op ops ih => exact ih (perform_inv inv op)

end BlobTransaction

end Miare
