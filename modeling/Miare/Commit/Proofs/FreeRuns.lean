import Miare.Blob.Proofs.Transaction
import Miare.Commit.FreeRuns

/-!
# The three books of a commit add up, except for discarded chunks across the high water

The rebuilt free list and the pending chunks split the blocks a commit may use exactly when no
discarded chunk begins below the committed high water and ends behind it.  Such a chunk exists
after staging has merged a committed free run with released blocks behind the high water and
has carved a chunk across the boundary: its upper part is in no book.
-/

namespace Miare

open Misc

variable {L : Limits} {space : CommittedSpace L}

theorem coverage_reclaimedRuns (space : CommittedSpace L) (readers : List Nat) (x : Nat) :
    coverage (reclaimedRuns space readers) x =
      coverage (initialStagingRuns space readers) x := by
  rw [reclaimedRuns, coverage_coalesceEligible, coverage_initialStagingRuns, coverage_append]

/-- Staging tails are the blocks at or behind the boundary. -/
theorem coverage_stagingTail (startBlock : Nat) (runs : List ExtentRun) (x : Nat) :
    coverage (runs.flatMap (stagingTail startBlock)) x =
      if startBlock ≤ x then coverage runs x else 0 := by
  induction runs with
  | nil => simp
  | cons run rest ih =>
    have head : coverage (stagingTail startBlock run) x =
        if startBlock ≤ x then span run x else 0 := by
      unfold stagingTail ExtentRun.limit
      rw [span_run]
      split
      · rw [coverage_cons, coverage_nil, span_mk]
        unfold between
        split_ifs <;> omega
      · rw [coverage_nil]
        unfold between
        split_ifs <;> omega
    rw [coverage_flatMap_cons, ih, head, coverage_cons]
    split <;> omega

/-- Membership in the usable blocks, as a sum. -/
theorem mem_commitBlocks_iff (readers : List Nat) {nextBlock : Nat} (x : Nat) :
    x ∈ commitBlocks space readers nextBlock ↔
      0 < stagedBlocks space readers nextBlock x := by
  unfold stagedBlocks
  rw [coverage_initialStagingRuns, coverage_eligibleRuns]
  have free := coverage_pos_iff space.freeRuns x
  have eligible := coverage_pos_iff (space.retiredRuns.filter (ExtentRun.eligible readers)) x
  have tail : 0 < between space.highWaterBlocks nextBlock x ↔
      space.highWaterBlocks ≤ x ∧ x < nextBlock := between_pos_iff
  simp only [List.mem_filter, and_assoc] at eligible
  simp only [commitBlocks, Set.mem_ofPred_eq, ← free, ← eligible, ← tail]
  omega

/-- A list splits the usable blocks exactly when it covers each block as often as they do. -/
theorem tiles_commitBlocks_iff (readers : List Nat) (nextBlock : Nat) (runs : List ExtentRun) :
    Tiles runs (commitBlocks space readers nextBlock) ↔
      ∀ x, coverage runs x = stagedBlocks space readers nextBlock x := by
  constructor
  · intro tiles x
    have bound := stagedBlocks_le_one space readers nextBlock x
    by_cases usable : x ∈ commitBlocks space readers nextBlock
    · have := (mem_commitBlocks_iff readers x).1 usable
      rw [tiles.1 x usable]
      omega
    · have := mt (mem_commitBlocks_iff readers x).2 usable
      rw [tiles.2 x usable]
      omega
  · intro same
    refine ⟨fun x usable => ?_, fun x unusable => ?_⟩
    · have := (mem_commitBlocks_iff readers x).1 usable
      have := stagedBlocks_le_one space readers nextBlock x
      rw [same]
      omega
    · have := mt (mem_commitBlocks_iff readers x).2 unusable
      rw [same]
      omega

/-- A discarded chunk that begins below the committed high water and ends behind it. -/
def Straddles (startBlock : Nat) (reference : ExtentReference) : Prop :=
  reference.blockIndex < startBlock ∧
    startBlock < reference.blockIndex + reference.blockCount

instance (startBlock : Nat) (reference : ExtentReference) :
    Decidable (Straddles startBlock reference) :=
  inferInstanceAs (Decidable (_ ∧ _))

/-- Discarded references that commit puts back cover what the others do not reach. -/
theorem coverage_discarded_kept {startBlock : Nat} {references : List ExtentReference}
    (contained : ∀ reference ∈ references, ¬ Straddles startBlock reference) (x : Nat) :
    coverage (references.filter fun reference => startBlock ≤ reference.blockIndex) x =
      if startBlock ≤ x then coverage references x else 0 := by
  split
  · rename_i behind
    apply coverage_filter_eq
    rintro reference member dropped ⟨-, upper⟩
    have := contained reference member
    simp only [Straddles, not_and, not_lt] at this
    simp only [decide_eq_false_iff_not, not_le] at dropped
    simp only [ExtentReference.first_eq, ExtentReference.size_eq] at upper
    omega
  · rename_i before
    apply coverage_eq_zero_of_first _ (Nat.lt_of_not_le before)
    intro reference member
    simpa using (List.mem_filter.1 member).2

/-- The blocks of the rebuilt free list once the staging allocator is initialised. -/
theorem coverage_commitFreeRuns {tx : BlobTransaction}
    (initialized : tx.staging.allocatorInitialized = true) (x : Nat) :
    coverage (commitFreeRuns space tx).freeRuns x =
      if coverage (pendingChunks tx.blobs) x = 0 then
        coverage (initialStagingRuns space tx.readers) x +
          (if space.highWaterBlocks ≤ x then coverage tx.staging.stagingFreeRuns x else 0) +
          coverage (tx.discardedStagedReferences.filter fun reference =>
            space.highWaterBlocks ≤ reference.blockIndex) x
      else 0 := by
  rw [commitFreeRuns]
  simp only [initialized, if_true]
  rw [coverage_coalesceBlobStagingFreeRuns, coverage_removeRanges, coverage_append,
    coverage_append, coverage_reclaimedRuns, coverage_stagingTail, coverage_toRun]

/-- With no writer open, pending and discarded chunks are all that is held. -/
theorem BlobTransaction.held_of_ready {tx : BlobTransaction} (ready : tx.readyToCommit = true) :
    tx.held = pendingChunks tx.blobs ++ tx.discardedStagedReferences := by
  simp only [BlobTransaction.readyToCommit, Bool.and_eq_true, List.isEmpty_iff] at ready
  simp [BlobTransaction.held, ready.2]

/-- The list a commit starts from, with the chunks it must not touch. -/
def commitBooks (space : CommittedSpace L) (tx : BlobTransaction) : List ExtentRun :=
  (commitFreeRuns space tx).freeRuns ++ (pendingChunks tx.blobs).map ExtentReference.toRun

theorem commitBooks_of_contained {tx : BlobTransaction} {initialReaders : List Nat}
    (kept : ∀ run ∈ space.retiredRuns,
      run.eligible initialReaders = true → run.eligible tx.readers = true)
    (books : StagingBooks space initialReaders tx.staging
      (pendingChunks tx.blobs ++ tx.discardedStagedReferences))
    (contained : ∀ reference ∈ tx.discardedStagedReferences,
      ¬ Straddles space.highWaterBlocks reference) (x : Nat) :
    coverage (commitBooks space tx) x =
      stagedBlocks space tx.readers tx.staging.stagingNextBlock x := by
  have balance := books.balance x
  have more := coverage_eligibleRuns_mono kept x
  have bound := stagedBlocks_le_one space tx.readers tx.staging.stagingNextBlock x
  rw [commitBooks, coverage_append, coverage_toRun, coverage_commitFreeRuns books.initialized,
    coverage_discarded_kept contained]
  simp only [stagedBlocks, coverage_append, coverage_initialStagingRuns] at *
  by_cases behind : space.highWaterBlocks ≤ x
  · -- behind the high water the staging books alone decide
    have committed := space.coverage_beyond behind
    have before := coverage_filter_le (ExtentRun.eligible initialReaders) space.retiredRuns x
    have now := coverage_filter_le (ExtentRun.eligible tx.readers) space.retiredRuns x
    rw [← coverage_eligibleRuns] at before now
    split <;> omega
  · -- below it every held block was free or eligible, and is one of the reclaimed blocks
    have tail : between space.highWaterBlocks tx.staging.stagingNextBlock x = 0 :=
      between_eq_zero (by omega)
    split <;> omega

/-- A straddling discarded chunk leaves the first block behind the high water in no book. -/
theorem commitBooks_of_straddling {tx : BlobTransaction} {initialReaders : List Nat}
    (books : StagingBooks space initialReaders tx.staging
      (pendingChunks tx.blobs ++ tx.discardedStagedReferences))
    {reference : ExtentReference} (member : reference ∈ tx.discardedStagedReferences)
    (straddles : Straddles space.highWaterBlocks reference) :
    coverage (commitBooks space tx) space.highWaterBlocks = 0 ∧
      stagedBlocks space tx.readers tx.staging.stagingNextBlock space.highWaterBlocks = 1 := by
  obtain ⟨lower, upper⟩ := straddles
  have balance := books.balance space.highWaterBlocks
  have bound := stagedBlocks_le_one space initialReaders tx.staging.stagingNextBlock
    space.highWaterBlocks
  have committed := space.coverage_beyond (Nat.le_refl space.highWaterBlocks)
  have initial : ∀ readers,
      coverage (initialStagingRuns space readers) space.highWaterBlocks = 0 := fun readers => by
    have := coverage_initialStagingRuns_le space readers space.highWaterBlocks
    omega
  have covered : span reference space.highWaterBlocks = 1 :=
    span_eq_one ⟨Nat.le_of_lt lower, upper⟩
  -- the chunk is among the references commit drops
  have dropped : span reference space.highWaterBlocks ≤
      coverage (tx.discardedStagedReferences.filter fun other =>
        !decide (space.highWaterBlocks ≤ other.blockIndex)) space.highWaterBlocks := by
    apply span_le_coverage
    exact List.mem_filter.2 ⟨member, by simpa using lower⟩
  have parts := coverage_filter_add
    (fun other : ExtentReference => decide (space.highWaterBlocks ≤ other.blockIndex))
    tx.discardedStagedReferences space.highWaterBlocks
  rw [commitBooks, coverage_append, coverage_toRun, coverage_commitFreeRuns books.initialized]
  simp only [stagedBlocks, coverage_append, initial, le_refl, if_true] at *
  refine ⟨?_, by omega⟩
  split <;> omega

/-- **The books of a commit.**  After any history of Blob operations in one write transaction
that leaves no writer open, the free list just before the first allocation and the chunks of the
pending Blobs split the committed free runs, the eligible retired runs and the tail exactly when
no discarded chunk straddles the committed high water. -/
theorem commit_partition_iff (space : CommittedSpace L) (start : BlobTransaction)
    (fresh : start.Fresh) (ops : List BlobOp)
    (ready : (start.run space ops).readyToCommit = true) :
    Tiles (commitBooks space (start.run space ops))
        (commitBlocks space (start.run space ops).readers
          (max space.highWaterBlocks (start.run space ops).staging.stagingNextBlock)) ↔
      ∀ reference ∈ (start.run space ops).discardedStagedReferences,
        ¬ Straddles space.highWaterBlocks reference := by
  have inv : (start.run space ops).Inv space := BlobTransaction.run_inv fresh.inv ops
  generalize start.run space ops = tx at ready inv ⊢
  have held := BlobTransaction.held_of_ready ready
  rw [tiles_commitBlocks_iff]
  have staged := inv.books
  rw [held] at staged
  rcases staged with ⟨untouched, unused, nothing⟩ | ⟨initialReaders, kept, books⟩
  · obtain ⟨noPending, noDiscarded⟩ := List.append_eq_nil_iff.1 nothing
    rw [noDiscarded]
    refine ⟨fun _ => by simp, fun _ x => ?_⟩
    rw [commitBooks, commitFreeRuns, noPending, unused]
    simp only [untouched, Bool.false_eq_true, if_false, List.map_nil, List.append_nil,
      stagedBlocks, Nat.max_zero, between_self, coverage_reclaimedRuns]
    rfl
  · rw [Nat.max_eq_right books.grown]
    constructor
    · intro same reference member straddles
      obtain ⟨lost, wanted⟩ := commitBooks_of_straddling books member straddles
      have := same space.highWaterBlocks
      omega
    · exact commitBooks_of_contained kept books

/-! ## A chunk across the high water

Blocks of 512 bytes; the committed map ends at block 131 and has one free run, block 130.  A chunk
of two blocks fails to be written behind the high water, so its blocks join the free run; the
retry takes blocks 130 and 131; then the finished Blob is erased. -/

namespace Straddling

/-- A committed map with one extent and one free block. -/
def committed : CommittedSpace Limits.smallQuantum where
  generation := 2
  highWaterBlocks := 131
  reachable :=
    [{ blockIndex := 128, blockCount := 2, encodedLength := 600, creationGeneration := 2 }]
  freeRuns := [{ start := 130, count := 1 }]
  retiredRuns := []
  partitioned := by decide
  retirement := by simp

def id : BlobId := ⟨List.replicate 16 0, rfl⟩

/-- Four hundred bytes stored as they are. -/
def input (fault : Option StageFault) : StageInput :=
  { storedBytes := 400, image := fun _ => 0, fault }

def start : BlobTransaction :=
  { blobs := Keyed.empty, readers := [], fileBytes := 131 * 512 }

theorem start_fresh : start.Fresh :=
  ⟨rfl, by simp [start, Keyed.empty], rfl, rfl, rfl, rfl⟩

def staged : List BlobOp :=
  [.createBlob (some id), .write id (List.replicate 400 0) (fun _ => input none),
    .finish id (input (some (.write 0))) false, .finish id (input none) false]

def erased : List BlobOp := staged ++ [.eraseBlob id]

/-- The split of the usable blocks after the given history. -/
def Splits (ops : List BlobOp) : Prop :=
  Tiles (commitBooks committed (start.run committed ops))
    (commitBlocks committed (start.run committed ops).readers
      (max committed.highWaterBlocks (start.run committed ops).staging.stagingNextBlock))

end Straddling

theorem commit_partition_staged :
    Straddling.start.Fresh ∧
      (Straddling.start.run Straddling.committed Straddling.staged).readyToCommit = true ∧
      Straddling.Splits Straddling.staged :=
  ⟨Straddling.start_fresh, by decide +kernel,
    (commit_partition_iff Straddling.committed Straddling.start Straddling.start_fresh
      Straddling.staged (by decide +kernel)).2 (by decide +kernel)⟩

/-- Erasing the Blob discards the chunk across the boundary, and block 131 is in no book. -/
theorem commit_partition_fails :
    Straddling.start.Fresh ∧
      (Straddling.start.run Straddling.committed Straddling.erased).readyToCommit = true ∧
      ¬ Straddling.Splits Straddling.erased := by
  refine ⟨Straddling.start_fresh, by decide +kernel, ?_⟩
  intro tiles
  have lost : coverage (commitBooks Straddling.committed
      (Straddling.start.run Straddling.committed Straddling.erased)) 131 = 0 := by
    decide +kernel
  have wanted := tiles.1 131 (Or.inr (Or.inr (by decide +kernel)))
  omega

end Miare
