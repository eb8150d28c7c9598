import Miare.Allocator.Proofs.Runs
import Miare.Blob.Staging

/-!
# The books of the staging allocator

While a transaction stages Blob chunks, its free list and the references it holds split the
blocks the allocator started with and the blocks by which it grew the file.
-/

namespace Miare

open Misc

variable {L : Limits} {space : CommittedSpace L}

namespace CommittedSpace

theorem coverage_le_one (space : CommittedSpace L) (x : Nat) :
    coverage space.reachable x + coverage space.freeRuns x + coverage space.retiredRuns x ≤ 1 := by
  rw [validateAllocatorPartition_ok space.partitioned x]
  exact between_le_one _ _ x

theorem coverage_beyond (space : CommittedSpace L) {x : Nat} (beyond : space.highWaterBlocks ≤ x) :
    coverage space.reachable x + coverage space.freeRuns x + coverage space.retiredRuns x = 0 := by
  rw [validateAllocatorPartition_ok space.partitioned x, between_eq_zero (by omega)]

end CommittedSpace

/-! ## Eligibility under changing readers -/

theorem oldestReaderGeneration_le {readers : List Nat} {reader : Nat} (live : reader ∈ readers) :
    oldestReaderGeneration readers ≤ reader := by
  have fold : ∀ (rest : List Nat) (bound : Nat), rest.foldl min bound ≤ bound ∧
      ∀ entry ∈ rest, rest.foldl min bound ≤ entry := by
    intro rest
    induction rest with
    | nil => simp
    | cons head rest ih =>
      intro bound
      obtain ⟨below, each⟩ := ih (min bound head)
      refine ⟨Nat.le_trans below (Nat.min_le_left _ _), ?_⟩
      intro entry member
      rcases List.mem_cons.1 member with rfl | member
      · exact Nat.le_trans below (Nat.min_le_right _ _)
      · exact each entry member
  exact (fold readers uint64Max).2 reader live

theorem le_oldestReaderGeneration {readers : List Nat} {bound : Nat} (small : bound ≤ uint64Max)
    (below : ∀ reader ∈ readers, bound ≤ reader) : bound ≤ oldestReaderGeneration readers := by
  unfold oldestReaderGeneration
  generalize uint64Max = limit at small
  induction readers generalizing limit with
  | nil => exact small
  | cons head rest ih =>
    refine ih (fun reader member => below reader (by simp [member])) _ ?_
    exact Nat.le_min.2 ⟨small, below head (by simp)⟩

theorem oldestReaderGeneration_le_max (readers : List Nat) :
    oldestReaderGeneration readers ≤ uint64Max := by
  unfold oldestReaderGeneration
  generalize uint64Max = limit
  induction readers generalizing limit with
  | nil => exact Nat.le_refl _
  | cons head rest ih => exact Nat.le_trans (ih _) (Nat.min_le_left _ _)

theorem eligible_iff {readers : List Nat} {run : ExtentRun} :
    run.eligible readers = true ↔
      run.retirementGeneration ≤ uint64Max ∧
        ∀ reader ∈ readers, run.retirementGeneration ≤ reader := by
  simp only [ExtentRun.eligible, decide_eq_true_eq]
  constructor
  · intro eligible
    refine ⟨Nat.le_trans eligible (oldestReaderGeneration_le_max readers), ?_⟩
    intro reader live
    exact Nat.le_trans eligible (oldestReaderGeneration_le live)
  · rintro ⟨small, below⟩
    exact le_oldestReaderGeneration small below

theorem coverage_eligibleRuns (readers : List Nat) (runs : List ExtentRun) (x : Nat) :
    coverage (eligibleRuns readers runs) x =
      coverage (runs.filter (ExtentRun.eligible readers)) x :=
  coverage_map_plain _ x

/-- More eligible runs, more blocks. -/
theorem coverage_eligibleRuns_mono {before now : List Nat} {runs : List ExtentRun}
    (kept : ∀ run ∈ runs, run.eligible before = true → run.eligible now = true) (x : Nat) :
    coverage (eligibleRuns before runs) x ≤ coverage (eligibleRuns now runs) x := by
  rw [coverage_eligibleRuns, coverage_eligibleRuns]
  induction runs with
  | nil => simp
  | cons run rest ih =>
    have tail := ih fun other member => kept other (List.mem_cons_of_mem _ member)
    have head := kept run List.mem_cons_self
    cases old : run.eligible before
    · cases new : run.eligible now
      · simpa [List.filter_cons, old, new] using tail
      · simp only [List.filter_cons, old, new, if_true, Bool.false_eq_true, if_false,
          coverage_cons]
        omega
    · simp only [List.filter_cons, old, head old, if_true, coverage_cons]
      omega

/-! ## The invariant -/

/-- The blocks a staging allocator that was initialised under `readers` starts with. -/
theorem coverage_initialStagingRuns (space : CommittedSpace L) (readers : List Nat) (x : Nat) :
    coverage (initialStagingRuns space readers) x =
      coverage space.freeRuns x + coverage (eligibleRuns readers space.retiredRuns) x := by
  rw [initialStagingRuns, coverage_coalesceBlobStagingFreeRuns, coverage_append]

theorem coverage_initialStagingRuns_le (space : CommittedSpace L) (readers : List Nat) (x : Nat) :
    coverage (initialStagingRuns space readers) x ≤
      coverage space.freeRuns x + coverage space.retiredRuns x := by
  rw [coverage_initialStagingRuns, coverage_eligibleRuns]
  have := coverage_filter_le (ExtentRun.eligible readers) space.retiredRuns x
  omega

/-- One block map entry per block: the committed free and eligible blocks, then the tail up to
`nextBlock`. -/
def stagedBlocks (space : CommittedSpace L) (readers : List Nat) (nextBlock x : Nat) : Nat :=
  coverage (initialStagingRuns space readers) x + between space.highWaterBlocks nextBlock x

theorem stagedBlocks_le_one (space : CommittedSpace L) (readers : List Nat)
    (nextBlock x : Nat) :
    stagedBlocks space readers nextBlock x ≤ 1 := by
  have initial := coverage_initialStagingRuns_le space readers x
  have committed := space.coverage_le_one x
  have atMost := between_le_one space.highWaterBlocks nextBlock x
  unfold stagedBlocks
  by_cases beyond : space.highWaterBlocks ≤ x
  · have := space.coverage_beyond beyond
    omega
  · have : between space.highWaterBlocks nextBlock x = 0 := between_eq_zero (by omega)
    omega

/-- An initialised allocator whose unreleased references are `held`. -/
structure StagingBooks (space : CommittedSpace L) (initialReaders : List Nat)
    (state : StagingAllocator) (held : List ExtentReference) : Prop where
  initialized : state.allocatorInitialized = true
  ascending : Ascending state.stagingFreeRuns
  grown : space.highWaterBlocks ≤ state.stagingNextBlock
  nonempty : ∀ reference ∈ held, 0 < reference.blockCount
  balance : ∀ x, coverage state.stagingFreeRuns x + coverage held x =
    stagedBlocks space initialReaders state.stagingNextBlock x

/-- The allocator of a transaction: untouched, or initialised under readers with a property. -/
def StagingInvFor (space : CommittedSpace L) (initial : List Nat → Prop) (state : StagingAllocator)
    (held : List ExtentReference) : Prop :=
  (state.allocatorInitialized = false ∧ state.stagingNextBlock = 0 ∧ held = []) ∨
    ∃ initialReaders, initial initialReaders ∧ StagingBooks space initialReaders state held

/-- The allocator of a transaction: untouched, or initialised under readers whose eligible runs
are still eligible. -/
def StagingInv (space : CommittedSpace L) (readers : List Nat) (state : StagingAllocator)
    (held : List ExtentReference) : Prop :=
  (state.allocatorInitialized = false ∧ state.stagingNextBlock = 0 ∧ held = []) ∨
    ∃ initialReaders, (∀ run ∈ space.retiredRuns,
        run.eligible initialReaders = true → run.eligible readers = true) ∧
      StagingBooks space initialReaders state held

theorem StagingBooks.initial (readers : List Nat) {state : StagingAllocator}
    (fresh : state.allocatorInitialized = false) :
    StagingBooks space readers (initializeBlobStagingAllocator space readers state) [] := by
  have disjoint : ∀ x, coverage
      (space.freeRuns ++ eligibleRuns readers space.retiredRuns) x ≤ 1 := by
    intro x
    rw [← coverage_coalesceBlobStagingFreeRuns]
    have := coverage_initialStagingRuns_le space readers x
    have := space.coverage_le_one x
    unfold initialStagingRuns at *
    omega
  simp only [initializeBlobStagingAllocator, fresh, Bool.false_eq_true, if_false]
  refine ⟨rfl, (coalesceBlobStagingFreeRuns_canonical disjoint).ascending, Nat.le_refl _,
    by simp, fun x => ?_⟩
  simp only [coverage_nil, stagedBlocks, between_self]

theorem StagingInvFor.initialize {initial : List Nat → Prop} {readers : List Nat}
    {state : StagingAllocator} {held : List ExtentReference}
    (inv : StagingInvFor space initial state held)
    (now : state.allocatorInitialized = false → initial readers) :
    ∃ initialReaders, initial initialReaders ∧
      StagingBooks space initialReaders
        (initializeBlobStagingAllocator space readers state) held := by
  rcases inv with ⟨fresh, -, rfl⟩ | ⟨initialReaders, kept, books⟩
  · exact ⟨readers, now fresh, StagingBooks.initial readers fresh⟩
  · refine ⟨initialReaders, kept, ?_⟩
    rwa [initializeBlobStagingAllocator, if_pos books.initialized]

theorem StagingInv.initialize {readers : List Nat} {state : StagingAllocator}
    {held : List ExtentReference} (inv : StagingInv space readers state held) :
    ∃ initialReaders, (∀ run ∈ space.retiredRuns,
        run.eligible initialReaders = true → run.eligible readers = true) ∧
      StagingBooks space initialReaders
        (initializeBlobStagingAllocator space readers state) held :=
  StagingInvFor.initialize inv fun _ _ _ eligible => eligible

namespace StagingBooks

variable {initialReaders : List Nat} {state : StagingAllocator} {held : List ExtentReference}

/-- Only the blocks of the held references count. -/
theorem congr {held' : List ExtentReference} (books : StagingBooks space initialReaders state held)
    (same : ∀ x, coverage held' x = coverage held x)
    (nonempty : ∀ reference ∈ held', 0 < reference.blockCount) :
    StagingBooks space initialReaders state held' :=
  ⟨books.initialized, books.ascending, books.grown, nonempty, fun x => by
    rw [same]; exact books.balance x⟩

/-- Reserving blocks moves them from the free list, or from behind it, to the held ones. -/
theorem reserve (books : StagingBooks space initialReaders state held) {count : Nat}
    (positive : 0 < count) (reserved : ExtentReference)
    (blockIndex : reserved.blockIndex = (state.pool.allocateBlocks count).1)
    (blockCount : reserved.blockCount = count) :
    StagingBooks space initialReaders
      { state with
        stagingFreeRuns := (state.pool.allocateBlocks count).2.freeRuns
        stagingNextBlock := (state.pool.allocateBlocks count).2.nextBlock }
      (reserved :: held) := by
  have further := allocateBlocks_nextBlock state.pool count
  refine ⟨books.initialized, allocateBlocks_ascending count books.ascending,
    Nat.le_trans books.grown further, ?_, fun x => ?_⟩
  · intro reference member
    rcases List.mem_cons.1 member with rfl | member
    · omega
    · exact books.nonempty reference member
  · have before := books.balance x
    have moved := allocateBlocks_coverage state.pool count x
    have grown := books.grown
    generalize state.pool.allocateBlocks count = taken at *
    simp only [StagingAllocator.pool] at moved further
    have tail := between_split grown further x
    simp only [coverage_cons, span_reference, blockIndex, blockCount, stagedBlocks] at before ⊢
    omega

/-- Giving a held reference back moves its blocks to the free list. -/
theorem giveBack {reference : ExtentReference}
    (books : StagingBooks space initialReaders state (reference :: held)) :
    StagingBooks space initialReaders
      { state with
        stagingFreeRuns := insertBlobStagingFreeRun state.stagingFreeRuns reference.toRun }
      held := by
  have span_eq : ∀ x, span reference.toRun x = span reference x := fun x =>
    span_congr rfl rfl x
  have positive : 0 < reference.toRun.count := books.nonempty reference (by simp)
  obtain ⟨blocks, ascending⟩ := insertBlobStagingFreeRun_spec books.ascending positive
    (fun x => by
      have balance := books.balance x
      have bound := stagedBlocks_le_one space initialReaders state.stagingNextBlock x
      rw [coverage_cons] at balance
      rw [span_eq]
      omega)
  refine ⟨books.initialized, ascending, books.grown,
    fun other member => books.nonempty other (by simp [member]), fun x => ?_⟩
  have balance := books.balance x
  rw [coverage_cons] at balance
  simp only [blocks, span_eq]
  omega

theorem release {reference : ExtentReference}
    (books : StagingBooks space initialReaders state (reference :: held)) :
    StagingBooks space initialReaders (releaseBlobStagingReference state reference) held := by
  obtain ⟨initialized, ascending, grown, nonempty, balance⟩ := books.giveBack
  exact ⟨initialized, ascending, grown, nonempty, balance⟩

end StagingBooks

end Miare
