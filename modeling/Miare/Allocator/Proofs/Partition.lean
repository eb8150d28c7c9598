import Miare.Allocator.Proofs.Runs

/-!
# The partition check decides

`validateAllocatorPartition` accepts a block map exactly when its ranges are well formed and
share the blocks behind the common region out among them.  `validateAllocatorPartition_ok` is one
half; here the sweep is shown to reach the high-water mark whenever it should, and the machine
words of the cursor are shown not to wrap.
-/

namespace Miare

open Misc

variable {commonBlocks highWaterBlocks : Nat} {reachable : List ExtentReference}
  {freeRuns retiredRuns : List ExtentRun}

theorem partitionRangeOk_iff {run : ExtentRun} :
    partitionRangeOk commonBlocks highWaterBlocks run = true ↔
      Inside commonBlocks highWaterBlocks run := by
  simp only [partitionRangeOk, Inside, ExtentRun.first_eq, ExtentRun.size_eq, Bool.not_eq_true',
    Bool.or_eq_false_iff, decide_eq_false_iff_not, beq_eq_false_iff_ne]
  omega

/-- Over ranges that end at or below a 64-bit mark the cursor never wraps. -/
theorem sweepWords_eq {intervals : List ExtentRun} (fits : highWaterBlocks ≤ uint64Max)
    (ends : ∀ interval ∈ intervals, interval.start + interval.count ≤ highWaterBlocks)
    (cursor : Nat) : sweepWords cursor intervals = sweepIntervals cursor intervals := by
  induction intervals generalizing cursor with
  | nil => rfl
  | cons interval rest ih =>
    have here := ends interval List.mem_cons_self
    have tail := ih fun other member => ends other (List.mem_cons_of_mem _ member)
    simp only [sweepWords, sweepIntervals]
    by_cases below : interval.start < cursor
    · rw [if_pos below, if_pos below]
    · rw [if_neg below, if_neg below]
      by_cases above : interval.start ≠ cursor
      · rw [if_pos above, if_pos above]
      · rw [if_neg above, if_neg above, tail, Nat.mod_eq_of_lt]
        unfold uint64Max at fits
        omega

/-- Ranges in order of their starts that fill `[cursor, highWaterBlocks)` are swept to its end. -/
theorem sweepIntervals_complete {intervals : List ExtentRun} {cursor : Nat}
    (sorted : intervals.Pairwise fun left right => left.start ≤ right.start)
    (positive : ∀ interval ∈ intervals, 0 < interval.count)
    (ends : ∀ interval ∈ intervals, interval.start + interval.count ≤ highWaterBlocks)
    (order : cursor ≤ highWaterBlocks)
    (fills : ∀ x, coverage intervals x = between cursor highWaterBlocks x) :
    sweepIntervals cursor intervals = .ok highWaterBlocks := by
  induction intervals generalizing cursor with
  | nil =>
    have empty := fills cursor
    rw [coverage_nil] at empty
    have reached : cursor = highWaterBlocks := by
      by_contra short
      rw [between_eq_one ⟨le_rfl, by omega⟩] at empty
      cases empty
    rw [sweepIntervals, reached]
  | cons interval rest ih =>
    obtain ⟨least, sorted⟩ := List.pairwise_cons.1 sorted
    have some := positive interval List.mem_cons_self
    have here := ends interval List.mem_cons_self
    have starts : interval.start = cursor := first_eq_of_fills fills some least
    rw [starts] at here
    have tail := ih sorted
      (fun other member => positive other (List.mem_cons_of_mem _ member))
      (fun other member => ends other (List.mem_cons_of_mem _ member)) here
      (fills_tail fills starts here)
    rw [sweepIntervals, if_neg (by omega), if_neg (by omega), tail]

/-- The intervals of the check: its three arguments one after the other. -/
theorem forall_interval_iff :
    (∀ interval ∈ reachable.map ExtentReference.toRun ++
        (freeRuns ++ retiredRuns).map fun run =>
          ({ start := run.start, count := run.count } : ExtentRun),
        Inside commonBlocks highWaterBlocks interval) ↔
      (∀ reference ∈ reachable, Inside commonBlocks highWaterBlocks reference) ∧
        (∀ run ∈ freeRuns, Inside commonBlocks highWaterBlocks run) ∧
        ∀ run ∈ retiredRuns, Inside commonBlocks highWaterBlocks run := by
  simp only [List.map_append, List.forall_mem_append, List.forall_mem_map]
  rfl

theorem coverage_intervals (reachable : List ExtentReference)
    (freeRuns retiredRuns : List ExtentRun) (x : Nat) :
    coverage (reachable.map ExtentReference.toRun ++
        (freeRuns ++ retiredRuns).map fun run =>
          ({ start := run.start, count := run.count } : ExtentRun)) x =
      coverage reachable x + coverage freeRuns x + coverage retiredRuns x := by
  rw [coverage_append, coverage_toRun, coverage_map_plain, coverage_append, Nat.add_assoc]

/-- Below a 64-bit mark the words of the source compute the check over natural numbers. -/
theorem validateAllocatorPartitionWords_eq (fits : highWaterBlocks ≤ uint64Max)
    (reachable : List ExtentReference) (freeRuns retiredRuns : List ExtentRun) :
    validateAllocatorPartitionWords commonBlocks highWaterBlocks reachable freeRuns retiredRuns =
      validateAllocatorPartition commonBlocks highWaterBlocks reachable freeRuns retiredRuns := by
  unfold validateAllocatorPartitionWords validateAllocatorPartition
  dsimp only
  split
  · rename_i bounded
    rw [sweepWords_eq fits fun interval member => ?_]
    rw [mem_sortByStart] at member
    exact (partitionRangeOk_iff.1 (List.all_eq_true.1 bounded interval member)).2.2
  · rfl

/-- A block map whose ranges are well formed and fill the space behind the common region is
accepted. -/
theorem validateAllocatorPartition_complete (order : commonBlocks ≤ highWaterBlocks)
    (references : ∀ reference ∈ reachable, Inside commonBlocks highWaterBlocks reference)
    (free : ∀ run ∈ freeRuns, Inside commonBlocks highWaterBlocks run)
    (retired : ∀ run ∈ retiredRuns, Inside commonBlocks highWaterBlocks run)
    (fills : ∀ x, coverage reachable x + coverage freeRuns x + coverage retiredRuns x =
      between commonBlocks highWaterBlocks x) :
    validateAllocatorPartition commonBlocks highWaterBlocks reachable freeRuns retiredRuns =
      .ok () := by
  have bounded := forall_interval_iff.2 ⟨references, free, retired⟩
  unfold validateAllocatorPartition
  rw [if_pos (List.all_eq_true.2 fun interval member =>
    partitionRangeOk_iff.2 (bounded interval member))]
  rw [sweepIntervals_complete (sortByStart_sorted _)
    (fun interval member => (bounded interval (mem_sortByStart.1 member)).1)
    (fun interval member => (bounded interval (mem_sortByStart.1 member)).2.2) order]
  · simp only [ne_eq, not_true_eq_false, if_false]
  · intro x
    rw [coverage_sortByStart, coverage_intervals, fills]

/-- An accepted block map has no empty range and none that leaves the space. -/
theorem validateAllocatorPartition_inside
    (accepted : validateAllocatorPartition commonBlocks highWaterBlocks reachable freeRuns
      retiredRuns = .ok ()) :
    (∀ reference ∈ reachable, Inside commonBlocks highWaterBlocks reference) ∧
      (∀ run ∈ freeRuns, Inside commonBlocks highWaterBlocks run) ∧
      ∀ run ∈ retiredRuns, Inside commonBlocks highWaterBlocks run := by
  unfold validateAllocatorPartition at accepted
  dsimp only at accepted
  split at accepted
  · rename_i bounded
    apply forall_interval_iff.1
    intro interval member
    exact partitionRangeOk_iff.1 (List.all_eq_true.1 bounded interval member)
  · cases accepted

/-- Inside the space, to fill it means that each of its blocks lies in exactly one range. -/
theorem fills_iff_once
    (references : ∀ reference ∈ reachable, Inside commonBlocks highWaterBlocks reference)
    (free : ∀ run ∈ freeRuns, Inside commonBlocks highWaterBlocks run)
    (retired : ∀ run ∈ retiredRuns, Inside commonBlocks highWaterBlocks run) :
    (∀ x, coverage reachable x + coverage freeRuns x + coverage retiredRuns x =
        between commonBlocks highWaterBlocks x) ↔
      ∀ block, commonBlocks ≤ block → block < highWaterBlocks →
        coverage reachable block + coverage freeRuns block + coverage retiredRuns block = 1 := by
  constructor
  · intro fills block lower upper
    rw [fills, between_eq_one ⟨lower, upper⟩]
  · intro once x
    by_cases space : commonBlocks ≤ x ∧ x < highWaterBlocks
    · rw [once x space.1 space.2, between_eq_one space]
    · rw [between_eq_zero space, coverage_outside references space, coverage_outside free space,
        coverage_outside retired space]

/-- The check accepts a block map exactly when each range of its three lists is not empty and lies
between the common region and the high-water mark, and each block between them lies in exactly
one range. -/
theorem validateAllocatorPartition_decides {commonBlocks highWaterBlocks : Nat}
    (order : commonBlocks ≤ highWaterBlocks) (fits : highWaterBlocks ≤ uint64Max)
    (reachable : List ExtentReference) (freeRuns retiredRuns : List ExtentRun) :
    validateAllocatorPartitionWords commonBlocks highWaterBlocks reachable freeRuns
        retiredRuns = .ok () ↔
      ((∀ reference ∈ reachable, Inside commonBlocks highWaterBlocks reference) ∧
        (∀ run ∈ freeRuns, Inside commonBlocks highWaterBlocks run) ∧
        ∀ run ∈ retiredRuns, Inside commonBlocks highWaterBlocks run) ∧
      ∀ block, commonBlocks ≤ block → block < highWaterBlocks →
        coverage reachable block + coverage freeRuns block + coverage retiredRuns block = 1 := by
  rw [validateAllocatorPartitionWords_eq fits]
  constructor
  · intro accepted
    obtain ⟨references, free, retired⟩ := validateAllocatorPartition_inside accepted
    exact ⟨⟨references, free, retired⟩,
      (fills_iff_once references free retired).1 (validateAllocatorPartition_ok accepted)⟩
  · rintro ⟨⟨references, free, retired⟩, once⟩
    exact validateAllocatorPartition_complete order references free retired
      ((fills_iff_once references free retired).2 once)

/-- Space up to the last 64-bit block: a reference and a free run that meet, and a retired run
that reaches the mark. -/
theorem validateAllocatorPartition_decides_last :
    validateAllocatorPartitionWords 16 uint64Max
        [{ blockIndex := 16, blockCount := 4 }] [{ start := 20, count := 10 }]
        [{ start := 30, count := uint64Max - 30, retirementGeneration := 7 }] = .ok () ∧
      ∀ block, 16 ≤ block → block < uint64Max →
        coverage [({ blockIndex := 16, blockCount := 4 } : ExtentReference)] block +
          coverage [({ start := 20, count := 10 } : ExtentRun)] block +
          coverage [({ start := 30, count := uint64Max - 30, retirementGeneration := 7 } :
            ExtentRun)] block = 1 := by
  have accepted : validateAllocatorPartitionWords 16 uint64Max
      [{ blockIndex := 16, blockCount := 4 }] [{ start := 20, count := 10 }]
      [{ start := 30, count := uint64Max - 30, retirementGeneration := 7 }] = .ok () := by
    decide
  exact ⟨accepted, ((validateAllocatorPartition_decides (by decide) (by decide) _ _ _).1
    accepted).2⟩

end Miare
