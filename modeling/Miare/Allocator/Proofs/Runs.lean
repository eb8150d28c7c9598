import Miare.Allocator.Runs

/-!
# Coverage of the allocator's run lists

One specification lemma per list operation: what it does to the number of runs over each
block, and when it keeps the runs ascending.
-/

namespace Miare

open Misc

variable {runs : List ExtentRun}

theorem span_run (run : ExtentRun) (x : Nat) :
    span run x = between run.start (run.start + run.count) x := rfl

theorem span_mk (start count generation x : Nat) :
    span (ExtentRun.mk start count generation) x = between start (start + count) x := rfl

theorem span_reference (reference : ExtentReference) (x : Nat) :
    span reference x =
      between reference.blockIndex (reference.blockIndex + reference.blockCount) x := rfl

/-- The retirement generation plays no part in coverage. -/
theorem coverage_map_plain (runs : List ExtentRun) (x : Nat) :
    coverage (runs.map fun run => ({ start := run.start, count := run.count } : ExtentRun)) x =
      coverage runs x :=
  coverage_map (fun run : ExtentRun => ({ start := run.start, count := run.count } : ExtentRun))
    (fun _ => rfl) (fun _ => rfl) runs x

/-! ## Sorting and coalescing -/

theorem sortByStart_perm (runs : List ExtentRun) : (sortByStart runs).Perm runs :=
  List.perm_insertionSort _ runs

theorem coverage_sortByStart (runs : List ExtentRun) (x : Nat) :
    coverage (sortByStart runs) x = coverage runs x :=
  coverage_perm (sortByStart_perm runs) x

theorem mem_sortByStart {run : ExtentRun} :
    run ∈ sortByStart runs ↔ run ∈ runs :=
  (sortByStart_perm runs).mem_iff

theorem sortByStart_sorted (runs : List ExtentRun) :
    (sortByStart runs).Pairwise fun left right => left.start ≤ right.start := by
  exact List.pairwise_insertionSort _ runs

theorem coverage_appendCoalesced (coalesced : List ExtentRun) (run : ExtentRun) (x : Nat) :
    coverage (appendCoalesced coalesced run) x = coverage coalesced x + span run x := by
  cases coalesced with
  | nil => simp [appendCoalesced]
  | cons back rest =>
    by_cases touching : back.limit = run.start
    · simp only [appendCoalesced, touching, if_true, coverage_cons, span_run]
      simp only [ExtentRun.limit] at touching
      have := between_split (Nat.le_add_right back.start back.count)
        (Nat.le_add_right (back.start + back.count) run.count) x
      rw [← touching, ← Nat.add_assoc]
      omega
    · simp only [appendCoalesced, touching, if_false, coverage_cons]
      omega

theorem coverage_foldl_appendCoalesced (runs coalesced : List ExtentRun) (x : Nat) :
    coverage (runs.foldl appendCoalesced coalesced) x =
      coverage coalesced x + coverage runs x := by
  induction runs generalizing coalesced with
  | nil => simp
  | cons run runs ih =>
    rw [List.foldl_cons, ih, coverage_appendCoalesced, coverage_cons]
    omega

theorem coverage_coalesceSorted (runs : List ExtentRun) (x : Nat) :
    coverage (coalesceSorted runs) x = coverage runs x := by
  rw [coalesceSorted, coverage_reverse, coverage_foldl_appendCoalesced, coverage_nil]
  omega

theorem coverage_coalesceEligible (runs : List ExtentRun) (x : Nat) :
    coverage (coalesceEligible runs) x = coverage runs x := by
  rw [coalesceEligible, coverage_coalesceSorted, coverage_sortByStart]

theorem coverage_coalesceBlobStagingFreeRuns (runs : List ExtentRun) (x : Nat) :
    coverage (coalesceBlobStagingFreeRuns runs) x = coverage runs x := by
  rw [coalesceBlobStagingFreeRuns, coverage_coalesceSorted, coverage_filter_eq,
    coverage_sortByStart]
  rintro run - empty ⟨lower, upper⟩
  have zero : run.count = 0 := by simpa using empty
  simp only [ExtentRun.first_eq, ExtentRun.size_eq] at lower upper
  omega

/-- A canonical run list: nonempty runs, ascending, no two of them adjacent. -/
def Canonical (runs : List ExtentRun) : Prop :=
  (∀ run ∈ runs, 0 < run.count) ∧ runs.Pairwise fun left right => left.limit < right.start

theorem Canonical.ascending (canonical : Canonical runs) :
    Ascending runs :=
  canonical.2.imp fun below => Nat.le_of_lt below

/-- Sorted nonempty runs without common blocks are ascending. -/
theorem ascending_of_disjoint (sorted : runs.Pairwise fun left right => left.start ≤ right.start)
    (nonempty : ∀ run ∈ runs, 0 < run.count) (disjoint : ∀ x, coverage runs x ≤ 1) :
    Ascending runs := by
  induction runs with
  | nil => exact List.Pairwise.nil
  | cons run runs ih =>
    obtain ⟨first, rest⟩ := List.pairwise_cons.1 sorted
    have tail : ∀ x, coverage runs x ≤ 1 := fun x => by
      have := disjoint x
      rw [coverage_cons] at this
      omega
    refine ascending_cons.2 ⟨?_, ih rest (fun other h => nonempty other (by simp [h])) tail⟩
    intro other member
    by_contra overlap
    simp only [ExtentRun.first_eq, ExtentRun.size_eq, not_le] at overlap
    -- the first block of `other` would lie in both runs
    have twice := disjoint other.start
    have inner := span_le_coverage member other.start
    have positive := nonempty other (by simp [member])
    have order := first other member
    rw [span_run, between_eq_one (by omega)] at inner
    rw [coverage_cons, span_run, between_eq_one ⟨order, overlap⟩] at twice
    omega

/-- The coalescing loop read forwards: `back` is the run still open at its end. -/
def coalesceFrom (back : ExtentRun) : List ExtentRun → List ExtentRun
  | [] => [back]
  | run :: rest =>
    if back.limit = run.start then
      coalesceFrom { back with count := back.count + run.count } rest
    else
      back :: coalesceFrom run rest

theorem foldl_appendCoalesced (runs rest : List ExtentRun) (back : ExtentRun) :
    (runs.foldl appendCoalesced (back :: rest)).reverse =
      rest.reverse ++ coalesceFrom back runs := by
  induction runs generalizing back rest with
  | nil => simp [coalesceFrom]
  | cons run runs ih =>
    rw [List.foldl_cons]
    by_cases touching : back.limit = run.start
    · simp only [appendCoalesced, touching, if_true, ih, coalesceFrom]
    · simp only [appendCoalesced, touching, if_false, ih, coalesceFrom, List.reverse_cons,
        List.append_assoc, List.singleton_append]

theorem coalesceSorted_cons (run : ExtentRun) (runs : List ExtentRun) :
    coalesceSorted (run :: runs) = coalesceFrom run runs :=
  foldl_appendCoalesced runs [] run

/-- Every run of the coalesced list begins where the open run or a later run begins. -/
theorem coalesceFrom_start {back run : ExtentRun} (member : run ∈ coalesceFrom back runs) :
    run.start = back.start ∨ ∃ other ∈ runs, run.start = other.start := by
  induction runs generalizing back with
  | nil =>
    simp only [coalesceFrom, List.mem_singleton] at member
    exact Or.inl (by rw [member])
  | cons next rest ih =>
    simp only [coalesceFrom] at member
    split at member
    · rcases ih member with same | ⟨other, later, same⟩
      · exact Or.inl same
      · exact Or.inr ⟨other, List.mem_cons_of_mem _ later, same⟩
    · rcases List.mem_cons.1 member with rfl | member
      · exact Or.inl rfl
      · rcases ih member with same | ⟨other, later, same⟩
        · exact Or.inr ⟨next, List.mem_cons_self, same⟩
        · exact Or.inr ⟨other, List.mem_cons_of_mem _ later, same⟩

theorem coalesceFrom_canonical {back : ExtentRun} (nonempty : ∀ run ∈ back :: runs, 0 < run.count)
    (ascending : Ascending (back :: runs)) :
    Canonical (coalesceFrom back runs) := by
  induction runs generalizing back with
  | nil => exact ⟨by simpa [coalesceFrom] using nonempty, by simp [coalesceFrom]⟩
  | cons next rest ih =>
    obtain ⟨below, tail⟩ := ascending_cons.1 ascending
    obtain ⟨nextBelow, restAscending⟩ := ascending_cons.1 tail
    simp only [ExtentRun.first_eq, ExtentRun.size_eq] at below nextBelow
    have backPos := nonempty back (by simp)
    have restPos : ∀ run ∈ rest, 0 < run.count := fun run h => nonempty run (by simp [h])
    by_cases touching : back.limit = next.start
    · simp only [coalesceFrom, touching, if_true]
      simp only [ExtentRun.limit] at touching
      apply ih
      · intro run member
        rcases List.mem_cons.1 member with rfl | member
        · exact Nat.add_pos_left backPos _
        · exact restPos run member
      · refine ascending_cons.2 ⟨fun run member => ?_, restAscending⟩
        have := nextBelow run member
        simp only [ExtentRun.first_eq, ExtentRun.size_eq]
        omega
    · simp only [coalesceFrom, touching, if_false]
      obtain ⟨counts, gaps⟩ := ih (fun run h => nonempty run (List.mem_cons_of_mem _ h)) tail
      refine ⟨?_, List.pairwise_cons.2 ⟨?_, gaps⟩⟩
      · intro run member
        rcases List.mem_cons.1 member with rfl | member
        · exact backPos
        · exact counts run member
      · intro run member
        have backNext := below next (by simp)
        simp only [ExtentRun.limit] at touching ⊢
        rcases coalesceFrom_start member with same | ⟨other, later, same⟩
        · omega
        · have := nextBelow other later
          omega

/-- Coalescing sorted, nonempty, disjoint runs leaves no two adjacent. -/
theorem coalesceSorted_canonical (nonempty : ∀ run ∈ runs, 0 < run.count)
    (ascending : Ascending runs) :
    Canonical (coalesceSorted runs) := by
  cases runs with
  | nil => exact ⟨by simp [coalesceSorted], by simp [coalesceSorted]⟩
  | cons run runs =>
    rw [coalesceSorted_cons]
    exact coalesceFrom_canonical nonempty ascending

theorem coalesceBlobStagingFreeRuns_canonical (disjoint : ∀ x, coverage runs x ≤ 1) :
    Canonical (coalesceBlobStagingFreeRuns runs) := by
  have nonempty : ∀ run ∈ (sortByStart runs).filter fun run => run.count ≠ 0,
      0 < run.count := by
    intro run member
    have := (List.mem_filter.1 member).2
    simp only [ne_eq, decide_eq_true_eq] at this
    omega
  refine coalesceSorted_canonical nonempty (ascending_of_disjoint ?_ nonempty fun x => ?_)
  · exact (sortByStart_sorted runs).filter _
  · have := coverage_filter_le (fun run : ExtentRun => run.count ≠ 0) (sortByStart runs) x
    rw [coverage_sortByStart] at this
    exact Nat.le_trans this (disjoint x)

/-! ## First fit and removal -/

theorem takeFirstFit_coverage {count allocated : Nat} {remaining : List ExtentRun}
    (taken : takeFirstFit count runs = some (allocated, remaining)) (x : Nat) :
    coverage runs x = coverage remaining x + between allocated (allocated + count) x := by
  induction runs generalizing remaining with
  | nil => simp [takeFirstFit] at taken
  | cons run runs ih =>
    simp only [takeFirstFit] at taken
    split at taken
    · simp only [Option.some.injEq, Prod.mk.injEq] at taken
      obtain ⟨rfl, rfl⟩ := taken
      have := between_split (Nat.le_add_right run.start count)
        (show run.start + count ≤ run.start + run.count by omega) x
      rw [coverage_cons, coverage_cons, span_run, span_mk,
        show run.start + count + (run.count - count) = run.start + run.count by omega]
      omega
    · simp only [Option.map_eq_some_iff, Prod.exists, Prod.mk.injEq] at taken
      obtain ⟨start, rest, found, rfl, rfl⟩ := taken
      have := ih found
      simp only [coverage_cons]
      omega

/-- First fit changes a list in place: same length, same ends, later starts. -/
theorem takeFirstFit_ascending {count allocated : Nat} {remaining : List ExtentRun}
    (taken : takeFirstFit count runs = some (allocated, remaining)) (ascending : Ascending runs) :
    Ascending remaining ∧
      ∀ lower, (∀ run ∈ runs, lower ≤ run.start) → ∀ run ∈ remaining, lower ≤ run.start := by
  induction runs generalizing remaining with
  | nil => simp [takeFirstFit] at taken
  | cons run runs ih =>
    obtain ⟨below, rest⟩ := ascending_cons.1 ascending
    simp only [takeFirstFit] at taken
    split at taken
    · simp only [Option.some.injEq, Prod.mk.injEq] at taken
      obtain ⟨rfl, rfl⟩ := taken
      refine ⟨ascending_cons.2 ⟨fun other member => ?_, rest⟩, ?_⟩
      · have := below other member
        simp only [ExtentRun.first_eq, ExtentRun.size_eq] at this ⊢
        omega
      · intro lower bound other member
        rcases List.mem_cons.1 member with rfl | member
        · exact Nat.le_trans (bound run (by simp)) (Nat.le_add_right _ _)
        · exact bound other (by simp [member])
    · simp only [Option.map_eq_some_iff, Prod.exists, Prod.mk.injEq] at taken
      obtain ⟨start, others, found, rfl, rfl⟩ := taken
      obtain ⟨ordered, starts⟩ := ih found rest
      refine ⟨ascending_cons.2 ⟨starts _ below, ordered⟩, ?_⟩
      intro lower bound other member
      rcases List.mem_cons.1 member with rfl | member
      · exact bound other (by simp)
      · exact starts lower (fun run h => bound run (by simp [h])) other member

/-- Allocation takes blocks out of the free list or from behind `nextBlock`. -/
theorem allocateBlocks_coverage (pool : BlockPool) (count x : Nat) :
    coverage pool.freeRuns x +
        between pool.nextBlock (pool.allocateBlocks count).2.nextBlock x =
      coverage (pool.allocateBlocks count).2.freeRuns x +
        between (pool.allocateBlocks count).1 ((pool.allocateBlocks count).1 + count) x := by
  unfold BlockPool.allocateBlocks
  split
  · rename_i allocated remaining taken
    have split := takeFirstFit_coverage taken x
    simp only [between_self]
    exact split
  · rfl

theorem allocateBlocks_nextBlock (pool : BlockPool) (count : Nat) :
    pool.nextBlock ≤ (pool.allocateBlocks count).2.nextBlock := by
  unfold BlockPool.allocateBlocks
  split
  · exact Nat.le_refl _
  · exact Nat.le_add_right _ _

theorem allocateBlocks_ascending {pool : BlockPool} (count : Nat)
    (ascending : Ascending pool.freeRuns) :
    Ascending (pool.allocateBlocks count).2.freeRuns := by
  unfold BlockPool.allocateBlocks
  split
  · rename_i allocated remaining taken
    exact (takeFirstFit_ascending taken ascending).1
  · exact ascending

/-- The run `[start, stop)`, left out when it is empty. -/
theorem coverage_between (start stop x : Nat) :
    coverage (if start < stop then [({ start, count := stop - start } : ExtentRun)] else []) x =
      between start stop x := by
  split
  · rw [coverage_cons, coverage_nil, span_mk, show start + (stop - start) = stop by omega]
    rfl
  · rw [coverage_nil, between_eq_zero (by omega)]

theorem coverage_cutRun {start stop : Nat} (order : start ≤ stop) (run : ExtentRun) (x : Nat) :
    coverage (cutRun start stop run) x =
      if start ≤ x ∧ x < stop then 0 else span run x := by
  unfold cutRun ExtentRun.limit
  by_cases apart : stop ≤ run.start ∨ run.start + run.count ≤ start
  · rw [if_pos apart, coverage_cons, coverage_nil, span_run]
    unfold between
    split_ifs <;> omega
  · rw [if_neg apart, coverage_append, coverage_between, coverage_between, span_run]
    rw [not_or, not_le, not_le] at apart
    unfold between
    split_ifs <;> omega

theorem coverage_removeRange (runs : List ExtentRun) (start count : Nat) (x : Nat) :
    coverage (removeRange runs start count) x =
      if start ≤ x ∧ x < start + count then 0 else coverage runs x := by
  induction runs with
  | nil => simp [removeRange]
  | cons run runs ih =>
    rw [removeRange] at ih ⊢
    rw [coverage_flatMap_cons, ih, coverage_cutRun (Nat.le_add_right _ _), coverage_cons]
    split <;> omega

/-- Removing several extents leaves the blocks none of them has. -/
theorem coverage_removeRanges (references : List ExtentReference) (runs : List ExtentRun)
    (x : Nat) :
    coverage (references.foldl (fun rest reference =>
        removeRange rest reference.blockIndex reference.blockCount) runs) x =
      if coverage references x = 0 then coverage runs x else 0 := by
  induction references generalizing runs with
  | nil => simp
  | cons reference references ih =>
    rw [List.foldl_cons, ih, coverage_removeRange, coverage_cons, span_reference]
    unfold between
    split_ifs <;> omega

/-! ## Insertion into the staging list -/

/-- Behind the lower bound of an ascending list no start lies below the key. -/
theorem dropWhile_start_le (ascending : Ascending runs) (key : Nat) :
    ∀ run ∈ runs.dropWhile (fun run => run.start < key), key ≤ run.start := by
  induction runs with
  | nil => simp
  | cons head rest ih =>
    obtain ⟨below, tail⟩ := ascending_cons.1 ascending
    rw [List.dropWhile_cons]
    split
    · exact ih tail
    · rename_i found
      simp only [decide_eq_true_eq, not_lt] at found
      intro run member
      rcases List.mem_cons.1 member with rfl | member
      · exact found
      · have := below run member
        simp only [ExtentRun.first_eq, ExtentRun.size_eq] at this
        omega

/-- Runs that share no block with a nonempty `position` end before it begins or begin after it
ends, unless they are empty. -/
theorem apart_of_disjoint {position run : ExtentRun} (nonempty : 0 < position.count)
    (member : run ∈ runs) (disjoint : ∀ x, coverage runs x + span position x ≤ 1) :
    run.count = 0 ∨ run.limit ≤ position.start ∨ position.limit ≤ run.start := by
  by_contra overlap
  simp only [ExtentRun.limit, not_or, not_le] at overlap
  obtain ⟨filled, left, right⟩ := overlap
  -- the later of the two starts lies in both
  have both := disjoint (max run.start position.start)
  have inner := span_le_coverage member (max run.start position.start)
  rw [span_run, between_eq_one (by omega)] at inner
  rw [span_run, between_eq_one (by omega)] at both
  omega

/-- A run grown over a touching successor covers the blocks of both. -/
theorem span_merged {left right : ExtentRun} (order : left.start ≤ right.start)
    (touching : right.start ≤ left.limit)
    (apart : right.count = 0 ∨ left.limit ≤ right.start) (x : Nat) :
    span { left with count := max left.limit right.limit - left.start } x =
      span left x + span right x := by
  unfold ExtentRun.limit at *
  rw [span_mk, span_run, span_run]
  unfold between
  split_ifs <;> omega

/-- What the absorbing loop keeps: the blocks, the order and the lower bound of the starts. -/
theorem absorbFollowing_spec {after : List ExtentRun} (position : ExtentRun)
    (nonempty : 0 < position.count) (ascending : Ascending after)
    (starts : ∀ run ∈ after, position.start ≤ run.start)
    (apart : ∀ run ∈ after, run.count = 0 ∨ position.limit ≤ run.start) :
    (∀ x, coverage (absorbFollowing position after) x =
        span position x + coverage after x) ∧
      Ascending (absorbFollowing position after) ∧
      ∀ run ∈ absorbFollowing position after, position.start ≤ run.start := by
  induction after generalizing position with
  | nil =>
    refine ⟨fun x => by simp [absorbFollowing], ?_, ?_⟩
    · exact List.pairwise_singleton _ _
    · simp [absorbFollowing]
  | cons following rest ih =>
    obtain ⟨below, tail⟩ := ascending_cons.1 ascending
    have here := apart following (by simp)
    have hereStart := starts following (by simp)
    simp only [absorbFollowing]
    by_cases touching : following.start ≤ position.limit
    · rw [if_pos touching]
      -- either `following` is empty and vanishes, or it begins where `position` ends
      obtain ⟨coverageEq, ordered, lower⟩ := ih
        { position with count := max position.limit following.limit - position.start }
        (by simp only [ExtentRun.limit] at touching ⊢; omega) tail
        (fun run member => starts run (by simp [member]))
        (fun run member => by
          have old := apart run (by simp [member])
          have := below run member
          simp only [ExtentRun.first_eq, ExtentRun.size_eq] at this
          simp only [ExtentRun.limit] at *
          omega)
      refine ⟨fun x => ?_, ordered, lower⟩
      rw [coverageEq, coverage_cons, span_merged hereStart touching here]
      omega
    · rw [if_neg touching]
      refine ⟨fun x => by simp only [coverage_cons], ?_, ?_⟩
      · refine ascending_cons.2 ⟨?_, ascending⟩
        intro run member
        simp only [ExtentRun.limit] at touching
        simp only [ExtentRun.first_eq, ExtentRun.size_eq]
        rcases List.mem_cons.1 member with rfl | member
        · omega
        · have := below run member
          simp only [ExtentRun.first_eq, ExtentRun.size_eq] at this
          omega
      · intro run member
        rcases List.mem_cons.1 member with rfl | member
        · exact Nat.le_refl _
        · exact starts run member

/-- Returning a run whose blocks the list does not hold adds exactly those blocks and keeps the
list ascending. -/
theorem insertBlobStagingFreeRun_spec {inserted : ExtentRun} (ascending : Ascending runs)
    (nonempty : 0 < inserted.count) (disjoint : ∀ x, coverage runs x + span inserted x ≤ 1) :
    (∀ x, coverage (insertBlobStagingFreeRun runs inserted) x =
        coverage runs x + span inserted x) ∧
      Ascending (insertBlobStagingFreeRun runs inserted) := by
  obtain ⟨before, hBefore⟩ :
      ∃ before, runs.takeWhile (fun run => run.start < inserted.start) = before := ⟨_, rfl⟩
  obtain ⟨after, hAfter⟩ :
      ∃ after, runs.dropWhile (fun run => run.start < inserted.start) = after := ⟨_, rfl⟩
  have split : before ++ after = runs := by
    rw [← hBefore, ← hAfter]
    exact List.takeWhile_append_dropWhile
  have beforeStart : ∀ run ∈ before, run.start < inserted.start := by
    intro run member
    rw [← hBefore] at member
    simpa using List.all_eq_true.1 List.all_takeWhile run member
  have afterStart : ∀ run ∈ after, inserted.start ≤ run.start := by
    rw [← hAfter]
    exact dropWhile_start_le ascending inserted.start
  have parts : ∀ run ∈ runs, run.count = 0 ∨ run.limit ≤ inserted.start ∨
      inserted.limit ≤ run.start := fun run member =>
    apart_of_disjoint nonempty member disjoint
  have beforeLimit : ∀ run ∈ before, run.limit ≤ inserted.start := by
    intro run member
    have := beforeStart run member
    have := parts run (by rw [← split]; simp [member])
    simp only [ExtentRun.limit] at *
    omega
  have afterApart : ∀ run ∈ after, run.count = 0 ∨ inserted.limit ≤ run.start := by
    intro run member
    have := afterStart run member
    have := parts run (by rw [← split]; simp [member])
    simp only [ExtentRun.limit] at *
    omega
  rw [← split] at ascending ⊢
  obtain ⟨beforeAscending, afterAscending, across⟩ := ascending_append.1 ascending
  have takeEq : (before ++ after).takeWhile (fun run => run.start < inserted.start) = before := by
    rw [split, hBefore]
  have dropEq : (before ++ after).dropWhile (fun run => run.start < inserted.start) = after := by
    rw [split, hAfter]
  obtain ⟨fresh, freshAscending, freshStart⟩ :=
    absorbFollowing_spec inserted nonempty afterAscending afterStart afterApart
  simp only [insertBlobStagingFreeRun, takeEq, dropEq]
  rcases List.eq_nil_or_concat before with rfl | ⟨front, previous, rfl⟩
  · refine ⟨fun x => ?_, by simpa using freshAscending⟩
    have := fresh x
    simp only [List.getLast?_nil, List.nil_append]
    omega
  · have previousStart := beforeStart previous (by simp)
    have previousLimit := beforeLimit previous (by simp)
    simp only [List.concat_eq_append, List.getLast?_append, List.getLast?_singleton,
      Option.some_or, List.dropLast_concat] at *
    by_cases touching : inserted.start ≤ previous.limit
    · rw [if_pos touching]
      -- `previous` ends exactly at `inserted` and grows over it
      obtain ⟨grown, grownAscending, grownStart⟩ := absorbFollowing_spec
        { previous with count := max previous.limit inserted.limit - previous.start }
        (by simp only [ExtentRun.limit] at *; omega) afterAscending
        (fun run member => by
          have := afterStart run member
          simp only
          omega)
        (fun run member => by
          have := afterApart run member
          simp only [ExtentRun.limit] at *
          omega)
      rw [ascending_append] at beforeAscending
      refine ⟨fun x => ?_, ascending_append.2 ⟨beforeAscending.1, grownAscending, ?_⟩⟩
      · rw [coverage_append, grown, span_merged (Nat.le_of_lt previousStart) touching
          (Or.inr previousLimit)]
        simp only [coverage_append, coverage_cons, coverage_nil]
        omega
      · intro a member b later
        have left := beforeAscending.2.2 a member previous (by simp)
        have right := grownStart b later
        simp only [ExtentRun.first_eq, ExtentRun.size_eq] at *
        omega
    · rw [if_neg touching]
      refine ⟨fun x => ?_, ascending_append.2 ⟨beforeAscending, freshAscending, ?_⟩⟩
      · have := fresh x
        simp only [coverage_append, this]
        omega
      · intro a member b later
        have left := beforeLimit a member
        have right := freshStart b later
        simp only [ExtentRun.limit] at left
        simp only [ExtentRun.first_eq, ExtentRun.size_eq]
        omega

/-! ## The partition check of the loader -/

theorem sweepIntervals_ok {intervals : List ExtentRun} {cursor final : Nat}
    (swept : sweepIntervals cursor intervals = .ok final) :
    cursor ≤ final ∧
      ∀ x, coverage intervals x = between cursor final x := by
  induction intervals generalizing cursor with
  | nil =>
    simp only [sweepIntervals, Except.ok.injEq] at swept
    subst swept
    refine ⟨Nat.le_refl _, fun x => ?_⟩
    rw [coverage_nil, between_self]
  | cons interval rest ih =>
    simp only [sweepIntervals] at swept
    split at swept
    · cases swept
    · split at swept
      · cases swept
      · rename_i notBelow notAbove
        obtain ⟨order, tail⟩ := ih swept
        refine ⟨by omega, fun x => ?_⟩
        rw [coverage_cons, tail, span_run, show interval.start = cursor by omega]
        exact (between_split (Nat.le_add_right _ _) order x).symm

/-- An accepted block map gives every block behind the common region to exactly one extent, free
run or retired run. -/
theorem validateAllocatorPartition_ok {commonBlocks highWaterBlocks : Nat}
    {reachable : List ExtentReference} {freeRuns retiredRuns : List ExtentRun}
    (accepted : validateAllocatorPartition commonBlocks highWaterBlocks reachable freeRuns
      retiredRuns = .ok ()) (x : Nat) :
    coverage reachable x + coverage freeRuns x + coverage retiredRuns x =
      between commonBlocks highWaterBlocks x := by
  unfold validateAllocatorPartition at accepted
  simp only at accepted
  split at accepted
  · split at accepted
    · cases accepted
    · rename_i cursor swept
      split at accepted
      · cases accepted
      · rename_i reached
        have total := (sweepIntervals_ok swept).2 x
        rw [coverage_sortByStart, coverage_append, coverage_toRun, coverage_map_plain,
          coverage_append] at total
        rw [← Nat.add_assoc] at total
        rw [total, not_not.1 reached]
  · cases accepted

end Miare
