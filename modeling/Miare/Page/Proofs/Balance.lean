import Miare.Page.Proofs.Frame
import Miare.Page.Split

/-!
# The pages of a level

An overfull page is cut at the best balanced boundary, the first one when several are equally
good.  `BalancedRanges` says so for all cuts of a level at once, and what the pages of a level are
follows from it: no entry is lost or written twice, and where any two neighbours fit one page there
are fewer pages than entries.  The size functions of the four kinds of pages share prefixes and are
not additive, so nothing here uses more of them than that single entries fit.
-/

namespace Miare

open Misc

section Boundary

variable {pagePayloadBytes : Nat} {usedLength : Nat → Nat → Nat} {first stop boundary : Nat}
  {candidates : List Nat} {best : BoundaryChoice}

/-- By how much the sides of a boundary differ. -/
def sideDifference (usedLength : Nat → Nat → Nat) (first stop boundary : Nat) : Nat :=
  if usedLength boundary stop < usedLength first boundary then
    usedLength first boundary - usedLength boundary stop
  else usedLength boundary stop - usedLength first boundary

/-- An inner boundary of `[first, stop)` both sides of which fit a page. -/
structure FittingBoundary (pagePayloadBytes : Nat) (usedLength : Nat → Nat → Nat)
    (first stop boundary : Nat) : Prop where
  lower : first < boundary
  upper : boundary < stop
  left : usedLength first boundary ≤ pagePayloadBytes
  right : usedLength boundary stop ≤ pagePayloadBytes

/-- The smallest of the best balanced boundaries. -/
structure BestBoundary (pagePayloadBytes : Nat) (usedLength : Nat → Nat → Nat)
    (first stop boundary : Nat) : Prop
    extends FittingBoundary pagePayloadBytes usedLength first stop boundary where
  least : ∀ other, FittingBoundary pagePayloadBytes usedLength first stop other →
    sideDifference usedLength first stop boundary ≤ sideDifference usedLength first stop other
  smallest : ∀ other, FittingBoundary pagePayloadBytes usedLength first stop other →
    sideDifference usedLength first stop other = sideDifference usedLength first stop boundary →
    boundary ≤ other

/-- What the search knows after some candidates. -/
structure BoundaryChoice.Least (pagePayloadBytes : Nat) (usedLength : Nat → Nat → Nat)
    (first stop : Nat) (candidates : List Nat) (choice : BoundaryChoice) : Prop where
  unset : choice.selected = 0 → choice.selectedDifference = uint64Max
  fitting : choice.selected ≠ 0 →
    FittingBoundary pagePayloadBytes usedLength first stop choice.selected ∧
      choice.selectedDifference = sideDifference usedLength first stop choice.selected
  least : ∀ boundary ∈ candidates, usedLength first boundary ≤ pagePayloadBytes →
    usedLength boundary stop ≤ pagePayloadBytes →
    choice.selectedDifference ≤ sideDifference usedLength first stop boundary
  earliest : ∀ boundary ∈ candidates, usedLength first boundary ≤ pagePayloadBytes →
    usedLength boundary stop ≤ pagePayloadBytes → boundary < choice.selected →
    choice.selectedDifference < sideDifference usedLength first stop boundary

/-- One candidate: it is passed over, or becomes the choice because it is strictly better. -/
theorem considerBoundary_cases (pagePayloadBytes : Nat) (usedLength : Nat → Nat → Nat)
    (first stop : Nat) (best : BoundaryChoice) (boundary : Nat) :
    (considerBoundary pagePayloadBytes usedLength first stop best boundary = best ∧
      (usedLength first boundary ≤ pagePayloadBytes → usedLength boundary stop ≤ pagePayloadBytes →
        best.selectedDifference ≤ sideDifference usedLength first stop boundary)) ∨
    (considerBoundary pagePayloadBytes usedLength first stop best boundary =
        { selected := boundary,
          selectedDifference := sideDifference usedLength first stop boundary } ∧
      (usedLength first boundary ≤ pagePayloadBytes ∧ usedLength boundary stop ≤ pagePayloadBytes) ∧
      sideDifference usedLength first stop boundary < best.selectedDifference) := by
  unfold considerBoundary
  dsimp only
  split
  · left
    refine ⟨rfl, fun left right => ?_⟩
    omega
  · rename_i fits
    by_cases less : sideDifference usedLength first stop boundary < best.selectedDifference
    · right
      exact ⟨if_pos less, by omega, less⟩
    · left
      exact ⟨if_neg less, fun _ _ => Nat.le_of_not_lt less⟩

theorem considerBoundary_least (lower : first < boundary) (upper : boundary < stop)
    (order : best.selected ≤ boundary)
    (before : best.Least pagePayloadBytes usedLength first stop candidates) :
    (considerBoundary pagePayloadBytes usedLength first stop best boundary).Least pagePayloadBytes
        usedLength first stop (candidates ++ [boundary]) ∧
      (considerBoundary pagePayloadBytes usedLength first stop best boundary).selected ≤
        boundary := by
  rcases considerBoundary_cases pagePayloadBytes usedLength first stop best boundary with
    ⟨kept, worse⟩ | ⟨taken, fits, better⟩
  · rw [kept]
    refine ⟨⟨before.unset, before.fitting, fun other member left right => ?_,
      fun other member left right earlier => ?_⟩, order⟩
    · rcases List.mem_append.1 member with old | new
      · exact before.least other old left right
      · rw [List.mem_singleton.1 new] at left right ⊢
        exact worse left right
    · rcases List.mem_append.1 member with old | new
      · exact before.earliest other old left right earlier
      · rw [List.mem_singleton.1 new] at earlier
        omega
  · rw [taken]
    refine ⟨⟨fun none => absurd none (Nat.ne_zero_of_lt lower),
      fun _ => ⟨⟨lower, upper, fits.1, fits.2⟩, rfl⟩, fun other member left right => ?_,
      fun other member left right earlier => ?_⟩, le_rfl⟩
    · rcases List.mem_append.1 member with old | new
      · exact better.le.trans (before.least other old left right)
      · rw [List.mem_singleton.1 new]
    · rcases List.mem_append.1 member with old | new
      · exact better.trans_le (before.least other old left right)
      · rw [List.mem_singleton.1 new] at earlier
        exact absurd earlier (lt_irrefl _)

/-- The search over ascending candidates. -/
theorem foldl_considerBoundary_least {earlier : List Nat} (ascending : candidates.Pairwise (· < ·))
    (inside : ∀ boundary ∈ candidates, first < boundary ∧ boundary < stop)
    (order : ∀ later ∈ candidates, best.selected ≤ later)
    (before : best.Least pagePayloadBytes usedLength first stop earlier) :
    (candidates.foldl (considerBoundary pagePayloadBytes usedLength first stop) best).Least
      pagePayloadBytes usedLength first stop (earlier ++ candidates) := by
  induction candidates generalizing earlier best with
  | nil => simpa using before
  | cons candidate rest ih =>
    obtain ⟨above, ascending⟩ := List.pairwise_cons.1 ascending
    obtain ⟨⟨lower, upper⟩, inside⟩ := List.forall_mem_cons.1 inside
    obtain ⟨known, last⟩ :=
      considerBoundary_least lower upper (order candidate List.mem_cons_self) before
    have next := ih ascending inside (fun later member => last.trans (above later member).le) known
    simpa using next

theorem selectBoundary_invariant (pagePayloadBytes : Nat) (usedLength : Nat → Nat → Nat)
    (first stop : Nat) :
    (selectBoundary pagePayloadBytes usedLength first stop).Least pagePayloadBytes usedLength
      first stop (List.range' (first + 1) (stop - (first + 1))) := by
  have last := @foldl_considerBoundary_least pagePayloadBytes usedLength first stop
    (List.range' (first + 1) (stop - (first + 1)))
    { selected := 0, selectedDifference := uint64Max } [] List.pairwise_lt_range'
    (fun boundary member => by rw [List.mem_range'_1] at member; omega)
    (fun _ _ => Nat.zero_le _)
    ⟨fun _ => rfl, fun unset => (unset rfl).elim, by simp, by simp⟩
  rw [List.nil_append] at last
  exact last

/-- A boundary that is found is the smallest of the best balanced ones. -/
theorem selectBoundary_best
    (found : (selectBoundary pagePayloadBytes usedLength first stop).selected ≠ 0) :
    BestBoundary pagePayloadBytes usedLength first stop
      (selectBoundary pagePayloadBytes usedLength first stop).selected := by
  have known := selectBoundary_invariant pagePayloadBytes usedLength first stop
  obtain ⟨fits, difference⟩ := known.fitting found
  have candidate : ∀ other, FittingBoundary pagePayloadBytes usedLength first stop other →
      other ∈ List.range' (first + 1) (stop - (first + 1)) := by
    intro other fitting
    have := fitting.lower
    have := fitting.upper
    rw [List.mem_range'_1]
    omega
  refine ⟨fits, fun other fitting => ?_, fun other fitting equal => ?_⟩
  · rw [← difference]
    exact known.least other (candidate other fitting) fitting.left fitting.right
  · by_contra before
    have worse := known.earliest other (candidate other fitting) fitting.left fitting.right
      (Nat.lt_of_not_le before)
    rw [difference, equal] at worse
    exact lt_irrefl _ worse

/-- The last inner boundary is a candidate, so that there is always one when it fits. -/
theorem selectBoundary_found {scan : Nat} (opened : first < scan)
    (small : pagePayloadBytes < uint64Max) (left : usedLength first scan ≤ pagePayloadBytes)
    (right : usedLength scan (scan + 1) ≤ pagePayloadBytes) :
    (selectBoundary pagePayloadBytes usedLength first (scan + 1)).selected ≠ 0 := by
  intro none
  have known := selectBoundary_invariant pagePayloadBytes usedLength first (scan + 1)
  have least := known.least scan (by rw [List.mem_range'_1]; omega) left right
  rw [known.unset none] at least
  unfold sideDifference at least
  split at least <;> omega

end Boundary

section Ranges

variable {pagePayloadBytes : Nat} {usedLength : Nat → Nat → Nat} {count remaining first scan : Nat}
  {ranges : List (Nat × Nat)}

/-- The cuts of a level from a page that begins at `first` and holds the entries below `scan`: the
page takes entries in while it does not overflow, and each time the next entry overflows it, it is
cut at the best boundary and what is behind the cut becomes the open page. -/
inductive BalancedRanges (pagePayloadBytes : Nat) (usedLength : Nat → Nat → Nat) (count : Nat) :
    (first scan : Nat) → List (Nat × Nat) → Prop
  | last (first : Nat) : BalancedRanges pagePayloadBytes usedLength count first count
      [(first, count)]
  | grow {first scan : Nat} {ranges : List (Nat × Nat)} (more : scan < count)
      (fits : usedLength first (scan + 1) ≤ pagePayloadBytes)
      (rest : BalancedRanges pagePayloadBytes usedLength count first (scan + 1) ranges) :
      BalancedRanges pagePayloadBytes usedLength count first scan ranges
  | cut {first scan selected : Nat} {ranges : List (Nat × Nat)} (more : scan < count)
      (overflows : pagePayloadBytes < usedLength first (scan + 1))
      (best : BestBoundary pagePayloadBytes usedLength first (scan + 1) selected)
      (rest : BalancedRanges pagePayloadBytes usedLength count selected (scan + 1) ranges) :
      BalancedRanges pagePayloadBytes usedLength count first scan ((first, selected) :: ranges)

/-- A scan that succeeds cuts at the best boundaries. -/
theorem scanPages_balanced
    (scanned : scanPages pagePayloadBytes usedLength remaining first scan = some ranges) :
    BalancedRanges pagePayloadBytes usedLength (scan + remaining) first scan ranges := by
  induction remaining generalizing first scan ranges with
  | zero =>
    obtain rfl := Option.some.inj scanned
    exact .last first
  | succ remaining ih =>
    simp only [scanPages] at scanned
    rw [show scan + (remaining + 1) = scan + 1 + remaining by omega]
    split at scanned
    · rename_i fits
      exact .grow (by omega) fits (ih scanned)
    · rename_i overflows
      split at scanned
      · cases scanned
      · rename_i found
        obtain ⟨tail, rest, rfl⟩ := Option.map_eq_some_iff.1 scanned
        exact .cut (by omega) (Nat.lt_of_not_le overflows) (selectBoundary_best found) (ih rest)

/-- The scan succeeds when single entries fit.  The open page always fits: behind a cut it is the
right side of a boundary that fits. -/
theorem scanPages_exists (opened : first < scan) (small : pagePayloadBytes < uint64Max)
    (singles : ∀ index, usedLength index (index + 1) ≤ pagePayloadBytes)
    (fits : usedLength first scan ≤ pagePayloadBytes) :
    ∃ ranges, scanPages pagePayloadBytes usedLength remaining first scan = some ranges := by
  induction remaining generalizing first scan with
  | zero => exact ⟨[(first, scan)], rfl⟩
  | succ remaining ih =>
    rw [scanPages]
    by_cases more : usedLength first (scan + 1) ≤ pagePayloadBytes
    · rw [if_pos more]
      exact ih (by omega) more
    · have found := selectBoundary_found opened small fits (singles scan)
      have best := selectBoundary_best found
      obtain ⟨ranges, scanned⟩ := ih best.upper best.right
      rw [if_neg more]
      rw [if_neg found, scanned]
      exact ⟨_, rfl⟩

/-- Balanced ranges follow each other up to the end of the level. -/
theorem BalancedRanges.consecutive
    (balanced : BalancedRanges pagePayloadBytes usedLength count first scan ranges)
    (opened : first < scan) : Consecutive first count ranges := by
  induction balanced with
  | last first => exact ⟨rfl, opened, rfl⟩
  | grow _ _ _ ih => exact ih (by omega)
  | cut _ _ best _ ih => exact ⟨rfl, best.lower, ih best.upper⟩

theorem BalancedRanges.fits
    (balanced : BalancedRanges pagePayloadBytes usedLength count first scan ranges)
    (opened : usedLength first scan ≤ pagePayloadBytes) :
    ∀ range ∈ ranges, usedLength range.1 range.2 ≤ pagePayloadBytes := by
  induction balanced with
  | last first => simpa using opened
  | grow _ fits _ ih => exact ih fits
  | cut _ _ best _ ih => exact List.forall_mem_cons.2 ⟨best.left, ih best.right⟩

/-- When two neighbours always share a page, some page has two entries. -/
theorem BalancedRanges.length_lt
    (balanced : BalancedRanges pagePayloadBytes usedLength count first scan ranges)
    (opened : first < scan) (pairs : ∀ index, usedLength index (index + 2) ≤ pagePayloadBytes)
    (several : first + 1 < scan ∨ scan < count) : ranges.length + first < count := by
  induction balanced with
  | last first =>
    rw [List.length_singleton]
    omega
  | grow _ _ _ ih => exact ih (by omega) (Or.inl (by omega))
  | @cut first scan selected ranges more overflows best rest ih =>
    -- an overfull page has at least three entries, so one of its halves has two
    have three : first + 1 < scan := by
      by_contra short
      have := pairs first
      rw [show first + 2 = scan + 1 by omega] at this
      omega
    have lower := best.lower
    rw [List.length_cons]
    by_cases single : selected = first + 1
    · have := ih best.upper (Or.inl (by omega))
      omega
    · have := (rest.consecutive best.upper).length_le
      omega

end Ranges

section Levels

variable {α : Type*}

/-- The split of a level: the ranges exist, follow each other from the first entry to the last, fit
their pages and are cut at the best boundaries. -/
structure LevelSplit (pagePayloadBytes : Nat) (size : List α → Nat) (items : List α)
    (ranges : List (Nat × Nat)) : Prop where
  returned : balancedPageRanges items.length pagePayloadBytes
    (fun first stop => size (piece items (first, stop))) = some ranges
  consecutive : Consecutive 0 items.length ranges
  fits : ∀ range ∈ ranges, size (piece items range) ≤ pagePayloadBytes
  balanced : BalancedRanges pagePayloadBytes
    (fun first stop => size (piece items (first, stop))) items.length 0 1 ranges

variable {pagePayloadBytes : Nat} {size : List α → Nat} {items : List α} {pages : List (List α)}

theorem balancedPageRanges_balanced {count : Nat} {usedLength : Nat → Nat → Nat}
    {ranges : List (Nat × Nat)} (positive : 0 < count)
    (split : balancedPageRanges count pagePayloadBytes usedLength = some ranges) :
    BalancedRanges pagePayloadBytes usedLength count 0 1 ranges := by
  have balanced := scanPages_balanced split
  rwa [show 1 + (count - 1) = count by omega] at balanced

theorem splitPages_flatten (nonempty : items ≠ [])
    (split : splitPages pagePayloadBytes size items = some pages) :
    pages.flatten = items ∧ (∀ page ∈ pages, page ≠ []) := by
  obtain ⟨ranges, found, rfl⟩ := Option.map_eq_some_iff.1 split
  have balanced := balancedPageRanges_balanced (List.length_pos_of_ne_nil nonempty) found
  have consecutive := balanced.consecutive Nat.zero_lt_one
  exact ⟨consecutive.pieces_eq, consecutive.pieces_ne_nil⟩

/-- There are no more pages than items. -/
theorem splitPages_length_le (nonempty : items ≠ [])
    (split : splitPages pagePayloadBytes size items = some pages) :
    pages.length ≤ items.length := by
  obtain ⟨ranges, found, rfl⟩ := Option.map_eq_some_iff.1 split
  have balanced := balancedPageRanges_balanced (List.length_pos_of_ne_nil nonempty) found
  rw [List.length_map]
  exact (balanced.consecutive Nat.zero_lt_one).length_le

theorem piece_single (items : List α) (index : Nat) :
    piece items (index, index + 1) = [] ∨ ∃ only ∈ items, piece items (index, index + 1) = [only] := by
  rw [piece, slice, show index + 1 - index = 1 by omega]
  rcases drop : items.drop index with - | ⟨first, rest⟩
  · exact Or.inl rfl
  · exact Or.inr ⟨first, List.mem_of_mem_drop (drop ▸ List.mem_cons_self), rfl⟩

/-- Pieces of one entry fit, also behind the end of the level. -/
theorem piece_single_fits (empty : size [] ≤ pagePayloadBytes)
    (singles : ∀ item ∈ items, size [item] ≤ pagePayloadBytes) (index : Nat) :
    size (piece items (index, index + 1)) ≤ pagePayloadBytes := by
  rcases piece_single items index with none | ⟨only, member, one⟩
  · rw [none]
    exact empty
  · rw [one]
    exact singles only member

theorem levelSplit_exists (small : pagePayloadBytes < uint64Max)
    (empty : size [] ≤ pagePayloadBytes) (nonempty : items ≠ [])
    (singles : ∀ item ∈ items, size [item] ≤ pagePayloadBytes) :
    ∃ ranges, LevelSplit pagePayloadBytes size items ranges := by
  have single := piece_single_fits empty singles
  obtain ⟨ranges, split⟩ := @scanPages_exists pagePayloadBytes
    (fun first stop => size (piece items (first, stop))) (items.length - 1) 0 1 Nat.zero_lt_one
    small single (single 0)
  have balanced := balancedPageRanges_balanced (List.length_pos_of_ne_nil nonempty) split
  exact ⟨ranges, split, balanced.consecutive Nat.zero_lt_one, balanced.fits (single 0), balanced⟩

/-- A level whose single entries fit is split into pages that fit. -/
theorem splitPages_spec (small : pagePayloadBytes < uint64Max) (empty : size [] ≤ pagePayloadBytes)
    (nonempty : items ≠ []) (singles : ∀ item ∈ items, size [item] ≤ pagePayloadBytes) :
    ∃ pages, splitPages pagePayloadBytes size items = some pages ∧
      ∀ page ∈ pages, size page ≤ pagePayloadBytes := by
  obtain ⟨ranges, split⟩ := levelSplit_exists small empty nonempty singles
  refine ⟨ranges.map (piece items), ?_, fun page member => ?_⟩
  · rw [splitPages, split.returned]
    rfl
  · obtain ⟨range, inRanges, rfl⟩ := List.mem_map.1 member
    exact split.fits range inRanges

/-- Every level whose single entries fit a page is split, whatever kind of page it is made of.  An
internal page with one child has no separator and always fits. -/
theorem balancedPageRanges_splits (L : Limits) :
    (∀ entries : List MutableTreeValue, entries ≠ [] →
      (∀ entry ∈ entries, leafUsedLength [entry] ≤ L.pagePayloadBytes) →
      ∃ ranges, LevelSplit L.pagePayloadBytes leafUsedLength entries ranges) ∧
    (∀ entries : List FixedLeafEntry, entries ≠ [] →
      (∀ entry ∈ entries, fixedLeafUsedLength [entry] ≤ L.pagePayloadBytes) →
      ∃ ranges, LevelSplit L.pagePayloadBytes fixedLeafUsedLength entries ranges) ∧
    (∀ (retired : Bool) (runs : List ExtentRun), runs ≠ [] →
      (∀ run ∈ runs, allocatorIndexUsedLength retired [run] ≤ L.pagePayloadBytes) →
      ∃ ranges, LevelSplit L.pagePayloadBytes (allocatorIndexUsedLength retired) runs ranges) ∧
    ∀ nodes : List PreparedTreeNode, nodes ≠ [] →
      (∀ node ∈ nodes, internalUsedLength [node] ≤ L.pagePayloadBytes) →
      ∃ ranges, LevelSplit L.pagePayloadBytes internalUsedLength nodes ranges := by
  have small : L.pagePayloadBytes < uint64Max := (pagePayloadBytes_lt L).trans (by decide)
  have header : pageLayoutBytes ≤ L.pagePayloadBytes :=
    le_trans (by decide) (pagePayloadBytes_lower L)
  refine ⟨fun entries => ?_, fun entries => ?_, fun retired runs => ?_, fun nodes => ?_⟩
  · exact levelSplit_exists small header
  · exact levelSplit_exists small header
  · refine levelSplit_exists small ?_
    simpa [allocatorIndexUsedLength, sharedPrefixLength] using header
  · exact levelSplit_exists small header

/-- Three entries that overflow a page by their values. -/
theorem balancedPageRanges_splits_values :
    let entries := [1, 2, 3].map fun key : Byte =>
      ({ key := [key], value := List.replicate 8000 0 } : MutableTreeValue)
    Limits.default.pagePayloadBytes < leafUsedLength entries ∧
      ∃ ranges, LevelSplit Limits.default.pagePayloadBytes leafUsedLength entries ranges := by
  intro entries
  have payload : Limits.default.pagePayloadBytes = 16208 := by decide
  have long : (List.replicate 8000 (0 : Byte)).length = 8000 := List.length_replicate
  dsimp only [entries]
  generalize List.replicate 8000 (0 : Byte) = value at long
  refine ⟨?_, (balancedPageRanges_splits Limits.default).1 _ (by simp) ?_⟩
  · simp [payload, long, leafUsedLength, leafSharedLength, commonPrefixLength, inlineLength,
      ExtentReference.null, pageLayoutBytes]
  · simp [payload, long, leafUsedLength, leafSharedLength, commonPrefixLength, inlineLength,
      ExtentReference.null, pageLayoutBytes]

end Levels

end Miare
