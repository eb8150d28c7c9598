import Miare.Page.Encode
import Miare.Misc.Ranges

/-!
# Splitting a level into pages

`balancedPageRanges` (`include/miare/detail/exact_store.hpp:2990-3033`) fills a page until the
next entry overflows it, then cuts the overfull page at the boundary that balances its two halves
best.
-/

namespace Miare

open Misc

/-- The state of the search for a boundary: the best one so far, zero for none, and the
difference of its two sides. -/
structure BoundaryChoice where
  selected : Nat
  selectedDifference : Nat
deriving DecidableEq, Repr

/-- One candidate of the search (`exact_store.hpp:3011-3022`). -/
def considerBoundary (pagePayloadBytes : Nat) (usedLength : Nat → Nat → Nat) (first stop : Nat)
    (best : BoundaryChoice) (boundary : Nat) : BoundaryChoice :=
  let left := usedLength first boundary
  let right := usedLength boundary stop
  if pagePayloadBytes < left ∨ pagePayloadBytes < right then best
  else
    let difference := if right < left then left - right else right - left
    if difference < best.selectedDifference then
      { selected := boundary, selectedDifference := difference }
    else best

/-- The search over all inner boundaries of `[first, stop)`. -/
def selectBoundary (pagePayloadBytes : Nat) (usedLength : Nat → Nat → Nat) (first stop : Nat) :
    BoundaryChoice :=
  (List.range' (first + 1) (stop - (first + 1))).foldl
    (considerBoundary pagePayloadBytes usedLength first stop)
    { selected := 0, selectedDifference := uint64Max }

/-- The scan with `remaining` entries behind `scan`; `none` is the `ResourceLimit` error "page
overflow has no valid split boundary". -/
def scanPages (pagePayloadBytes : Nat) (usedLength : Nat → Nat → Nat) :
    (remaining first scan : Nat) → Option (List (Nat × Nat))
  | 0, first, scan => some [(first, scan)]
  | remaining + 1, first, scan =>
    if usedLength first (scan + 1) ≤ pagePayloadBytes then
      scanPages pagePayloadBytes usedLength remaining first (scan + 1)
    else
      let selected := (selectBoundary pagePayloadBytes usedLength first (scan + 1)).selected
      if selected = 0 then none
      else
        (scanPages pagePayloadBytes usedLength remaining selected (scan + 1)).map
          ((first, selected) :: ·)

/-- `balancedPageRanges`; the callers pass a positive count. -/
def balancedPageRanges (count pagePayloadBytes : Nat) (usedLength : Nat → Nat → Nat) :
    Option (List (Nat × Nat)) :=
  scanPages pagePayloadBytes usedLength (count - 1) 0 1

/-- The pages of a level: the ranges applied to its items, under a size function on pieces. -/
def splitPages {α : Type*} (pagePayloadBytes : Nat) (usedLength : List α → Nat)
    (items : List α) : Option (List (List α)) :=
  (balancedPageRanges items.length pagePayloadBytes fun first stop =>
    usedLength (piece items (first, stop))).map fun ranges => ranges.map (piece items)

end Miare
