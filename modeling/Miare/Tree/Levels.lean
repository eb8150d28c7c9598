import Miare.Page.Split

/-!
# Writing a tree level by level

Four places of `include/miare/detail/exact_store.hpp` write the pages of a tree bottom up: the
fixed-key trees (3035-3095 and 3097-3221), the allocator indexes (3223-3284) and the ordered tree
(3774-3861).  They split a level into pages, hand each encoded page to a function that places it,
and repeat with the pages as the next level until one is left.
-/

namespace Miare

open Misc

/-- Why a tree could not be written. -/
inductive TreeError where
  | splitBoundary
  | leafOverflow
  | allocatorLeafOverflow
  | separatorOverflow
  | referenceSize
  | outOfRange
  | endless
deriving DecidableEq, Repr

/-- Text of the errors: `ContractError` for a stored reference of the wrong size, else
`ResourceLimit`.  An index behind the end of a vector and a loop that never ends raise none. -/
def TreeError.message : TreeError → Option String
  | .splitBoundary => some "page overflow has no valid split boundary"
  | .leafOverflow => some "one key/value cannot fit in a leaf page"
  | .allocatorLeafOverflow => some "allocator index requires more than one metadata leaf"
  | .separatorOverflow => some "one separator cannot fit in an internal page"
  | .referenceSize => some "mutable fixed-tree reference has an invalid size"
  | .outOfRange => none
  | .endless => none

/-- How a page is placed: from the state of the placement, the payload and the unit kind to the
reference of the page and the next state (`prepareExtent`, `prepareReserved`). -/
abbrev Placement (σ : Type*) : Type _ := σ → Bytes → Nat → ExtentReference × σ

variable {σ : Type*}

/-- Encode and place the pages of one level from left to right. -/
def placePages {α : Type*} (place : Placement σ) (kind : Nat) (encode : List α → Option Bytes)
    (overflow : TreeError) (minimum : List α → Bytes) (level : List α → Nat) :
    List (List α) → σ → Except TreeError (List PreparedTreeNode × σ)
  | [], state => .ok ([], state)
  | page :: rest, state =>
    match encode page with
    | none => .error overflow
    | some payload =>
      let placed := place state payload kind
      match placePages place kind encode overflow minimum level rest placed.2 with
      | .error error => .error error
      | .ok (nodes, state) =>
        .ok ({ reference := placed.1, minimumKey := minimum page, level := level page } :: nodes,
          state)

/-- Least key of a group of sibling pages. -/
def groupMinimum (nodes : List PreparedTreeNode) : Bytes :=
  (nodes.head?.map PreparedTreeNode.minimumKey).getD []

/-- Level of a group of sibling pages. -/
def groupLevel (nodes : List PreparedTreeNode) : Nat :=
  (nodes.head?.map PreparedTreeNode.level).getD 0

/-- The pages above a level: one turn of a growth loop, and the pages of a changed internal
node.  `balancedPageRanges` reads behind the end of an empty level. -/
def levelUp (L : Limits) (role kind : Nat) (place : Placement σ) (nodes : List PreparedTreeNode)
    (state : σ) : Except TreeError (List PreparedTreeNode × σ) :=
  if nodes = [] then .error .outOfRange
  else match splitPages L.pagePayloadBytes internalUsedLength nodes with
  | none => .error .splitBoundary
  | some pages =>
    placePages place kind (encodeInternalPage L role) .separatorOverflow groupMinimum
      (fun page => groupLevel page + 1) pages state

/-- The loop `while (nodes.size() != 1)`.  The code has no bound on its turns; a loop that has
not ended after `turns` turns counts as endless. -/
def growRoot (L : Limits) (role kind : Nat) (place : Placement σ) :
    (turns : Nat) → List PreparedTreeNode → σ → Except TreeError (PreparedTreeNode × σ)
  | _, [root], state => .ok (root, state)
  | 0, _, _ => .error .endless
  | turns + 1, nodes, state =>
    match levelUp L role kind place nodes state with
    | .error error => .error error
    | .ok (parents, state) => growRoot L role kind place turns parents state

end Miare
