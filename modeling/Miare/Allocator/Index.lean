import Miare.Tree.Levels

/-!
# Persistent allocator indexes

`persistAllocatorIndex` (`include/miare/detail/exact_store.hpp:3223-3284`) writes the free or the
retired runs as a tree.
-/

namespace Miare

open Misc

variable {σ : Type*}

/-- Key under which a leaf of runs appears in its parent. -/
def runsMinimum (retired : Bool) (runs : List ExtentRun) : Bytes :=
  (runs.head?.map (allocatorRunKey retired)).getD []

/-- The leaves of an index. -/
def allocatorLeaves (L : Limits) (retired : Bool) (runs : List ExtentRun) (place : Placement σ)
    (state : σ) : Except TreeError (List PreparedTreeNode × σ) :=
  match splitPages L.pagePayloadBytes (allocatorIndexUsedLength retired) runs with
  | none => .error .splitBoundary
  | some pages =>
    placePages place (if retired then 10 else 8) (encodeAllocatorIndexLeaf L retired)
      .allocatorLeafOverflow (runsMinimum retired) (fun _ => 0) pages state

/-- `persistAllocatorIndex`: the root of the index and the placement state behind it.  Two
children always fit a page, so the levels shrink and as many turns as there are leaves suffice
(`indexCodec_complete`). -/
def persistAllocatorIndex (L : Limits) (retired : Bool) (runs : List ExtentRun)
    (place : Placement σ) (state : σ) : Except TreeError (ExtentReference × σ) :=
  if runs = [] then .ok ({}, state)
  else
    match allocatorLeaves L retired runs place state with
    | .error error => .error error
    | .ok (nodes, state) =>
      match growRoot L (if retired then 5 else 4) (if retired then 9 else 7) place nodes.length
        nodes state with
      | .error error => .error error
      | .ok (root, state) => .ok (root.reference, state)

end Miare
