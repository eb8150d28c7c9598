import Miare.Page.Split
import Miare.Misc.Keyed

/-!
# Mutable trees

A commit loads the tree it changes into memory, edits it and writes the changed nodes
(`include/miare/detail/exact_store.hpp:1916-1937`, `2978-2988`, `3286-3423`).  The record
`MutableTreeNode` of the source has a level, values and children; a node uses its values at level
zero and its children above.  Here the level is an index of the type, so a tree has all its leaves
at level zero by construction.
-/

namespace Miare

open Misc

/-- Least key of some values in order. -/
def valuesMinimum (values : List MutableTreeValue) : Bytes :=
  (values.head?.map MutableTreeValue.key).getD []

/-- The fields of a node; `items` are its `values` at level zero and its `children` above. -/
structure MutableNode (α : Type) where
  reference : ExtentReference := {}
  minimumKey : Bytes := []
  dirty : Bool := false
  items : List α := []
deriving DecidableEq

/-- `MutableTreeNode` of the given level. -/
def MutableTree : Nat → Type
  | 0 => MutableNode MutableTreeValue
  | level + 1 => MutableNode (MutableTree level)

namespace MutableTree

def reference : {level : Nat} → MutableTree level → ExtentReference
  | 0, node => MutableNode.reference node
  | _ + 1, node => MutableNode.reference node

def minimumKey : {level : Nat} → MutableTree level → Bytes
  | 0, node => MutableNode.minimumKey node
  | _ + 1, node => MutableNode.minimumKey node

/-- Nothing left below the node: no values at level zero, no children above. -/
def isEmpty : {level : Nat} → MutableTree level → Bool
  | 0, node => (MutableNode.items node).isEmpty
  | _ + 1, node => (MutableNode.items node).isEmpty

def markDirty : {level : Nat} → MutableTree level → MutableTree level
  | 0, node => { (node : MutableNode MutableTreeValue) with dirty := true }
  | level + 1, node => { (node : MutableNode (MutableTree level)) with dirty := true }

/-- The values below a node, in order. -/
def values : {level : Nat} → MutableTree level → List MutableTreeValue
  | 0, node => MutableNode.items node
  | level + 1, node => (node : MutableNode (MutableTree level)).items.flatMap values

end MutableTree

/-- A tree of any height. -/
structure MutableRoot where
  level : Nat
  tree : MutableTree level

/-- A default-constructed root. -/
def MutableRoot.empty : MutableRoot := ⟨0, ({} : MutableNode MutableTreeValue)⟩

/-- `mutableChildFor` over the least keys of the children (`exact_store.hpp:2977-2988`).  The
loop stops when `child + 1` is the number of children, which never happens when there are none: it
then reads behind the end, `none`. -/
def mutableChildFor (key : Bytes) : List Bytes → Option Nat
  | [] => none
  | [_] => some 0
  | _ :: next :: rest =>
    if key < next then some 0 else (mutableChildFor key (next :: rest)).map (· + 1)

/-- Least key of the first item. -/
def firstMinimum (minimums : List Bytes) : Bytes := minimums.headD []

/-- `putMutableTree` (`exact_store.hpp:3286-3320`); `none` is an index out of range.  On sorted
values `std::lower_bound` finds the position of `putEntry`. -/
def putMutableTree (key value : Bytes) :
    {level : Nat} → MutableTree level → Option (MutableTree level)
  | 0, node =>
    let leaf : MutableNode MutableTreeValue := node
    let items := putEntry MutableTreeValue.key { key, value } leaf.items
    some ({ leaf with
      dirty := true, items, minimumKey := firstMinimum (items.map MutableTreeValue.key) } :
      MutableNode MutableTreeValue)
  | level + 1, node =>
    let inner : MutableNode (MutableTree level) := node
    match mutableChildFor key (inner.items.map MutableTree.minimumKey) with
    | none => none
    | some index =>
      match inner.items[index]? with
      | none => none
      | some child =>
        match putMutableTree key value child with
        | none => none
        | some child =>
          let items := inner.items.set index child
          some ({ inner with
            dirty := true, items,
            minimumKey := firstMinimum (items.map MutableTree.minimumKey) } :
            MutableNode (MutableTree level))

/-- What an erased key leaves of a node: its items and, while there are some, the least key of
the first. -/
def MutableNode.shrinkTo {α : Type} (node : MutableNode α) (minimum : α → Bytes)
    (items : List α) : MutableNode α :=
  { node with
    dirty := true
    items := items
    minimumKey := if items.isEmpty then node.minimumKey else firstMinimum (items.map minimum) }

/-- `eraseMutableTree` (`exact_store.hpp:3322-3358`): the tree behind the call and whether the
key was found; `none` is an index out of range. -/
def eraseMutableTree (key : Bytes) :
    {level : Nat} → MutableTree level → Option (MutableTree level × Bool)
  | 0, node =>
    let leaf : MutableNode MutableTreeValue := node
    match findKey MutableTreeValue.key key leaf.items with
    | none => some (node, false)
    | some _ =>
      some (leaf.shrinkTo MutableTreeValue.key (removeKey MutableTreeValue.key key leaf.items),
        true)
  | level + 1, node =>
    let inner : MutableNode (MutableTree level) := node
    match mutableChildFor key (inner.items.map MutableTree.minimumKey) with
    | none => none
    | some index =>
      match inner.items[index]? with
      | none => none
      | some child =>
        match eraseMutableTree key child with
        | none => none
        | some (_, false) => some (node, false)
        | some (child, true) =>
          -- a child without items is erased from its parent
          some (inner.shrinkTo MutableTree.minimumKey
            (if child.isEmpty then inner.items.eraseIdx index else inner.items.set index child),
            true)

/-- Erase keys one after the other. -/
def eraseKeys {level : Nat} (keys : List Bytes) (tree : MutableTree level) :
    Option (MutableTree level) :=
  keys.foldlM (fun tree key => (eraseMutableTree key tree).map Prod.fst) tree

/-- Put entries one after the other. -/
def putEntries {level : Nat} (entries : List (Bytes × Bytes)) (tree : MutableTree level) :
    Option (MutableTree level) :=
  entries.foldlM (fun tree entry => putMutableTree entry.1 entry.2 tree) tree

/-- `while (root.level != 0 && root.children.size() == 1)`: the only child becomes the root
(`exact_store.hpp:3117-3121`, `3750-3754`). -/
def collapseRoot : {level : Nat} → MutableTree level → MutableRoot
  | 0, node => ⟨0, node⟩
  | level + 1, node =>
    match (node : MutableNode (MutableTree level)).items with
    | [child] => collapseRoot child.markDirty
    | _ => ⟨level + 1, node⟩

/-- The reset of an internal root without children (`exact_store.hpp:3737-3742`). -/
def resetEmptyRoot : {level : Nat} → MutableTree level → MutableRoot
  | 0, node => ⟨0, node⟩
  | level + 1, node =>
    if (node : MutableNode (MutableTree level)).items.isEmpty then
      ⟨0, ({ dirty := true } : MutableNode MutableTreeValue)⟩
    else ⟨level + 1, node⟩

end Miare
