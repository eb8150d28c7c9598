import Miare.Tree.Proofs.LoadFixed
import Miare.Tree.Proofs.LoadOrdered
import Miare.Tree.Proofs.Mutable

/-!
# Loaded trees are search trees

Whatever the extents of a file hold, a tree that loads is a search tree: the ordered keyspace, the
Blob catalog and the chunk index of a Blob.
-/

namespace Miare

open Misc

namespace MutableTree

/-- The leaf in which the descent with `mutableChildFor` ends. -/
def leafFor (key : Bytes) : {level : Nat} → MutableTree level → Option (MutableNode MutableTreeValue)
  | 0, leaf => some leaf
  | level + 1, node =>
    let inner : MutableNode (MutableTree level) := node
    match mutableChildFor key (inner.items.map minimumKey) with
    | none => none
    | some index =>
      match inner.items[index]? with
      | none => none
      | some child => leafFor key child

/-- In a well-formed tree the descent finds every value. -/
theorem leafFor_spec {level : Nat} {tree : MutableTree level} (shaped : tree.Shaped)
    {item : MutableTreeValue} (member : item ∈ tree.values) :
    ∃ leaf, tree.leafFor item.key = some leaf ∧ item ∈ leaf.items := by
  induction level with
  | zero => exact ⟨tree, rfl, member⟩
  | succ level ih =>
    have nonempty : MutableNode.items tree ≠ [] := items_ne_nil (List.ne_nil_of_mem member)
    obtain ⟨front, child, back, routed⟩ := exists_routed item.key shaped.1 shaped.2.1 nonempty
    have here : (MutableNode.items tree)[front.length]? = some child := by
      rw [routed.split, List.getElem?_append_right le_rfl, Nat.sub_self]
      rfl
    -- the other children have only smaller or only larger keys
    have inChild : item ∈ child.values := by
      change item ∈ (MutableNode.items tree).flatMap values at member
      rw [routed.split, List.flatMap_append, List.flatMap_cons] at member
      rcases List.mem_append.1 member with low | rest
      · exact absurd (routed.below item low) (lt_irrefl _)
      · rcases List.mem_append.1 rest with inside | high
        · exact inside
        · exact absurd (routed.above item high) (lt_irrefl _)
    have isChild : child ∈ MutableNode.items tree := by simp [routed.split]
    obtain ⟨leaf, found, isThere⟩ := ih (shaped.1 child isChild).1 inChild
    refine ⟨leaf, ?_, isThere⟩
    rw [leafFor, routed.found]
    dsimp only
    rw [here]
    exact found

end MutableTree

/-- The trees of a publication. -/
inductive TreeKind where
  | ordered
  | catalog
  | chunkIndex (owner : Bytes)

namespace TreeKind

/-- The order of the keys. -/
def Less : TreeKind → Bytes → Bytes → Prop
  | .ordered | .catalog => (· < ·)
  | .chunkIndex _ => ordinalLess

/-- The trees whose keys are compared as bytes. -/
def ByteOrdered : TreeKind → Prop
  | .ordered | .catalog => True
  | .chunkIndex _ => False

variable (L : Limits) (format : OpenedFormat) (store : ExtentStore)

/-- The pages that the loader of the tree accepts. -/
def pages : TreeKind → Pages Bytes ExtentReference (Bytes × Bytes)
  | .ordered => orderedPages L format store
  | .catalog => fixedPages L format store catalogRole
  | .chunkIndex owner => fixedPages L format store (chunkIndexRole owner)

/-- What is known of the values in memory. -/
def Good : TreeKind → MutableTreeValue → Prop
  | .ordered => StoredValue L format store
  | .catalog => FixedValue L format 16
  | .chunkIndex _ => FixedValue L format 8

/-- Loading the page at a reference returns the entries, and builds the tree alongside. -/
def Loads {level : Nat} (reference : ExtentReference) (tree : MutableTree level)
    (entries : List (Bytes × Bytes)) : TreeKind → Prop
  | .ordered => ∃ bounds load, loadOrderedPage L format store level reference
      { values := Keyed.empty, reachable := [] } = .ok (tree, bounds, load) ∧
        load.values.entries = entries
  | .catalog => ∃ bounds load, loadFixedTreePage L format store catalogRole level reference
      { entries := [], reachable := [] } = .ok (tree, bounds, load) ∧
        load.entries.map FixedLeafEntry.pair = entries
  | .chunkIndex owner => ∃ bounds load,
      loadFixedTreePage L format store (chunkIndexRole owner) level reference
        { entries := [], reachable := [] } = .ok (tree, bounds, load) ∧
          load.entries.map FixedLeafEntry.pair = entries

end TreeKind

section Loads

variable {L : Limits} {format : OpenedFormat} {store : ExtentStore} {level : Nat}
  {reference : ExtentReference} {tree : MutableTree level} {bounds : PageBounds}

theorem loadOrderedPage_sound {load : OrderedLoad}
    (loaded : loadOrderedPage L format store level reference
      { values := Keyed.empty, reachable := [] } = .ok (tree, bounds, load)) :
    Loaded (· < ·) (orderedPages L format store) (StoredValue L format store) reference tree ∧
      tree.pairs = load.values.entries := by
  obtain ⟨facts, -, gathered⟩ := loadTree_sound (orderedLoader_spec L format store) loaded
  exact ⟨facts, (Holds.increasing facts.holds).eq_of_perm load.values.increasing gathered.symm⟩

theorem loadFixedTreePage_sound {T : TreeRole} {size : Nat} {r : Bytes → Bytes → Prop}
    (fixedKeys : T.FixedKeys size r) {load : FixedLoad}
    (loaded : loadFixedTreePage L format store T level reference
      { entries := [], reachable := [] } = .ok (tree, bounds, load)) :
    Loaded r (fixedPages L format store T) (FixedValue L format size) reference tree ∧
      tree.pairs = load.entries.map FixedLeafEntry.pair := by
  obtain ⟨facts, -, entries, gathered, pairs_eq, -⟩ :=
    loadTree_sound (fixedLoader_spec fixedKeys) loaded
  obtain rfl : load.entries = entries := gathered
  exact ⟨facts, pairs_eq.symm⟩

/-- A tree that loads, from whatever extents, is a search tree in the order of its role.  `Loaded`
says that all leaves have level zero under levels that decrease by one, that every separator is the
least key of the child behind it, and that the tree in memory follows the pages; it holds exactly
the entries returned, and the descent for a key finds its leaf. -/
theorem loads_searchTree {kind : TreeKind} {entries : List (Bytes × Bytes)}
    (loads : kind.Loads L format store reference tree entries) :
    Loaded kind.Less (kind.pages L format store) (kind.Good L format store) reference tree ∧
      tree.pairs = entries ∧ (entries.Pairwise fun a b => kind.Less a.1 b.1) ∧
      (kind.ByteOrdered → ∀ item ∈ tree.values,
        ∃ leaf, tree.leafFor item.key = some leaf ∧ item ∈ leaf.items) := by
  obtain ⟨facts, same⟩ : Loaded kind.Less (kind.pages L format store) (kind.Good L format store)
      reference tree ∧ tree.pairs = entries := by
    cases kind with
    | ordered =>
      obtain ⟨bounds, load, loaded, rfl⟩ := loads
      exact loadOrderedPage_sound loaded
    | catalog =>
      obtain ⟨bounds, load, loaded, rfl⟩ := loads
      exact loadFixedTreePage_sound catalogRole_keys loaded
    | chunkIndex owner =>
      obtain ⟨bounds, load, loaded, rfl⟩ := loads
      exact loadFixedTreePage_sound (chunkIndexRole_keys owner) loaded
  refine ⟨facts, same, same ▸ facts.holds.pairwise, fun byteOrdered item member => ?_⟩
  cases kind with
  | ordered => exact MutableTree.leafFor_spec (Loaded.shaped facts) member
  | catalog => exact MutableTree.leafFor_spec (Loaded.shaped facts) member
  | chunkIndex owner => cases byteOrdered

end Loads

/-- A page over two leaves. -/
theorem loads_searchTree_two_leaves :
    ∃ (store : ExtentStore) (tree : MutableTree 1),
      TreeKind.ordered.Loads .default ⟨1, 2 ^ 20⟩ store (pageReference 28) tree
        [([1], []), ([2], [])] ∧
      tree.pairs = [([1], []), ([2], [])] ∧
      ∀ item ∈ tree.values, ∃ leaf, tree.leafFor item.key = some leaf ∧ item ∈ leaf.items := by
  obtain ⟨first, left⟩ := encodeLeafPage_single 1
  obtain ⟨second, right⟩ := encodeLeafPage_single 2
  obtain ⟨tree, load, loaded, gathered⟩ := @loadTree_complete _ _ _ _ _ _ _
    (orderedLoader_spec .default ⟨1, 2 ^ 20⟩ (slackStore [] first second)) 1 (pageReference 28) _
    { values := Keyed.empty, reachable := [] }
    (orderedHolds_slack (by decide) left right) (fun _ impossible => nomatch impossible)
  have loads : TreeKind.ordered.Loads .default ⟨1, 2 ^ 20⟩ (slackStore [] first second)
      (pageReference 28) tree [([1], []), ([2], [])] := ⟨_, load, loaded, gathered⟩
  obtain ⟨-, same, -, routes⟩ := loads_searchTree loads
  exact ⟨_, tree, loads, same, routes trivial⟩

end Miare
