import Miare.Tree.Mutable
import Miare.Misc.PagedTree

/-!
# Well-formed mutable trees

`Shaped` is the order of a mutable tree: the values below a node increase, only the root may be
without values, and a node with values knows its least key.  `Kept` ties a tree to the pages it was
loaded from: an unchanged node still stands for the page at its reference.
-/

namespace Miare

open Misc

/-- A value as the map sees it. -/
def MutableTreeValue.pair (item : MutableTreeValue) : Bytes × Bytes := (item.key, item.value)

/-- The keys and values below a node. -/
def MutableTree.pairs {level : Nat} (tree : MutableTree level) : List (Bytes × Bytes) :=
  tree.values.map MutableTreeValue.pair

theorem pairs_flatMap {level : Nat} (trees : List (MutableTree level)) :
    (trees.flatMap MutableTree.values).map MutableTreeValue.pair =
      trees.flatMap MutableTree.pairs := by
  rw [List.map_flatMap]
  rfl

theorem increasing_pairs {values : List MutableTreeValue} :
    Increasing Prod.fst (values.map MutableTreeValue.pair) ↔
      Increasing MutableTreeValue.key values :=
  List.pairwise_map

theorem valuesMinimum_eq {values : List MutableTreeValue} (nonempty : values ≠ []) :
    firstKey MutableTreeValue.key values = some (valuesMinimum values) := by
  obtain ⟨first, rest, rfl⟩ := List.exists_cons_of_ne_nil nonempty
  rfl

theorem firstKey_pairs (values : List MutableTreeValue) :
    firstKey Prod.fst (values.map MutableTreeValue.pair) =
      firstKey MutableTreeValue.key values := by
  cases values <;> rfl

theorem valuesMinimum_append {left right : List MutableTreeValue} (nonempty : left ≠ []) :
    valuesMinimum (left ++ right) = valuesMinimum left := by
  obtain ⟨first, rest, rfl⟩ := List.exists_cons_of_ne_nil nonempty
  rfl

/-- The least key is below all keys. -/
theorem valuesMinimum_le {values : List MutableTreeValue} {item : MutableTreeValue}
    (increasing : Increasing MutableTreeValue.key values) (member : item ∈ values) :
    valuesMinimum values ≤ item.key := by
  obtain ⟨first, rest, rfl⟩ := List.exists_cons_of_ne_nil (List.ne_nil_of_mem member)
  rcases List.mem_cons.1 member with rfl | later
  · exact le_rfl
  · exact ((increasing_cons.1 increasing).1 item later).le

theorem valuesMinimum_mem {values : List MutableTreeValue} (nonempty : values ≠ []) :
    ∃ item ∈ values, item.key = valuesMinimum values := by
  obtain ⟨first, rest, rfl⟩ := List.exists_cons_of_ne_nil nonempty
  exact ⟨first, List.mem_cons_self, rfl⟩

namespace MutableTree

/-- Ordered, without empty inner subtrees, with exact least keys. -/
def Shaped : {level : Nat} → MutableTree level → Prop
  | 0, node =>
    let leaf : MutableNode MutableTreeValue := node
    Increasing MutableTreeValue.key leaf.items ∧
      (leaf.items ≠ [] → leaf.minimumKey = valuesMinimum leaf.items)
  | level + 1, node =>
    let inner : MutableNode (MutableTree level) := node
    (∀ child ∈ inner.items, Shaped child ∧ child.values ≠ []) ∧
      Increasing MutableTreeValue.key (inner.items.flatMap values) ∧
      (inner.items ≠ [] → inner.minimumKey = valuesMinimum (inner.items.flatMap values))

/-- Unchanged nodes stand for their pages, and the values in memory are good ones. -/
def Kept (pages : Pages Bytes ExtentReference (Bytes × Bytes)) (good : MutableTreeValue → Prop) :
    {level : Nat} → MutableTree level → Prop
  | 0, node =>
    let leaf : MutableNode MutableTreeValue := node
    (leaf.dirty = false → leaf.items ≠ [] →
        Holds Prod.fst pages 0 leaf.reference (leaf.items.map MutableTreeValue.pair)) ∧
      ∀ item ∈ leaf.items, good item
  | level + 1, node =>
    let inner : MutableNode (MutableTree level) := node
    (inner.dirty = false → inner.items ≠ [] →
        Holds Prod.fst pages (level + 1) inner.reference
            ((inner.items.flatMap values).map MutableTreeValue.pair) ∧
          ∃ children, pages.inner (level + 1) inner.reference children ∧
            children.length = inner.items.length) ∧
      ∀ child ∈ inner.items, Kept pages good child

/-- Number of children; a leaf has none. -/
def width : {level : Nat} → MutableTree level → Nat
  | 0, _ => 0
  | level + 1, node => (node : MutableNode (MutableTree level)).items.length

variable {level : Nat} {tree : MutableTree level}

theorem Kept.good {pages : Pages Bytes ExtentReference (Bytes × Bytes)}
    {good : MutableTreeValue → Prop} (kept : tree.Kept pages good) {item : MutableTreeValue}
    (member : item ∈ tree.values) : good item := by
  induction level with
  | zero => exact kept.2 item member
  | succ level ih =>
    obtain ⟨child, inItems, inChild⟩ := List.mem_flatMap.1 member
    exact ih (kept.2 child inItems) inChild

theorem Kept.mono {pages larger : Pages Bytes ExtentReference (Bytes × Bytes)}
    {good better : MutableTreeValue → Prop}
    (holds : ∀ {level reference entries}, Holds Prod.fst pages level reference entries →
      Holds Prod.fst larger level reference entries)
    (inners : ∀ {level reference children}, pages.inner level reference children →
      larger.inner level reference children)
    (items : ∀ {item}, good item → better item) (kept : tree.Kept pages good) :
    tree.Kept larger better := by
  induction level with
  | zero =>
    exact ⟨fun clean some => holds (kept.1 clean some),
      fun item member => items (kept.2 item member)⟩
  | succ level ih =>
    refine ⟨fun clean some => ?_, fun child member => ih (kept.2 child member)⟩
    obtain ⟨whole, children, isInner, count⟩ := kept.1 clean some
    exact ⟨holds whole, children, inners isInner, count⟩

theorem Shaped.increasing (shaped : tree.Shaped) :
    Increasing MutableTreeValue.key tree.values := by
  cases level with
  | zero => exact shaped.1
  | succ level => exact shaped.2.1

theorem Shaped.minimumKey_eq (shaped : tree.Shaped) (nonempty : tree.values ≠ []) :
    tree.minimumKey = valuesMinimum tree.values := by
  cases level with
  | zero => exact shaped.2 nonempty
  | succ level =>
    refine shaped.2.2 fun none => nonempty ?_
    change List.flatMap values (MutableNode.items tree) = []
    rw [none]
    rfl

theorem Shaped.firstKey_eq (shaped : tree.Shaped) (nonempty : tree.values ≠ []) :
    firstKey Prod.fst tree.pairs = some tree.minimumKey := by
  rw [pairs, firstKey_pairs, valuesMinimum_eq nonempty, shaped.minimumKey_eq nonempty]

/-- A shaped node has values iff it has items. -/
theorem Shaped.isEmpty_iff (shaped : tree.Shaped) : tree.isEmpty = true ↔ tree.values = [] := by
  cases level with
  | zero => exact List.isEmpty_iff
  | succ level =>
    change List.isEmpty (MutableNode.items tree) = true ↔
      List.flatMap values (MutableNode.items tree) = []
    rw [List.isEmpty_iff, List.flatMap_eq_nil_iff]
    constructor
    · intro none child member
      rw [none] at member
      cases member
    · intro all
      by_contra some
      obtain ⟨child, rest, isCons⟩ := List.exists_cons_of_ne_nil some
      have member : child ∈ MutableNode.items tree := isCons ▸ List.mem_cons_self
      exact (shaped.1 child member).2 (all child member)

end MutableTree

end Miare
