import Miare.Cursor.Ordered
import Miare.Tree.Proofs.Mutable

/-!
# Paths in the ordered tree

A path that leads to a leaf cuts the values of the tree in three: those before the leaf, those in it
and those behind.  Every movement of a cursor is described by what it does to these three.
-/

namespace Miare

open Misc

/-- The path leads to a leaf with the values `leaf`, which stand between `before` and `after`. -/
def Leads : {level : Nat} → MutableTree level → List Nat →
    (before leaf after : List MutableTreeValue) → Prop
  | 0, node, path, before, leaf, after =>
    path = [] ∧ before = [] ∧ leaf = (node : MutableNode MutableTreeValue).items ∧ after = []
  | level + 1, node, path, before, leaf, after =>
    ∃ (front : List (MutableTree level)) (child : MutableTree level)
      (back : List (MutableTree level)) (rest : List Nat) (first last : List MutableTreeValue),
      (node : MutableNode (MutableTree level)).items = front ++ child :: back ∧
      path = front.length :: rest ∧ Leads child rest first leaf last ∧
      before = front.flatMap MutableTree.values ++ first ∧
      after = last ++ back.flatMap MutableTree.values

section Leads

variable {level : Nat} {tree : MutableTree level} {path : List Nat}
  {before leaf after : List MutableTreeValue}

theorem Leads.values_eq (leads : Leads tree path before leaf after) :
    tree.values = before ++ leaf ++ after := by
  induction level generalizing path before after with
  | zero =>
    obtain ⟨-, rfl, rfl, rfl⟩ := leads
    simp [MutableTree.values]
  | succ level ih =>
    obtain ⟨front, child, back, rest, first, last, items, -, below, rfl, rfl⟩ := leads
    change List.flatMap MutableTree.values (MutableNode.items tree) = _
    rw [items, List.flatMap_append, List.flatMap_cons, ih below]
    simp only [List.append_assoc]

/-- The end of the path is the leaf. -/
theorem Leads.followPath_eq (leads : Leads tree path before leaf after) :
    ∃ node : MutableNode MutableTreeValue, node.items = leaf ∧
      followPath tree path = some ⟨0, node⟩ := by
  induction level generalizing path before after with
  | zero =>
    obtain ⟨rfl, -, rfl, -⟩ := leads
    exact ⟨tree, rfl, rfl⟩
  | succ level ih =>
    obtain ⟨front, child, back, rest, first, last, items, rfl, below, -, -⟩ := leads
    obtain ⟨node, isLeaf, follows⟩ := ih below
    refine ⟨node, isLeaf, ?_⟩
    have found : (MutableNode.items tree)[front.length]? = some child := by
      rw [items]
      simp
    simp only [followPath, found, follows]

end Leads

/-! ## Descending -/

section Descend

variable {level : Nat} {tree : MutableTree level}

/-- One step of a descent. -/
theorem descendBy_succ (choose : List Bytes → Option Nat) {tree : MutableTree (level + 1)}
    (front back : List (MutableTree level)) (child : MutableTree level)
    (items : MutableNode.items tree = front ++ child :: back)
    (chosen : choose ((front ++ child :: back).map MutableTree.minimumKey) = some front.length) :
    descendBy choose tree =
      (front.length :: (descendBy choose child).1, (descendBy choose child).2) := by
  have found : (front ++ child :: back)[front.length]? = some child := by simp
  simp only [descendBy, items, chosen, found]

/-- The children of a shaped node with values. -/
theorem MutableTree.Shaped.children {tree : MutableTree (level + 1)} (shaped : tree.Shaped)
    (nonempty : tree.values ≠ []) :
    MutableNode.items tree ≠ [] ∧
      ∀ child ∈ MutableNode.items tree, child.Shaped ∧ child.values ≠ [] := by
  refine ⟨fun none => nonempty ?_, shaped.1⟩
  change List.flatMap MutableTree.values (MutableNode.items tree) = []
  rw [none]
  rfl

/-- The leftmost leaf. -/
theorem descendBy_first (shaped : tree.Shaped) (nonempty : tree.values ≠ []) :
    ∃ path leaf after, descendBy chooseFirst tree = (path, some leaf) ∧ leaf ≠ [] ∧
      Leads tree path [] leaf after := by
  induction level with
  | zero => exact ⟨[], MutableNode.items tree, [], rfl, nonempty, rfl, rfl, rfl, rfl⟩
  | succ level ih =>
    obtain ⟨some, children⟩ := shaped.children nonempty
    obtain ⟨child, back, items⟩ := List.exists_cons_of_ne_nil some
    obtain ⟨childShaped, childNonempty⟩ := children child (items ▸ List.mem_cons_self)
    obtain ⟨path, leaf, after, descends, leafNonempty, leads⟩ := ih childShaped childNonempty
    refine ⟨0 :: path, leaf, after ++ back.flatMap MutableTree.values, ?_, leafNonempty, ?_⟩
    · rw [descendBy_succ chooseFirst [] back child items (by simp [chooseFirst]), descends]
      rfl
    · exact ⟨[], child, back, path, [], after, items, rfl, leads, rfl, rfl⟩

/-- The rightmost leaf. -/
theorem descendBy_last (shaped : tree.Shaped) (nonempty : tree.values ≠ []) :
    ∃ path before leaf, descendBy chooseLast tree = (path, some leaf) ∧ leaf ≠ [] ∧
      Leads tree path before leaf [] := by
  induction level with
  | zero => exact ⟨[], [], MutableNode.items tree, rfl, nonempty, rfl, rfl, rfl, rfl⟩
  | succ level ih =>
    obtain ⟨some, children⟩ := shaped.children nonempty
    obtain ⟨front, child, items⟩ : ∃ front child, MutableNode.items tree = front ++ [child] :=
      ⟨_, _, (List.dropLast_append_getLast some).symm⟩
    obtain ⟨childShaped, childNonempty⟩ := children child (items ▸ by simp)
    obtain ⟨path, before, leaf, descends, leafNonempty, leads⟩ := ih childShaped childNonempty
    refine ⟨front.length :: path, front.flatMap MutableTree.values ++ before, leaf, ?_,
      leafNonempty, ?_⟩
    · rw [descendBy_succ chooseLast front [] child items (by simp [chooseLast]), descends]
    · exact ⟨front, child, [], path, before, [], items, rfl, leads, rfl, by simp⟩

/-- The leaf of a key: the keys before it are less, those behind it are not. -/
theorem descendBy_lowerBound (sought : Bytes) (shaped : tree.Shaped)
    (nonempty : tree.values ≠ []) :
    ∃ path before leaf after, descendBy (mutableChildFor sought) tree = (path, some leaf) ∧
      leaf ≠ [] ∧ Leads tree path before leaf after ∧
      (∀ value ∈ before, value.key < sought) ∧ ∀ value ∈ after, sought ≤ value.key := by
  induction level with
  | zero =>
    refine ⟨[], [], MutableNode.items tree, [], rfl, nonempty, ⟨rfl, rfl, rfl, rfl⟩, ?_, ?_⟩ <;>
      simp
  | succ level ih =>
    obtain ⟨some, children⟩ := shaped.children nonempty
    obtain ⟨front, child, back, routed⟩ :=
      MutableTree.exists_routed sought children shaped.2.1 some
    obtain ⟨childShaped, childNonempty⟩ := children child (routed.split ▸ by simp)
    obtain ⟨path, before, leaf, after, descends, leafNonempty, leads, less, notLess⟩ :=
      ih childShaped childNonempty
    refine ⟨front.length :: path, front.flatMap MutableTree.values ++ before, leaf,
      after ++ back.flatMap MutableTree.values, ?_, leafNonempty,
      ⟨front, child, back, path, before, after, routed.split, rfl, leads, rfl, rfl⟩, ?_, ?_⟩
    · have chosen := routed.found
      rw [routed.split] at chosen
      rw [descendBy_succ _ front back child routed.split chosen, descends]
    · intro value member
      rcases List.mem_append.1 member with inFront | inChild
      · exact routed.below value inFront
      · exact less value inChild
    · intro value member
      rcases List.mem_append.1 member with inChild | inBack
      · exact notLess value inChild
      · exact (routed.above value inBack).le

end Descend

/-! ## The next and the previous leaf -/

section Move

variable {step : LeafStep} {level : Nat}

/-- The loop on a path into a child is the loop in the child, and then one turn at the child's own
siblings. -/
theorem moveToLeaf_cons {tree : MutableTree (level + 1)} {child : MutableTree level} {index : Nat}
    (found : (MutableNode.items tree)[index]? = some child) (depth : Nat) (path : List Nat) :
    moveToLeaf step ⟨level + 1, tree⟩ (depth + 1) (index :: path) =
      match moveToLeaf step ⟨level, child⟩ depth path with
      | .error error => .error error
      | .ok (below, some valueIndex) => .ok (index :: below, some valueIndex)
      | .ok (below, none) => moveToLeaf step ⟨level + 1, tree⟩ 1 (index :: below) := by
  induction depth generalizing path with
  | zero => rfl
  | succ depth ih =>
    have follows : followPath tree ((index :: path).take (depth + 1)) =
        followPath child (path.take depth) := by
      simp only [List.take_succ_cons, followPath, found]
    conv_lhs => rw [moveToLeaf, follows, List.getElem?_cons_succ]
    conv_rhs => rw [moveToLeaf]
    cases followPath child (path.take depth) with
    | none => rfl
    | some node =>
      obtain ⟨height, node⟩ := node
      cases height with
      | zero => rfl
      | succ height =>
        cases path[depth]? with
        | none => rfl
        | some position =>
          dsimp only
          cases step.sibling position (MutableNode.items node).length with
          | none => exact ih path
          | some other =>
            dsimp only
            cases (MutableNode.items node)[other]? with
            | none => rfl
            | some sibling =>
              dsimp only
              cases (descendBy step.choose sibling).2 with
              | none => rfl
              | some values =>
                cases values with
                | nil => exact ih _
                | cons value values => rfl

/-- The end of the loop, at the siblings of a child of the root. -/
theorem moveToLeaf_one {tree : MutableTree (level + 1)} {index other : Nat} {path below : List Nat}
    {sibling : MutableTree level} {leaf : List MutableTreeValue}
    (has : step.sibling index (MutableNode.items tree).length = some other)
    (found : (MutableNode.items tree)[other]? = some sibling)
    (descends : descendBy step.choose sibling = (below, some leaf)) (nonempty : leaf ≠ []) :
    moveToLeaf step ⟨level + 1, tree⟩ 1 (index :: path) =
      .ok (other :: below, some (step.valueIndex leaf.length)) := by
  obtain ⟨value, values, rfl⟩ := List.exists_cons_of_ne_nil nonempty
  simp only [moveToLeaf, List.take_zero, followPath, List.getElem?_cons_zero, has, found, descends,
    List.nil_append]

theorem moveToLeaf_one_none {tree : MutableTree (level + 1)} {index : Nat} {path : List Nat}
    (has : step.sibling index (MutableNode.items tree).length = none) :
    moveToLeaf step ⟨level + 1, tree⟩ 1 (index :: path) = .ok (index :: path, none) := by
  simp only [moveToLeaf, List.take_zero, followPath, List.getElem?_cons_zero, has]

/-- `moveToNextLeaf` finds the leaf behind, when there is one. -/
theorem moveToLeaf_next {tree : MutableTree level} {path : List Nat}
    {before leaf after : List MutableTreeValue} (shaped : tree.Shaped)
    (leads : Leads tree path before leaf after) :
    (after = [] ∧ ∃ path', moveToLeaf nextLeafStep ⟨level, tree⟩ path.length path =
        .ok (path', none)) ∨
      ∃ path' next rest, next ≠ [] ∧ after = next ++ rest ∧
        moveToLeaf nextLeafStep ⟨level, tree⟩ path.length path = .ok (path', some 0) ∧
        Leads tree path' (before ++ leaf) next rest := by
  induction level generalizing path before after with
  | zero =>
    obtain ⟨rfl, -, -, rfl⟩ := leads
    exact .inl ⟨rfl, [], rfl⟩
  | succ level ih =>
    obtain ⟨front, child, back, rest, first, last, items, rfl, below, rfl, rfl⟩ := leads
    have found : (MutableNode.items tree)[front.length]? = some child := by
      rw [items]
      simp
    obtain ⟨childShaped, -⟩ := shaped.1 child (items ▸ by simp)
    rw [List.length_cons, moveToLeaf_cons found]
    rcases ih childShaped below with ⟨rfl, path', moves⟩ |
      ⟨path', next, others, nonempty, rfl, moves, leads⟩
    · -- the child has no further leaf: the next one is in the sibling behind it
      rw [moves]
      cases back with
      | nil =>
        refine .inl ⟨rfl, front.length :: path', moveToLeaf_one_none ?_⟩
        simp [nextLeafStep, items]
      | cons sibling back =>
        obtain ⟨siblingShaped, siblingNonempty⟩ := shaped.1 sibling (items ▸ by simp)
        obtain ⟨edge, leaf', after', descends, nonempty, leads⟩ :=
          descendBy_first siblingShaped siblingNonempty
        have siblingValues := leads.values_eq
        refine .inr ⟨(front.length + 1) :: edge, leaf', after' ++ back.flatMap MutableTree.values,
          nonempty, ?_, ?_, ?_⟩
        · rw [List.flatMap_cons, siblingValues]
          simp
        · refine moveToLeaf_one ?_ ?_ descends nonempty
          · simp [nextLeafStep, items]
          · rw [items, List.getElem?_append_right (by omega)]
            simp
        · have childValues := below.values_eq
          refine ⟨front ++ [child], sibling, back, edge, [], after', by rw [items]; simp,
            by simp, leads, ?_, rfl⟩
          rw [List.flatMap_append, List.flatMap_cons, childValues]
          simp
    · rw [moves]
      refine .inr ⟨front.length :: path', next, others ++ back.flatMap MutableTree.values, nonempty,
        by rw [List.append_assoc], rfl, ?_⟩
      exact ⟨front, child, back, path', first ++ leaf, others, items, rfl, leads,
        by rw [List.append_assoc], rfl⟩

/-- `moveToPreviousLeaf` finds the leaf before, when there is one. -/
theorem moveToLeaf_previous {tree : MutableTree level} {path : List Nat}
    {before leaf after : List MutableTreeValue} (shaped : tree.Shaped)
    (leads : Leads tree path before leaf after) :
    (before = [] ∧ ∃ path', moveToLeaf previousLeafStep ⟨level, tree⟩ path.length path =
        .ok (path', none)) ∨
      ∃ path' rest previous, previous ≠ [] ∧ before = rest ++ previous ∧
        moveToLeaf previousLeafStep ⟨level, tree⟩ path.length path =
          .ok (path', some (previous.length - 1)) ∧
        Leads tree path' rest previous (leaf ++ after) := by
  induction level generalizing path before after with
  | zero =>
    obtain ⟨rfl, rfl, -, -⟩ := leads
    exact .inl ⟨rfl, [], rfl⟩
  | succ level ih =>
    obtain ⟨front, child, back, rest, first, last, items, rfl, below, rfl, rfl⟩ := leads
    have found : (MutableNode.items tree)[front.length]? = some child := by
      rw [items]
      simp
    obtain ⟨childShaped, -⟩ := shaped.1 child (items ▸ by simp)
    rw [List.length_cons, moveToLeaf_cons found]
    rcases ih childShaped below with ⟨rfl, path', moves⟩ |
      ⟨path', others, previous, nonempty, rfl, moves, leads⟩
    · rw [moves]
      rcases List.eq_nil_or_concat front with rfl | ⟨front, sibling, rfl⟩
      · exact .inl ⟨rfl, 0 :: path', moveToLeaf_one_none rfl⟩
      · obtain ⟨siblingShaped, siblingNonempty⟩ := shaped.1 sibling (items ▸ by simp)
        obtain ⟨edge, before', leaf', descends, nonempty, leads⟩ :=
          descendBy_last siblingShaped siblingNonempty
        have siblingValues := leads.values_eq
        refine .inr ⟨front.length :: edge, front.flatMap MutableTree.values ++ before', leaf',
          nonempty, ?_, ?_, ?_⟩
        · rw [List.concat_eq_append, List.flatMap_append, List.flatMap_cons, siblingValues]
          simp
        · refine moveToLeaf_one ?_ ?_ descends nonempty
          · simp [previousLeafStep]
          · rw [items]
            simp
        · have childValues := below.values_eq
          refine ⟨front, sibling, child :: back, edge, before', [], by rw [items]; simp, rfl, leads,
            rfl, ?_⟩
          rw [List.flatMap_cons, childValues]
          simp
    · rw [moves]
      refine .inr ⟨front.length :: path', front.flatMap MutableTree.values ++ others, previous,
        nonempty, by rw [List.append_assoc], rfl, ?_⟩
      exact ⟨front, child, back, path', others, leaf ++ last, items, rfl, leads, rfl,
        by rw [List.append_assoc]⟩

end Move

end Miare
