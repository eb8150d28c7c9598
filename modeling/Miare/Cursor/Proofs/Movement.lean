import Miare.Cursor.Proofs.Walk

/-!
# Movements of a cursor

A positioned cursor stands on one value of the tree.  Each movement is described by the position
among all values on which the cursor stands then.
-/

namespace Miare

open Misc

namespace OrderedCursor

/-- The cursor's path and index lead to the value at `position` among all values of the tree. -/
def Stands (cursor : OrderedCursor) (position : Nat) : Prop :=
  ∃ before leaf after, Leads cursor.root.tree cursor.path before leaf after ∧
    cursor.valueIndex < leaf.length ∧ position = before.length + cursor.valueIndex

/-- Tree and range are those of another cursor. -/
structure SameRange (cursor other : OrderedCursor) : Prop where
  root : other.root = cursor.root
  lower : other.lower = cursor.lower
  upper : other.upper = cursor.upper

/-- A movement that ends on `target`, or without a position. -/
def Lands (cursor : OrderedCursor) (target : Option Nat) (moved : Bool × OrderedCursor) : Prop :=
  SameRange cursor moved.2 ∧
    match target with
    | some position => moved.1 = true ∧ moved.2.positioned = true ∧ moved.2.Stands position
    | none => moved.1 = false ∧ moved.2.positioned = false

theorem Lands.of_sameRange {cursor other : OrderedCursor} {target : Option Nat}
    {moved : Bool × OrderedCursor} (same : SameRange cursor other) (lands : other.Lands target moved) :
    cursor.Lands target moved :=
  ⟨⟨lands.1.root.trans same.root, lands.1.lower.trans same.lower, lands.1.upper.trans same.upper⟩,
    lands.2⟩

/-- A position of a list with `count` entries. -/
def inList (count position : Nat) : Option Nat := if position < count then some position else none

/-- The position before another. -/
def stepBack (position : Nat) : Option Nat := if position = 0 then none else some (position - 1)

variable {cursor : OrderedCursor} {position : Nat}

/-- All values of the tree. -/
abbrev values (cursor : OrderedCursor) : List MutableTreeValue := cursor.root.tree.values

theorem leafValues_eq {before leaf after : List MutableTreeValue}
    (leads : Leads cursor.root.tree cursor.path before leaf after) :
    cursor.leafValues = .ok leaf := by
  obtain ⟨node, isLeaf, follows⟩ := leads.followPath_eq
  rw [leafValues, follows]
  exact congrArg Except.ok isLeaf

/-- The value on which a cursor stands. -/
theorem Stands.currentValue_eq (stands : cursor.Stands position) :
    ∃ value, cursor.currentValue = .ok value ∧ cursor.values[position]? = some value := by
  obtain ⟨before, leaf, after, leads, inside, rfl⟩ := stands
  have found : leaf[cursor.valueIndex]? = some leaf[cursor.valueIndex] :=
    List.getElem?_eq_getElem inside
  refine ⟨leaf[cursor.valueIndex], ?_, ?_⟩
  · rw [currentValue, leafValues_eq leads, ok_bind, found]
  · rw [values, leads.values_eq, List.append_assoc, List.getElem?_append_right (by omega),
      Nat.add_sub_cancel_left, List.getElem?_append_left inside, found]

/-! ## Leaves -/

section Leaves

variable (shaped : cursor.root.tree.Shaped) {before leaf after : List MutableTreeValue}

include shaped

/-- `moveToNextLeaf` goes to the first value behind the leaf. -/
theorem moveToNextLeaf_lands (leads : Leads cursor.root.tree cursor.path before leaf after) :
    ∃ moved, cursor.moveToNextLeaf = .ok moved ∧
      cursor.Lands (inList cursor.values.length (before ++ leaf).length) moved := by
  have all := leads.values_eq
  unfold moveToNextLeaf moveLeaf
  rcases moveToLeaf_next shaped leads with ⟨rfl, path, moves⟩ |
    ⟨path, next, rest, nonempty, rfl, moves, there⟩
  · refine ⟨_, by rw [moves]; rfl, ⟨rfl, rfl, rfl⟩, ?_⟩
    rw [inList, if_neg (by rw [values, all, List.append_nil]; omega)]
    exact ⟨rfl, rfl⟩
  · refine ⟨_, by rw [moves]; rfl, ⟨rfl, rfl, rfl⟩, ?_⟩
    have positive := List.length_pos_iff.2 nonempty
    rw [inList, if_pos (by rw [values, all]; simp only [List.length_append]; omega)]
    exact ⟨rfl, rfl, before ++ leaf, next, rest, there, positive, rfl⟩

/-- `moveToPreviousLeaf` goes to the last value before the leaf. -/
theorem moveToPreviousLeaf_lands (leads : Leads cursor.root.tree cursor.path before leaf after) :
    ∃ moved, cursor.moveToPreviousLeaf = .ok moved ∧
      cursor.Lands (stepBack before.length) moved := by
  unfold moveToPreviousLeaf moveLeaf
  rcases moveToLeaf_previous shaped leads with ⟨rfl, path, moves⟩ |
    ⟨path, rest, previous, nonempty, rfl, moves, there⟩
  · exact ⟨_, by rw [moves]; rfl, ⟨rfl, rfl, rfl⟩, rfl, rfl⟩
  · refine ⟨_, by rw [moves]; rfl, ⟨rfl, rfl, rfl⟩, ?_⟩
    have positive := List.length_pos_iff.2 nonempty
    rw [List.length_append, stepBack, if_neg (by omega)]
    exact ⟨rfl, rfl, rest, previous, leaf ++ after, there, by dsimp only; omega,
      by dsimp only; omega⟩

end Leaves

/-! ## Values -/

section Values

variable (shaped : cursor.root.tree.Shaped)

include shaped

theorem moveToNextValue_lands (positioned : cursor.positioned = true)
    (stands : cursor.Stands position) :
    ∃ moved, cursor.moveToNextValue = .ok moved ∧
      cursor.Lands (inList cursor.values.length (position + 1)) moved := by
  obtain ⟨before, leaf, after, leads, inside, rfl⟩ := stands
  have all := leads.values_eq
  rw [moveToNextValue, leafValues_eq leads, ok_bind]
  by_cases more : cursor.valueIndex + 1 ≠ leaf.length
  · rw [if_pos more]
    refine ⟨_, rfl, ⟨rfl, rfl, rfl⟩, ?_⟩
    rw [inList, if_pos (by rw [values, all]; simp only [List.length_append]; omega)]
    exact ⟨rfl, positioned, before, leaf, after, leads, by dsimp only; omega,
      by dsimp only; omega⟩
  · rw [if_neg more]
    obtain ⟨moved, moves, lands⟩ := moveToNextLeaf_lands shaped leads
    have behind : (before ++ leaf).length = before.length + cursor.valueIndex + 1 := by
      rw [List.length_append]
      omega
    rw [behind] at lands
    exact ⟨moved, moves, lands⟩

theorem moveToPreviousValue_lands (positioned : cursor.positioned = true)
    (stands : cursor.Stands position) :
    ∃ moved, cursor.moveToPreviousValue = .ok moved ∧
      cursor.Lands (stepBack position) moved := by
  obtain ⟨before, leaf, after, leads, inside, rfl⟩ := stands
  unfold moveToPreviousValue
  by_cases first : cursor.valueIndex = 0
  · rw [if_neg (by simp [first]), first, Nat.add_zero]
    exact moveToPreviousLeaf_lands shaped leads
  · rw [if_pos ⟨positioned, first⟩]
    refine ⟨_, rfl, ⟨rfl, rfl, rfl⟩, ?_⟩
    rw [stepBack, if_neg (by omega)]
    exact ⟨rfl, positioned, before, leaf, after, leads, by dsimp only; omega,
      by dsimp only; omega⟩

/-! ## Descents -/

/-- In a tree without values a descent ends at the root, which is an empty leaf or an inner node
without children. -/
theorem descendBy_empty (choose : List Bytes → Option Nat) (gives : choose [] = none)
    (empty : cursor.values = []) :
    ∃ found, descendBy choose cursor.root.tree = ([], found) ∧
      (found = none ∨ found = some []) := by
  obtain ⟨⟨level, tree⟩, lower, upper, path, valueIndex, positioned⟩ := cursor
  cases level with
  | zero => exact ⟨some (MutableNode.items tree), rfl, .inr (congrArg some empty)⟩
  | succ level =>
    have childless : MutableNode.items tree = [] := by
      by_contra some_
      obtain ⟨child, rest, items⟩ := List.exists_cons_of_ne_nil some_
      have member : child ∈ MutableNode.items tree := by simp [items]
      exact (shaped.1 child member).2 (List.flatMap_eq_nil_iff.1 empty child member)
    refine ⟨none, ?_, .inl rfl⟩
    simp only [descendBy, childless, List.map_nil, gives]

theorem descendLeft_lands : cursor.Lands (inList cursor.values.length 0) cursor.descendLeft := by
  unfold descendLeft descendEdge
  by_cases empty : cursor.values = []
  · obtain ⟨found, descends, rfl | rfl⟩ := descendBy_empty shaped chooseFirst rfl empty <;>
      rw [descends, empty] <;> exact ⟨⟨rfl, rfl, rfl⟩, rfl, rfl⟩
  · obtain ⟨path, leaf, after, descends, nonempty, leads⟩ := descendBy_first shaped empty
    obtain ⟨value, rest, rfl⟩ := List.exists_cons_of_ne_nil nonempty
    rw [descends, inList, if_pos (List.length_pos_iff.2 empty)]
    exact ⟨⟨rfl, rfl, rfl⟩, rfl, rfl, [], _, after, leads, by simp, rfl⟩

theorem descendRight_lands :
    cursor.Lands (stepBack cursor.values.length) cursor.descendRight := by
  unfold descendRight descendEdge
  by_cases empty : cursor.values = []
  · obtain ⟨found, descends, rfl | rfl⟩ := descendBy_empty shaped chooseLast rfl empty <;>
      rw [descends, empty] <;> exact ⟨⟨rfl, rfl, rfl⟩, rfl, rfl⟩
  · obtain ⟨path, before, leaf, descends, nonempty, leads⟩ := descendBy_last shaped empty
    obtain ⟨value, rest, rfl⟩ := List.exists_cons_of_ne_nil nonempty
    have all : cursor.values = before ++ value :: rest := by
      rw [values, leads.values_eq, List.append_nil]
    rw [descends, all, List.length_append, List.length_cons, stepBack, if_neg (by omega)]
    exact ⟨⟨rfl, rfl, rfl⟩, rfl, rfl, before, _, [], leads, by simp, by simp⟩

/-- `descendLowerBound` finds the first key that is not less than the one sought. -/
theorem descendLowerBound_lands (sought : Bytes) :
    ∃ moved, cursor.descendLowerBound sought = .ok moved ∧
      cursor.Lands (inList cursor.values.length
        (lowerIndex MutableTreeValue.key sought cursor.values)) moved := by
  unfold descendLowerBound
  by_cases empty : cursor.values = []
  · obtain ⟨found, descends, rfl | rfl⟩ :=
      descendBy_empty shaped (mutableChildFor sought) rfl empty <;>
      rw [descends, empty] <;> exact ⟨_, rfl, ⟨rfl, rfl, rfl⟩, rfl, rfl⟩
  · obtain ⟨path, before, leaf, after, descends, nonempty, leads, less, notLess⟩ :=
      descendBy_lowerBound sought shaped empty
    have all : cursor.values = before ++ leaf ++ after := leads.values_eq
    have increasing : Increasing MutableTreeValue.key (before ++ leaf ++ after) :=
      all ▸ shaped.increasing
    have inLeaf : Increasing MutableTreeValue.key leaf :=
      List.Pairwise.sublist (by simp) (List.pairwise_append.1 increasing).1
    obtain ⟨low, high, rfl, lowLess, highNot, isLength⟩ := inLeaf.split_at sought
    have place : lowerIndex MutableTreeValue.key sought cursor.values =
        before.length + low.length := by
      rw [all, show before ++ (low ++ high) ++ after = (before ++ low) ++ (high ++ after) by simp,
        lowerIndex_append, List.length_append]
      · intro value member
        exact (List.mem_append.1 member).elim (less value) (lowLess value)
      · intro value member
        exact (List.mem_append.1 member).elim (highNot value) (notLess value)
    rw [descends, place]
    simp only [lowerBound, isLength]
    by_cases inside : high = []
    · -- the leaf ends before the sought key: the next leaf begins with it
      subst inside
      rw [if_neg (by simp)]
      let stopped := { cursor with path, valueIndex := low.length, positioned := false }
      obtain ⟨moved, moves, lands⟩ := @moveToNextLeaf_lands stopped shaped _ _ _ leads
      rw [List.append_nil, List.length_append] at lands
      exact ⟨moved, by simpa [stopped] using moves,
        @Lands.of_sameRange cursor stopped _ _ ⟨rfl, rfl, rfl⟩ lands⟩
    · have positive := List.length_pos_iff.2 inside
      have differs : low.length ≠ (low ++ high).length := by
        rw [List.length_append]
        omega
      rw [if_pos (decide_eq_true differs), inList, if_pos (by
        rw [all]
        simp only [List.length_append]
        omega)]
      exact ⟨_, rfl, ⟨rfl, rfl, rfl⟩, rfl, decide_eq_true differs, before, _, after, leads,
        by simp only [List.length_append]; omega, rfl⟩

end Values

end OrderedCursor

end Miare
