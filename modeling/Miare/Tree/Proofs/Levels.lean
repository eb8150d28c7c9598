import Miare.Tree.Levels
import Miare.Page.Proofs.Balance

/-!
# Facts about writing a tree that hold for every placement
-/

namespace Miare

open Misc

variable {σ : Type*} {α : Type*} {L : Limits} {place : Placement σ} {role kind turns : Nat}
  {nodes parents : List PreparedTreeNode} {root : PreparedTreeNode} {state after : σ}

/-! ## The pages of a level -/

section Pages

variable {encode : List α → Option Bytes} {overflow : TreeError} {minimum : List α → Bytes}
  {level : List α → Nat} {page : List α} {pages : List (List α)}

theorem placePages_cons
    (placed : placePages place kind encode overflow minimum level (page :: pages) state =
      .ok (nodes, after)) :
    ∃ payload others, encode page = some payload ∧
      placePages place kind encode overflow minimum level pages (place state payload kind).2 =
        .ok (others, after) ∧
      nodes = { reference := (place state payload kind).1, minimumKey := minimum page,
                level := level page } :: others := by
  simp only [placePages] at placed
  split at placed
  · cases placed
  · rename_i payload encoded
    split at placed
    · cases placed
    · rename_i others final tail
      obtain ⟨rfl, rfl⟩ := placed
      exact ⟨payload, others, encoded, tail, rfl⟩

theorem placePages_nil
    (placed : placePages place kind encode overflow minimum level [] state = .ok (nodes, after)) :
    nodes = [] ∧ after = state := by
  simp only [placePages, Except.ok.injEq, Prod.mk.injEq] at placed
  exact ⟨placed.1.symm, placed.2.symm⟩

/-- A placement state property that every placed page keeps. -/
def Placement.Keeps (place : Placement σ) (P : σ → Prop) : Prop :=
  ∀ state payload kind, P state → P (place state payload kind).2

theorem placePages_keeps {P : σ → Prop} (keeps : place.Keeps P) (before : P state)
    (placed : placePages place kind encode overflow minimum level pages state =
      .ok (nodes, after)) : P after := by
  induction pages generalizing state nodes with
  | nil =>
    obtain ⟨-, rfl⟩ := placePages_nil placed
    exact before
  | cons page rest ih =>
    obtain ⟨payload, others, -, tail, -⟩ := placePages_cons placed
    exact ih (keeps _ payload kind before) tail

section Placed

variable
  (placed : placePages place kind encode overflow minimum level pages state = .ok (nodes, after))

include placed

/-- One node per page, with the least key of the page and its level. -/
theorem placePages_nodes :
    nodes.map PreparedTreeNode.minimumKey = pages.map minimum ∧
      nodes.map PreparedTreeNode.level = pages.map level := by
  induction pages generalizing state nodes with
  | nil =>
    obtain ⟨rfl, -⟩ := placePages_nil placed
    exact ⟨rfl, rfl⟩
  | cons page rest ih =>
    obtain ⟨payload, others, -, tail, rfl⟩ := placePages_cons placed
    obtain ⟨keys, levels⟩ := ih tail
    simp [keys, levels]

theorem placePages_minimumKeys :
    nodes.map PreparedTreeNode.minimumKey = pages.map minimum :=
  (placePages_nodes placed).1

theorem placePages_levels : nodes.map PreparedTreeNode.level = pages.map level :=
  (placePages_nodes placed).2

theorem placePages_length : nodes.length = pages.length := by
  have := congrArg List.length (placePages_minimumKeys placed)
  simpa using this

end Placed

theorem placePages_error {error : TreeError}
    (failed : placePages place kind encode overflow minimum level pages state = .error error) :
    error = overflow ∧ ∃ page ∈ pages, encode page = none := by
  induction pages generalizing state with
  | nil => cases failed
  | cons page rest ih =>
    simp only [placePages] at failed
    split at failed
    · rename_i none
      exact ⟨(Except.error.inj failed).symm, page, List.mem_cons_self, none⟩
    · split at failed
      · rename_i inner
        obtain ⟨same, page, member, none⟩ := ih (inner.trans failed)
        exact ⟨same, page, List.mem_cons_of_mem _ member, none⟩
      · cases failed

end Pages

/-! ## The levels above -/

theorem levelUp_ok (up : levelUp L role kind place nodes state = .ok (parents, after)) :
    nodes ≠ [] ∧ ∃ pages, splitPages L.pagePayloadBytes internalUsedLength nodes = some pages ∧
      placePages place kind (encodeInternalPage L role) .separatorOverflow groupMinimum
        (fun page => groupLevel page + 1) pages state = .ok (parents, after) := by
  unfold levelUp at up
  split at up
  · cases up
  · rename_i nonempty
    split at up
    · cases up
    · rename_i pages split
      exact ⟨nonempty, pages, split, up⟩

/-- A growth loop that comes to a root. -/
inductive Grows (L : Limits) (role kind : Nat) (place : Placement σ) :
    List PreparedTreeNode → σ → PreparedTreeNode → σ → Prop
  | root (root : PreparedTreeNode) (state : σ) : Grows L role kind place [root] state root state
  | up {nodes parents : List PreparedTreeNode} {root : PreparedTreeNode} {state next after : σ}
      (several : nodes.length ≠ 1)
      (up : levelUp L role kind place nodes state = .ok (parents, next))
      (rest : Grows L role kind place parents next root after) :
      Grows L role kind place nodes state root after

theorem growRoot_singleton :
    growRoot L role kind place turns [root] state = .ok (root, state) := by
  cases turns <;> rfl

theorem growRoot_several (several : nodes.length ≠ 1) :
    growRoot L role kind place (turns + 1) nodes state =
      match levelUp L role kind place nodes state with
      | .error error => .error error
      | .ok (parents, state) => growRoot L role kind place turns parents state := by
  have other : ∀ root, nodes = [root] → False := by
    rintro root rfl
    exact several rfl
  exact growRoot.eq_3 L role kind place nodes state turns other

theorem growRoot_grows
    (grown : growRoot L role kind place turns nodes state = .ok (root, after)) :
    Grows L role kind place nodes state root after := by
  induction turns generalizing nodes state with
  | zero =>
    unfold growRoot at grown
    split at grown
    · cases grown
      exact .root root after
    · cases grown
    · contradiction
  | succ turns ih =>
    by_cases single : nodes.length = 1
    · obtain ⟨only, rfl⟩ := List.length_eq_one_iff.1 single
      rw [growRoot_singleton] at grown
      cases grown
      exact .root root after
    · rw [growRoot_several single] at grown
      split at grown
      · cases grown
      · rename_i parents next up
        exact .up single up (ih grown)

theorem Grows.keeps {P : σ → Prop} (grows : Grows L role kind place nodes state root after)
    (keeps : place.Keeps P) (before : P state) : P after := by
  induction grows with
  | root => exact before
  | up _ up _ ih =>
    obtain ⟨-, pages, -, placed⟩ := levelUp_ok up
    exact ih (placePages_keeps keeps before placed)

/-! ## Levels are always written -/

theorem internalUsedLength_singleton (node : PreparedTreeNode) :
    internalUsedLength [node] = 96 := by
  simp [internalUsedLength, separators, sharedPrefixLength, pageLayoutBytes]

theorem internalUsedLength_pair (left right : PreparedTreeNode) :
    internalUsedLength [left, right] = 140 + right.minimumKey.length := by
  simp [internalUsedLength, separators, sharedPrefixLength, pageLayoutBytes]
  omega

theorem encodeInternalPage_fits (nonempty : nodes ≠ [])
    (fits : internalUsedLength nodes ≤ L.pagePayloadBytes) :
    encodeInternalPage L role nodes ≠ none := by
  obtain ⟨leftmost, rest, rfl⟩ := List.exists_cons_of_ne_nil nonempty
  rw [encodeInternalPage, if_neg (Nat.not_lt.2 fits)]
  exact Option.some_ne_none _

/-- One child always fits in an internal page, so a level can always be divided. -/
theorem levelUp_complete (nonempty : nodes ≠ []) (state : σ) :
    ∃ parents after, levelUp L role kind place nodes state = .ok (parents, after) := by
  have room := pagePayloadBytes_lower L
  obtain ⟨pages, split, fits⟩ := @splitPages_spec _ L.pagePayloadBytes internalUsedLength nodes
    ((pagePayloadBytes_lt L).trans (by decide))
    (by simp [internalUsedLength, separators, sharedPrefixLength, pageLayoutBytes]; omega)
    nonempty (fun node _ => by rw [internalUsedLength_singleton]; omega)
  have filled := (splitPages_flatten nonempty split).2
  cases up : levelUp L role kind place nodes state with
  | ok result => exact ⟨result.1, result.2, rfl⟩
  | error error =>
    rw [levelUp, if_neg nonempty, split] at up
    obtain ⟨-, page, member, none⟩ := placePages_error up
    exact absurd none (encodeInternalPage_fits (filled page member) (fits page member))

theorem levelUp_levels {level : Nat} (levels : ∀ node ∈ nodes, node.level = level)
    (up : levelUp L role kind place nodes state = .ok (parents, after)) :
    ∀ parent ∈ parents, parent.level = level + 1 := by
  obtain ⟨nonempty, pages, split, placed⟩ := levelUp_ok up
  obtain ⟨whole, filled⟩ := splitPages_flatten nonempty split
  intro parent member
  have inLevels := List.mem_map_of_mem (f := PreparedTreeNode.level) member
  rw [placePages_levels placed] at inLevels
  obtain ⟨page, inPages, same⟩ := List.mem_map.1 inLevels
  obtain ⟨leftmost, rest, rfl⟩ := List.exists_cons_of_ne_nil (filled page inPages)
  have isLevel := levels leftmost (whole ▸ List.mem_flatten.2 ⟨_, inPages, List.mem_cons_self⟩)
  rw [← same, groupLevel, List.head?_cons, ← isLevel]
  rfl

theorem Grows.level_le {level : Nat} (grows : Grows L role kind place nodes state root after)
    (levels : ∀ node ∈ nodes, node.level = level) : level ≤ root.level := by
  induction grows generalizing level with
  | root root => exact (levels root List.mem_cons_self).ge
  | up _ up _ ih => exact (Nat.le_succ level).trans (ih (levelUp_levels levels up))

end Miare
