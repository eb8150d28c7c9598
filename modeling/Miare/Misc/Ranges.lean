import Miare.Misc.Bytes

/-!
# Consecutive ranges

A list of half-open index ranges that follow each other without gap cuts a list into pieces.
-/

namespace Miare.Misc

/-- The ranges lead from `lower` to `upper`, each nonempty and beginning where its predecessor
ends. -/
def Consecutive (lower upper : Nat) : List (Nat × Nat) → Prop
  | [] => lower = upper
  | range :: rest => range.1 = lower ∧ lower < range.2 ∧ Consecutive range.2 upper rest

/-- The members of a list that a range selects. -/
def piece {α : Type*} (items : List α) (range : Nat × Nat) : List α :=
  slice items range.1 (range.2 - range.1)

theorem Consecutive.le {lower upper : Nat} {ranges : List (Nat × Nat)}
    (consecutive : Consecutive lower upper ranges) : lower ≤ upper := by
  induction ranges generalizing lower with
  | nil => exact Nat.le_of_eq consecutive
  | cons range rest ih =>
    obtain ⟨-, grows, tail⟩ := consecutive
    exact Nat.le_trans (Nat.le_of_lt grows) (ih tail)

theorem Consecutive.mem {lower upper : Nat} {ranges : List (Nat × Nat)}
    (consecutive : Consecutive lower upper ranges) {range : Nat × Nat} (member : range ∈ ranges) :
    lower ≤ range.1 ∧ range.1 < range.2 ∧ range.2 ≤ upper := by
  induction ranges generalizing lower with
  | nil => simp at member
  | cons head rest ih =>
    obtain ⟨starts, grows, tail⟩ := consecutive
    rcases List.mem_cons.1 member with rfl | member
    · exact ⟨by omega, by omega, tail.le⟩
    · have := ih tail member
      exact ⟨by omega, this.2.1, this.2.2⟩

/-- There are no more ranges than indices. -/
theorem Consecutive.length_le {lower upper : Nat} {ranges : List (Nat × Nat)}
    (consecutive : Consecutive lower upper ranges) : ranges.length + lower ≤ upper := by
  induction ranges generalizing lower with
  | nil => simpa using Nat.le_of_eq consecutive
  | cons range rest ih =>
    obtain ⟨-, grows, tail⟩ := consecutive
    have := ih tail
    simp only [List.length_cons]
    omega

theorem slice_append_slice {α : Type*} (items : List α) {a b c : Nat} (left : a ≤ b)
    (right : b ≤ c) :
    slice items a (b - a) ++ slice items b (c - b) = slice items a (c - a) := by
  have inner : items.drop b = (items.drop a).drop (b - a) := by
    rw [List.drop_drop, Nat.add_sub_cancel' left]
  simp only [slice, inner]
  rw [show c - a = (b - a) + (c - b) by omega, List.take_add]

/-- The pieces put together again. -/
theorem Consecutive.flatten_pieces {α : Type*} (items : List α) {lower upper : Nat}
    {ranges : List (Nat × Nat)} (consecutive : Consecutive lower upper ranges) :
    (ranges.map (piece items)).flatten = slice items lower (upper - lower) := by
  induction ranges generalizing lower with
  | nil =>
    rw [show upper - lower = 0 by rw [show lower = upper from consecutive]; omega]
    simp [slice]
  | cons range rest ih =>
    obtain ⟨starts, grows, tail⟩ := consecutive
    rw [List.map_cons, List.flatten_cons, ih tail, piece, starts]
    exact slice_append_slice items (Nat.le_of_lt grows) tail.le

theorem piece_length {α : Type*} {items : List α} {range : Nat × Nat}
    (inside : range.2 ≤ items.length) : (piece items range).length = range.2 - range.1 := by
  simp only [piece, slice, List.length_take, List.length_drop]
  omega

theorem Consecutive.pieces_eq {α : Type*} {items : List α} {ranges : List (Nat × Nat)}
    (consecutive : Consecutive 0 items.length ranges) :
    (ranges.map (piece items)).flatten = items := by
  rw [consecutive.flatten_pieces items]
  simp [slice]

theorem Consecutive.pieces_ne_nil {α : Type*} {items : List α} {ranges : List (Nat × Nat)}
    (consecutive : Consecutive 0 items.length ranges) :
    ∀ part ∈ ranges.map (piece items), part ≠ [] := by
  intro part member empty
  obtain ⟨range, present, rfl⟩ := List.mem_map.1 member
  obtain ⟨-, grows, inside⟩ := consecutive.mem present
  have := piece_length inside
  rw [empty] at this
  simp at this
  omega

end Miare.Misc
