import Miare.Tree.Proofs.Growth

/-!
# Trees with short keys stay flat

A cut of an overfull page balances the lengths of its two sides.  When the keys have at most sixteen
bytes, lengths and numbers of children go together, so every page behind a cut has several
children and a level has at most a quarter of the pages below it.
-/

namespace Miare

open Misc

/-! ## Boundaries between children of even length -/

section Boundary

variable {pagePayloadBytes count first scan : Nat} {usedLength : Nat → Nat → Nat}
  {ranges : List (Nat × Nat)}

/-- The length of a page with `count` children whose keys have at most sixteen bytes. -/
def EvenLength (count length : Nat) : Prop :=
  96 + (count - 1) * 44 ≤ length ∧ length ≤ 96 + (count - 1) * 60

/-- Both sides of a cut have four children. -/
theorem BestBoundary.sides {stop selected : Nat}
    (best : BestBoundary pagePayloadBytes usedLength first stop selected)
    (even : ∀ left right, left < right → right ≤ stop →
      EvenLength (right - left) (usedLength left right))
    (long : first + 30 ≤ stop) (fits : usedLength first (stop - 1) ≤ pagePayloadBytes) :
    first + 4 ≤ selected ∧ selected + 4 ≤ stop := by
  obtain ⟨most, -⟩ := even first (stop - 1) (by omega) (by omega)
  -- the middle is a candidate, and it is better balanced than a cut near one end
  obtain ⟨middle, isMiddle⟩ : ∃ middle, middle = first + (stop - first) / 2 := ⟨_, rfl⟩
  obtain ⟨leftLow, leftHigh⟩ := even first middle (by omega) (by omega)
  obtain ⟨rightLow, rightHigh⟩ := even middle stop (by omega) le_rfl
  have least := best.least middle ⟨by omega, by omega, by omega, by omega⟩
  have lower := best.lower
  have upper := best.upper
  obtain ⟨frontLow, frontHigh⟩ := even first selected lower upper.le
  obtain ⟨backLow, backHigh⟩ := even selected stop upper le_rfl
  have balanced : sideDifference usedLength first stop middle ≤ (stop - middle) * 60 := by
    unfold sideDifference
    split <;> omega
  have bound := least.trans balanced
  unfold sideDifference at bound
  split at bound <;> omega

theorem BalancedRanges.quarters
    (balanced : BalancedRanges pagePayloadBytes usedLength count first scan ranges)
    (even : ∀ left right, left < right → right ≤ count →
      EvenLength (right - left) (usedLength left right))
    (room : 2000 ≤ pagePayloadBytes) (opened : first < scan)
    (fits : usedLength first scan ≤ pagePayloadBytes) :
    ranges.length = 1 ∨ 4 * ranges.length + first ≤ count := by
  induction balanced with
  | last => exact Or.inl rfl
  | grow _ more _ ih => exact ih (by omega) more
  | @cut first scan selected ranges more overflows best rest ih =>
    obtain ⟨-, high⟩ := even first (scan + 1) (by omega) more
    obtain ⟨front, back⟩ := best.sides
      (fun left right less inside => even left right less (by omega)) (by omega) (by simpa using fits)
    right
    rw [List.length_cons]
    rcases ih best.upper best.right with single | several
    · omega
    · omega

end Boundary

/-! ## The levels of a tree -/

section Levels

variable {σ : Type*} {L : Limits} {place : Placement σ} {keys : List Bytes}

/-- Keys of at most sixteen bytes. -/
def ShortKeys (keys : List Bytes) : Prop :=
  ∀ key ∈ keys, key.length ≤ 16

theorem separatorsLength_even {first : Bytes} (short : ShortKeys keys) :
    EvenLength (keys.length + 1) (separatorsLength (first :: keys)) := by
  have high : (keys.map fun key => 44 + key.length).sum ≤ keys.length * 60 := by
    have bound := List.sum_le_card_nsmul (keys.map fun key => 44 + key.length) 60 (by
      intro length member
      obtain ⟨key, inKeys, rfl⟩ := List.mem_map.1 member
      have := short key inKeys
      omega)
    rwa [List.length_map, smul_eq_mul] at bound
  refine ⟨?_, (separatorsLength_le first keys).trans (Nat.add_le_add_left high 96)⟩
  cases keys with
  | nil => rw [separatorsLength_singleton]; exact le_rfl
  | cons key rest =>
    have low := @le_separatorsLength first key (key :: rest) List.mem_cons_self
    rw [Nat.add_sub_cancel]
    omega

theorem piece_even (short : ShortKeys keys) {left right : Nat} (less : left < right)
    (inside : right ≤ keys.length) :
    EvenLength (right - left) (separatorsLength (piece keys (left, right))) := by
  have length : (piece keys (left, right)).length = right - left := piece_length inside
  have among : ∀ key ∈ piece keys (left, right), key ∈ keys :=
    fun key member => List.mem_of_mem_drop (List.mem_of_mem_take member)
  generalize piece keys (left, right) = part at length among
  cases part with
  | nil =>
    rw [List.length_nil] at length
    omega
  | cons first rest =>
    rw [← length]
    exact separatorsLength_even fun key member => short key (among key (List.mem_cons_of_mem _ member))

/-- A level has one page or at most a quarter of the pages below. -/
theorem parentKeys_quarters (nonempty : keys ≠ []) (short : ShortKeys keys) :
    (parentKeys L keys).length = 1 ∨ 4 * (parentKeys L keys).length ≤ keys.length := by
  have room := pagePayloadBytes_lower L
  have positive := List.length_pos_of_ne_nil nonempty
  obtain ⟨ranges, split, isParents⟩ := @parentKeys_ranges L keys nonempty
  rw [isParents, List.length_map, List.length_map]
  obtain ⟨-, one⟩ := piece_even short Nat.zero_lt_one positive
  exact split.balanced.quarters (fun left right less inside => piece_even short less inside)
    (by omega) Nat.zero_lt_one (by omega)

/-- The height of a tree is logarithmic in the number of its leaves. -/
theorem iterate_parentKeys_short {height : Nat} (nonempty : keys ≠ []) (short : ShortKeys keys)
    (few : keys.length ≤ 4 ^ height) : ((parentKeys L)^[height] keys).length = 1 := by
  have filled := List.length_pos_of_ne_nil nonempty
  induction height generalizing keys with
  | zero => exact le_antisymm few filled
  | succ height ih =>
    rw [Function.iterate_succ_apply]
    rcases @parentKeys_quarters L keys nonempty short with single | quarter
    · exact iterate_parentKeys_one single
    · have some := @parentKeys_ne_nil L keys nonempty
      rw [Nat.pow_succ] at few
      exact ih some (fun key member => short key ((parentKeys_sublist nonempty).mem member))
        (by omega) (List.length_pos_of_ne_nil some)

theorem growRoot_height {role kind turns level height : Nat} {nodes : List PreparedTreeNode}
    {state after : σ} {root : PreparedTreeNode} (nonempty : nodes ≠ [])
    (short : ShortKeys (nodes.map PreparedTreeNode.minimumKey))
    (levels : ∀ node ∈ nodes, node.level = level) (few : nodes.length ≤ 4 ^ height)
    (grown : growRoot L role kind place turns nodes state = .ok (root, after)) :
    root.level ≤ level + height := by
  have divides := @growRoot_divides _ L place role kind turns level nodes state nonempty levels
  rw [grown] at divides
  exact (divides.2 height).1 (iterate_parentKeys_short (by simpa using nonempty) short (by simpa))

end Levels

end Miare
