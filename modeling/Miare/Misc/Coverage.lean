import Mathlib.Data.List.Basic
import Mathlib.Data.List.Sort
import Mathlib.Data.Set.Basic
import Mathlib.Algebra.BigOperators.Group.List.Basic
import Mathlib.Tactic

/-!
# Coverage of interval lists

A list of half-open intervals is studied through one number per point: how many of its
members contain that point.  The number is additive over concatenation and blind to order, so
"these lists are disjoint and together fill that set" becomes an equation between numbers.
-/

namespace Miare.Misc

/-- A value that occupies the half-open interval `[first, first + size)`. -/
class Spanned (α : Type*) where
  first : α → Nat
  size : α → Nat

/-- One when `lower ≤ x < upper`, zero otherwise. -/
def between (lower upper x : Nat) : Nat :=
  if lower ≤ x ∧ x < upper then 1 else 0

theorem between_le_one (lower upper x : Nat) : between lower upper x ≤ 1 := by
  unfold between; split <;> omega

theorem between_eq_one {lower upper x : Nat} (inside : lower ≤ x ∧ x < upper) :
    between lower upper x = 1 :=
  if_pos inside

theorem between_eq_zero {lower upper x : Nat} (outside : ¬ (lower ≤ x ∧ x < upper)) :
    between lower upper x = 0 :=
  if_neg outside

theorem between_pos_iff {lower upper x : Nat} :
    0 < between lower upper x ↔ lower ≤ x ∧ x < upper := by
  unfold between; split <;> simp_all

@[simp] theorem between_self (bound x : Nat) : between bound bound x = 0 :=
  between_eq_zero (by omega)

/-- An interval cut at an inner point. -/
theorem between_split {a b c : Nat} (left : a ≤ b) (right : b ≤ c) (x : Nat) :
    between a c x = between a b x + between b c x := by
  unfold between; split_ifs <;> omega

section Coverage

variable {α β : Type*} [Spanned α] [Spanned β]

open Spanned

/-- The point `x` lies in the interval of `a`. -/
def Covers (a : α) (x : Nat) : Prop :=
  first a ≤ x ∧ x < first a + size a

instance (a : α) (x : Nat) : Decidable (Covers a x) :=
  inferInstanceAs (Decidable (_ ∧ _))

/-- One when `a` contains `x`, zero otherwise. -/
def span (a : α) (x : Nat) : Nat :=
  between (first a) (first a + size a) x

/-- How many members of the list contain `x`. -/
def coverage (as : List α) (x : Nat) : Nat :=
  (as.map fun a => span a x).sum

/-- The list splits `s`: each point of `s` lies in exactly one member and no other point lies
in any. -/
def Tiles (as : List α) (s : Set Nat) : Prop :=
  (∀ x ∈ s, coverage as x = 1) ∧ ∀ x ∉ s, coverage as x = 0

/-- The interval is not empty and lies in `[lower, upper)`. -/
def Inside (lower upper : Nat) (a : α) : Prop :=
  0 < size a ∧ lower ≤ first a ∧ first a + size a ≤ upper

/-- Each interval ends no later than the next ones begin. -/
def Ascending (as : List α) : Prop :=
  as.Pairwise fun a b => first a + size a ≤ first b

theorem span_le_one (a : α) (x : Nat) : span a x ≤ 1 :=
  between_le_one _ _ x

theorem span_eq_one {a : α} {x : Nat} (covered : Covers a x) : span a x = 1 :=
  between_eq_one covered

theorem span_eq_zero_iff (a : α) (x : Nat) : span a x = 0 ↔ ¬ Covers a x := by
  unfold span Covers between; split <;> simp_all

/-- Two intervals with the same bounds contain the same points. -/
theorem span_congr {a : α} {b : β} (starts : first a = first b) (sizes : size a = size b)
    (x : Nat) : span a x = span b x := by
  simp only [span, starts, sizes]

@[simp] theorem coverage_nil (x : Nat) : coverage ([] : List α) x = 0 := rfl

@[simp] theorem coverage_cons (a : α) (as : List α) (x : Nat) :
    coverage (a :: as) x = span a x + coverage as x := by
  simp [coverage]

@[simp] theorem coverage_append (as bs : List α) (x : Nat) :
    coverage (as ++ bs) x = coverage as x + coverage bs x := by
  simp [coverage]

@[simp] theorem coverage_reverse (as : List α) (x : Nat) :
    coverage as.reverse x = coverage as x := by
  induction as with
  | nil => rfl
  | cons a as ih => simp [ih, Nat.add_comm]

theorem coverage_perm {as bs : List α} (same : as.Perm bs) (x : Nat) :
    coverage as x = coverage bs x :=
  (same.map _).sum_eq

theorem coverage_map (f : β → α) (starts : ∀ b, first (f b) = first b)
    (sizes : ∀ b, size (f b) = size b) (bs : List β) (x : Nat) :
    coverage (bs.map f) x = coverage bs x := by
  induction bs with
  | nil => rfl
  | cons b bs ih =>
    rw [List.map_cons, coverage_cons, coverage_cons, ih,
      span_congr (starts b) (sizes b)]

theorem coverage_eq_zero_iff (as : List α) (x : Nat) :
    coverage as x = 0 ↔ ∀ a ∈ as, ¬ Covers a x := by
  induction as with
  | nil => simp
  | cons a as ih => simp [span_eq_zero_iff, ih]

theorem coverage_pos_iff (as : List α) (x : Nat) :
    0 < coverage as x ↔ ∃ a ∈ as, Covers a x := by
  rw [Nat.pos_iff_ne_zero, Ne, coverage_eq_zero_iff]
  push Not
  rfl

/-- A member contributes its whole interval. -/
theorem span_le_coverage {a : α} {as : List α} (member : a ∈ as) (x : Nat) :
    span a x ≤ coverage as x := by
  induction as with
  | nil => simp at member
  | cons b bs ih =>
    rcases List.mem_cons.1 member with rfl | later
    · simp
    · have := ih later
      simp only [coverage_cons]
      omega

theorem coverage_filter_add (p : α → Bool) (as : List α) (x : Nat) :
    coverage (as.filter p) x + coverage (as.filter fun a => !p a) x = coverage as x := by
  induction as with
  | nil => rfl
  | cons a as ih =>
    cases h : p a <;> simp only [List.filter_cons, h, coverage_cons, Bool.not_true,
      Bool.not_false, if_true, if_false, Bool.false_eq_true] <;> omega

theorem coverage_filter_le (p : α → Bool) (as : List α) (x : Nat) :
    coverage (as.filter p) x ≤ coverage as x := by
  have := coverage_filter_add p as x
  omega

/-- Filters that agree where the list can reach `x` leave the same coverage. -/
theorem coverage_filter_eq {p : α → Bool} {as : List α} {x : Nat}
    (dropped : ∀ a ∈ as, p a = false → ¬ Covers a x) :
    coverage (as.filter p) x = coverage as x := by
  have rest : coverage (as.filter fun a => !p a) x = 0 := by
    rw [coverage_eq_zero_iff]
    intro a member
    rw [List.mem_filter] at member
    exact dropped a member.1 (by simpa using member.2)
  have := coverage_filter_add p as x
  omega

theorem coverage_flatMap_cons {γ : Type*} (f : γ → List α) (c : γ) (cs : List γ) (x : Nat) :
    coverage ((c :: cs).flatMap f) x = coverage (f c) x + coverage (cs.flatMap f) x := by
  simp

/-- No point of the list lies beyond a common upper bound. -/
theorem coverage_eq_zero_of_limit {as : List α} {limit x : Nat}
    (bounded : ∀ a ∈ as, first a + size a ≤ limit) (beyond : limit ≤ x) :
    coverage as x = 0 := by
  rw [coverage_eq_zero_iff]
  rintro a member ⟨_, upper⟩
  have := bounded a member
  omega

/-- No point of the list lies below a common lower bound. -/
theorem coverage_eq_zero_of_first {as : List α} {lower x : Nat}
    (bounded : ∀ a ∈ as, lower ≤ first a) (below : x < lower) :
    coverage as x = 0 := by
  rw [coverage_eq_zero_iff]
  rintro a member ⟨start, _⟩
  have := bounded a member
  omega

theorem coverage_outside {as : List α} {lower upper x : Nat}
    (inside : ∀ a ∈ as, Inside lower upper a) (outside : ¬ (lower ≤ x ∧ x < upper)) :
    coverage as x = 0 := by
  by_cases below : x < lower
  · exact coverage_eq_zero_of_first (fun a member => (inside a member).2.1) below
  · exact coverage_eq_zero_of_limit (fun a member => (inside a member).2.2) (by omega)

/-- Intervals that are not empty and share no point are distinct. -/
theorem nodup_of_coverage {as : List α} (once : ∀ x, coverage as x ≤ 1)
    (positive : ∀ a ∈ as, 0 < size a) : as.Nodup := by
  induction as with
  | nil => exact List.nodup_nil
  | cons a as ih =>
    have here : Covers a (first a) :=
      ⟨le_rfl, Nat.lt_add_of_pos_right (positive a List.mem_cons_self)⟩
    refine List.nodup_cons.2 ⟨fun member => ?_, ih (fun x => ?_) fun b member =>
      positive b (List.mem_cons_of_mem _ member)⟩
    · have twice := once (first a)
      have again := (coverage_pos_iff as (first a)).2 ⟨a, member, here⟩
      rw [coverage_cons, span_eq_one here] at twice
      omega
    · have all := once x
      rw [coverage_cons] at all
      omega

/-- Of intervals that fill `[lower, upper)` the one that begins first begins at `lower`. -/
theorem first_eq_of_fills {a : α} {as : List α} {lower upper : Nat}
    (fills : ∀ x, coverage (a :: as) x = between lower upper x) (positive : 0 < size a)
    (least : ∀ b ∈ as, first a ≤ first b) : first a = lower := by
  have own : lower ≤ first a ∧ first a < upper := by
    rw [← between_pos_iff, ← fills, coverage_pos_iff]
    exact ⟨a, List.mem_cons_self, le_rfl, by omega⟩
  have hit : 0 < coverage (a :: as) lower := by
    rw [fills, between_pos_iff]
    omega
  obtain ⟨b, member, starts, -⟩ := (coverage_pos_iff _ _).1 hit
  rcases List.mem_cons.1 member with rfl | later
  · omega
  · have := least b later
    omega

/-- What is behind the first of such intervals fills the rest of `[lower, upper)`. -/
theorem fills_tail {a : α} {as : List α} {lower upper : Nat}
    (fills : ∀ x, coverage (a :: as) x = between lower upper x) (starts : first a = lower)
    (ends : lower + size a ≤ upper) (x : Nat) :
    coverage as x = between (lower + size a) upper x := by
  have whole := fills x
  have cut := between_split (Nat.le_add_right lower (size a)) ends x
  rw [coverage_cons, span, starts] at whole
  omega

theorem ascending_cons {a : α} {as : List α} :
    Ascending (a :: as) ↔ (∀ b ∈ as, first a + size a ≤ first b) ∧ Ascending as :=
  List.pairwise_cons

theorem ascending_append {as bs : List α} :
    Ascending (as ++ bs) ↔
      Ascending as ∧ Ascending bs ∧ ∀ a ∈ as, ∀ b ∈ bs, first a + size a ≤ first b :=
  List.pairwise_append

/-- Ascending intervals are disjoint. -/
theorem Ascending.coverage_le_one {as : List α} (ascending : Ascending as) (x : Nat) :
    coverage as x ≤ 1 := by
  induction as with
  | nil => simp
  | cons a as ih =>
    obtain ⟨later, rest⟩ := ascending_cons.1 ascending
    rw [coverage_cons]
    by_cases covered : Covers a x
    · have zero : coverage as x = 0 := by
        apply coverage_eq_zero_of_first later
        exact covered.2
      have := span_le_one a x
      omega
    · have := (span_eq_zero_iff a x).2 covered
      have := ih rest
      omega

end Coverage

end Miare.Misc
