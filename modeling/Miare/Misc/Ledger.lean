import Mathlib.Algebra.BigOperators.Group.List.Basic
import Mathlib.Tactic

/-!
# Ledgers

A counter in a machine word is exact as long as it neither overflows nor is asked for more than it
has.  Parties in a list each hold a share of a counter.  A step that changes one party and moves the
counter by as much as its share keeps the counter equal to what all hold together.
-/

namespace Miare.Misc

/-- Addition of 64-bit words. -/
@[irreducible] def wordAdd (left right : Nat) : Nat :=
  (left + right) % 2 ^ 64

/-- Subtraction of 64-bit words, which wraps below zero. -/
@[irreducible] def wordSub (left right : Nat) : Nat :=
  (left + 2 ^ 64 - right % 2 ^ 64) % 2 ^ 64

theorem wordAdd_eq {left right : Nat} (fits : left + right < 2 ^ 64) :
    wordAdd left right = left + right := by
  rw [wordAdd]
  exact Nat.mod_eq_of_lt fits

theorem wordSub_eq {left right : Nat} (covered : right ≤ left) (fits : left < 2 ^ 64) :
    wordSub left right = left - right := by
  rw [wordSub]
  omega

variable {α : Type*} (share : α → Nat)

/-- What the parties hold together. -/
def total (parties : List α) : Nat :=
  (parties.map share).sum

@[simp] theorem total_nil : total share [] = 0 := rfl

@[simp] theorem total_cons (party : α) (parties : List α) :
    total share (party :: parties) = share party + total share parties := by
  simp [total]

@[simp] theorem total_append (parties others : List α) :
    total share (parties ++ others) = total share parties + total share others := by
  simp [total]

/-- One party in exchange for another. -/
theorem total_set {parties : List α} {index : Nat} {party : α}
    (found : parties[index]? = some party) (changed : α) :
    total share (parties.set index changed) + share party =
      total share parties + share changed := by
  induction parties generalizing index with
  | nil => simp at found
  | cons first rest ih =>
    cases index with
    | zero =>
      rw [List.getElem?_cons_zero, Option.some.injEq] at found
      subst found
      simp only [List.set_cons_zero, total_cons]
      omega
    | succ index =>
      rw [List.getElem?_cons_succ] at found
      have tail := ih found
      simp only [List.set_cons_succ, total_cons]
      omega

/-- No party holds more than all together. -/
theorem share_le_total {parties : List α} {party : α} (member : party ∈ parties) :
    share party ≤ total share parties :=
  List.single_le_sum (fun _ _ => Nat.zero_le _) _ (List.mem_map_of_mem member)

theorem total_congr {other : α → Nat} {parties : List α}
    (same : ∀ party ∈ parties, share party = other party) :
    total share parties = total other parties := by
  rw [total, total, List.map_congr_left same]

theorem total_eq_zero {parties : List α} (empty : ∀ party ∈ parties, share party = 0) :
    total share parties = 0 := by
  rw [total, List.sum_eq_zero]
  intro held member
  obtain ⟨party, inside, rfl⟩ := List.mem_map.1 member
  exact empty party inside

end Miare.Misc
