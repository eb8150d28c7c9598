import Mathlib.Tactic

/-!
# Computations that may fail

Inversion rules for `Except`: what is known when a sequence of checks has succeeded.
-/

namespace Miare.Misc

variable {ε α β : Type}

theorem bind_eq_ok {first : Except ε α} {next : α → Except ε β} {result : β} :
    (first >>= next) = .ok result ↔ ∃ value, first = .ok value ∧ next value = .ok result := by
  cases first with
  | error error => simp [bind, Except.bind]
  | ok value => simp [bind, Except.bind]

@[simp] theorem ok_bind (value : α) (next : α → Except ε β) :
    ((.ok value : Except ε α) >>= next) = next value := rfl

@[simp] theorem error_bind (error : ε) (next : α → Except ε β) :
    ((.error error : Except ε α) >>= next) = .error error := rfl

@[simp] theorem pure_eq_ok (value : α) : (pure value : Except ε α) = .ok value := rfl

/-- A check that fails with `error` unless `condition` holds. -/
def require (error : ε) (condition : Prop) [Decidable condition] : Except ε Unit :=
  if condition then .ok () else .error error

theorem require_eq_ok {error : ε} {condition : Prop} [Decidable condition] {result : Unit} :
    require error condition = .ok result ↔ condition := by
  unfold require
  split <;> simp_all

theorem require_of {error : ε} {condition : Prop} [Decidable condition] (holds : condition) :
    require error condition = .ok () :=
  if_pos holds

/-- Two checks in a row. -/
theorem require_bind_eq_ok {error : ε} {condition : Prop} [Decidable condition]
    {next : Unit → Except ε β} {result : β} :
    (require error condition >>= next) = .ok result ↔ condition ∧ next () = .ok result := by
  rw [bind_eq_ok]
  constructor
  · rintro ⟨⟨⟩, passed, rest⟩
    exact ⟨require_eq_ok.1 passed, rest⟩
  · rintro ⟨holds, rest⟩
    exact ⟨(), require_of holds, rest⟩

end Miare.Misc
