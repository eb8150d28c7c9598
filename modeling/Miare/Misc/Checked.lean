import Miare.Misc.Bytes
import Miare.Misc.Guard

/-!
# Computations that may go wrong

A computation over buffers and machine words may stop with an error of its own or with a fault: an
access outside a buffer, or a word that wraps.  `Agrees` compares such a computation with one that
has only errors; a computation that agrees with one has no fault.
-/

namespace Miare.Misc

/-- What a computation must not do. -/
inductive Fault where
  | read
  | subspan
  | copy
  | wrap
deriving DecidableEq, Repr

/-- How a computation stops. -/
inductive Stop (ε : Type) where
  | fault (fault : Fault)
  | error (error : ε)
deriving DecidableEq, Repr

/-- A computation that may stop. -/
abbrev Checked (ε α : Type) : Type := Except (Stop ε) α

variable {ε α β γ δ : Type}

/-- A check of the computation's own. -/
def check (error : ε) (condition : Prop) [Decidable condition] : Checked ε Unit :=
  require (.error error) condition

/-- A computation that has only errors. -/
def settled (result : Except ε α) : Checked ε α := result.mapError .error

/-! ## Words and buffers -/

/-- A sum of words of `width` bits. -/
def addWord (width left right : Nat) : Checked ε Nat :=
  if left + right < 2 ^ width then .ok (left + right) else .error (.fault .wrap)

/-- A product of words of `width` bits. -/
def mulWord (width left right : Nat) : Checked ε Nat :=
  if left * right < 2 ^ width then .ok (left * right) else .error (.fault .wrap)

/-- A difference of words. -/
def subWord (left right : Nat) : Checked ε Nat :=
  if right ≤ left then .ok (left - right) else .error (.fault .wrap)

/-- The bytes from `start` up to `stop`. -/
def readBytes (bytes : List (Fin 256)) (start stop : Nat) : Checked ε (List (Fin 256)) :=
  if start ≤ stop ∧ stop ≤ bytes.length then .ok (slice bytes start (stop - start))
  else .error (.fault .read)

/-- A little-endian number of `width` bytes. -/
def readWord (width : Nat) (bytes : List (Fin 256)) (offset : Nat) : Checked ε Nat :=
  if offset + width ≤ bytes.length then .ok (readLittleEndian width bytes offset)
  else .error (.fault .read)

/-- A part of a buffer. -/
def subspan (bytes : List (Fin 256)) (offset length : Nat) : Checked ε (List (Fin 256)) :=
  if offset + length ≤ bytes.length then .ok (slice bytes offset length)
  else .error (.fault .subspan)

/-- A buffer with a piece copied into it. -/
def copyInto (buffer : List (Fin 256)) (offset : Nat) (piece : List (Fin 256)) :
    Checked ε (List (Fin 256)) :=
  if offset + piece.length ≤ buffer.length then .ok (splice buffer offset piece)
  else .error (.fault .copy)

theorem addWord_of {width left right : Nat} (fits : left + right < 2 ^ width) :
    (addWord width left right : Checked ε Nat) = .ok (left + right) :=
  if_pos fits

theorem mulWord_of {width left right : Nat} (fits : left * right < 2 ^ width) :
    (mulWord width left right : Checked ε Nat) = .ok (left * right) :=
  if_pos fits

theorem subWord_of {left right : Nat} (fits : right ≤ left) :
    (subWord left right : Checked ε Nat) = .ok (left - right) :=
  if_pos fits

theorem readBytes_of {bytes : List (Fin 256)} {start stop : Nat}
    (inside : start ≤ stop ∧ stop ≤ bytes.length) :
    (readBytes bytes start stop : Checked ε _) = .ok (slice bytes start (stop - start)) :=
  if_pos inside

theorem readWord_of {width : Nat} {bytes : List (Fin 256)} {offset : Nat}
    (inside : offset + width ≤ bytes.length) :
    (readWord width bytes offset : Checked ε Nat) = .ok (readLittleEndian width bytes offset) :=
  if_pos inside

theorem subspan_of {bytes : List (Fin 256)} {offset length : Nat}
    (inside : offset + length ≤ bytes.length) :
    (subspan bytes offset length : Checked ε _) = .ok (slice bytes offset length) :=
  if_pos inside

theorem copyInto_of {buffer piece : List (Fin 256)} {offset : Nat}
    (inside : offset + piece.length ≤ buffer.length) :
    (copyInto buffer offset piece : Checked ε _) = .ok (splice buffer offset piece) :=
  if_pos inside

/-! ## Agreement -/

/-- The checked computation does what the other one does: the same errors, and related values. -/
def Agrees (R : α → β → Prop) : Checked ε α → Except ε β → Prop
  | .ok value, .ok result => R value result
  | .error (.error error), .error other => error = other
  | _, _ => False

/-- No fault where there is agreement. -/
theorem Agrees.safe {R : α → β → Prop} {checked : Checked ε α} {computed : Except ε β}
    (agrees : Agrees R checked computed) (fault : Fault) : checked ≠ .error (.fault fault) := by
  rintro rfl
  cases computed <;> exact agrees

theorem Agrees.bind {R : α → β → Prop} {S : γ → δ → Prop} {checked : Checked ε α}
    {computed : Except ε β} {next : α → Checked ε γ} {after : β → Except ε δ}
    (first : Agrees R checked computed)
    (rest : ∀ value result, computed = .ok result → R value result →
      Agrees S (next value) (after result)) :
    Agrees S (checked >>= next) (computed >>= after) := by
  cases checked with
  | ok value =>
    cases computed with
    | ok result => exact rest value result rfl first
    | error error => exact first.elim
  | error stop =>
    cases stop with
    | fault fault => exact (first.safe fault rfl).elim
    | error error =>
      cases computed with
      | ok result => exact first.elim
      | error other => exact first

/-- Two computations make the same check; behind it its condition is known. -/
theorem Agrees.check {S : γ → δ → Prop} {error : ε} {left right : Prop} [Decidable left]
    [Decidable right] {next : Unit → Checked ε γ} {after : Unit → Except ε δ}
    (same : left ↔ right) (rest : right → Agrees S (next ()) (after ())) :
    Agrees S (check error left >>= next) (require error right >>= after) := by
  by_cases holds : right
  · rw [Misc.check, require_of (same.2 holds), require_of holds]
    exact rest holds
  · have fails : ¬left := fun accepted => holds (same.1 accepted)
    rw [Misc.check, require, if_neg fails, require, if_neg holds]
    rfl

/-- A part of a check comes first. -/
theorem Agrees.check_part {S : γ → δ → Prop} {error : ε} {part whole : Prop} [Decidable part]
    [Decidable whole] {next : Unit → Checked ε γ} {after : Unit → Except ε δ}
    (needed : whole → part)
    (rest : part → Agrees S (next ()) (require error whole >>= after)) :
    Agrees S (Misc.check error part >>= next) (require error whole >>= after) := by
  by_cases holds : part
  · rw [Misc.check, require_of holds]
    exact rest holds
  · have fails : ¬whole := fun accepted => holds (needed accepted)
    rw [Misc.check, require, if_neg holds, require, if_neg fails]
    rfl

theorem Agrees.settled (result : Except ε α) : Agrees Eq (settled result) result := by
  cases result <;> rfl

theorem Agrees.imp {R S : α → β → Prop} {checked : Checked ε α} {computed : Except ε β}
    (agrees : Agrees R checked computed)
    (weaker : ∀ value result, computed = .ok result → R value result → S value result) :
    Agrees S checked computed := by
  cases checked with
  | ok value =>
    cases computed with
    | ok result => exact weaker value result rfl agrees
    | error error => exact agrees
  | error stop =>
    cases stop <;> cases computed <;> exact agrees

end Miare.Misc
