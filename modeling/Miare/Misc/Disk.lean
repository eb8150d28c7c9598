import Miare.Misc.Bytes

/-!
# A file with volatile writes

What a storage device may be asked to do between two barriers, and what a reader of the file sees
behind it.
-/

namespace Miare.Misc

variable {β : Type*} [Zero β]

/-- A volatile file operation over byte values `β`. -/
inductive DiskOp (β : Type*) where
  | resize (length : Nat)
  | write (offset : Nat) (bytes : List β)
deriving Repr

/-- Cut a file or fill it up with zeros. -/
def resizeTo (length : Nat) (file : List β) : List β :=
  file.take length ++ List.replicate (length - file.length) 0

/-- The file behind an operation. -/
def DiskOp.apply (file : List β) : DiskOp β → List β
  | .resize length => resizeTo length file
  | .write offset bytes => resizeTo offset file ++ bytes ++ file.drop (offset + bytes.length)

@[simp] theorem resizeTo_length (length : Nat) (file : List β) :
    (resizeTo length file).length = length := by
  simp only [resizeTo, List.length_append, List.length_take, List.length_replicate]
  omega

/-- What both files have is the same. -/
theorem slice_resizeTo {file : List β} {length offset count : Nat}
    (kept : offset + count ≤ length) (inside : offset + count ≤ file.length) :
    slice (resizeTo length file) offset count = slice file offset count := by
  rw [resizeTo, slice_append_left (by rw [List.length_take]; omega), slice, slice, List.drop_take,
    List.take_take, Nat.min_eq_left (by omega)]

@[simp] theorem resizeTo_self (file : List β) : resizeTo file.length file = file := by
  simp [resizeTo]

/-- A file that was only filled up is cut back. -/
theorem resizeTo_resizeTo {file : List β} {length : Nat} (grown : file.length ≤ length) :
    resizeTo file.length (resizeTo length file) = file := by
  simp [resizeTo, grown]

section Write

variable {file bytes : List β} {offset : Nat}

theorem apply_write_length (inside : offset + bytes.length ≤ file.length) :
    (DiskOp.apply file (.write offset bytes)).length = file.length := by
  simp only [DiskOp.apply, List.length_append, resizeTo_length, List.length_drop]
  omega

theorem slice_apply_write_here :
    slice (DiskOp.apply file (.write offset bytes)) offset bytes.length = bytes := by
  rw [DiskOp.apply, List.append_assoc]
  exact slice_append_here (resizeTo_length _ _).symm rfl

theorem slice_apply_write_before {at_ count : Nat} (inside : at_ + count ≤ file.length)
    (before : at_ + count ≤ offset) :
    slice (DiskOp.apply file (.write offset bytes)) at_ count = slice file at_ count := by
  rw [DiskOp.apply, List.append_assoc, slice_append_left (by rw [resizeTo_length]; exact before)]
  exact slice_resizeTo before inside

theorem slice_apply_write_behind {at_ count : Nat} (behind : offset + bytes.length ≤ at_) :
    slice (DiskOp.apply file (.write offset bytes)) at_ count = slice file at_ count := by
  have front : (resizeTo offset file ++ bytes).length = offset + bytes.length := by
    rw [List.length_append, resizeTo_length]
  rw [DiskOp.apply, slice_append_right (by omega), front, slice, slice, List.drop_drop]
  congr 2
  omega

end Write

end Miare.Misc
