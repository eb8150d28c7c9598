import Mathlib.Data.List.Basic
import Mathlib.Data.Fin.Basic
import Mathlib.Tactic

/-!
# Little-endian integers and slices of byte strings
-/

namespace Miare.Misc

variable {offset length : Nat}

/-- Numbers below 256 can be written as literals. -/
instance neZero_byte : NeZero 256 :=
  ⟨by decide⟩

/-- The `width` low bytes of a number, lowest first. -/
def toLittleEndian : Nat → Nat → List (Fin 256)
  | 0, _ => []
  | width + 1, value => Fin.ofNat 256 value :: toLittleEndian width (value / 256)

/-- The number a byte string denotes, lowest byte first. -/
def ofLittleEndian : List (Fin 256) → Nat
  | [] => 0
  | byte :: rest => byte.val + 256 * ofLittleEndian rest

@[simp] theorem toLittleEndian_length (width value : Nat) :
    (toLittleEndian width value).length = width := by
  induction width generalizing value with
  | zero => rfl
  | succ width ih => simp [toLittleEndian, ih]

theorem ofLittleEndian_lt (bytes : List (Fin 256)) :
    ofLittleEndian bytes < 256 ^ bytes.length := by
  induction bytes with
  | nil => simp [ofLittleEndian]
  | cons byte rest ih =>
    simp only [ofLittleEndian, List.length_cons, pow_succ]
    omega

theorem ofLittleEndian_toLittleEndian {width value : Nat} (fits : value < 256 ^ width) :
    ofLittleEndian (toLittleEndian width value) = value := by
  induction width generalizing value with
  | zero => simp at fits; simp [toLittleEndian, ofLittleEndian, fits]
  | succ width ih =>
    have below : value / 256 < 256 ^ width := by
      rw [pow_succ] at fits
      omega
    simp only [toLittleEndian, ofLittleEndian, ih below, Fin.ofNat]
    omega

theorem ofLittleEndian_two {value : Nat} (small : value < 2 ^ 16) :
    ofLittleEndian (toLittleEndian 2 value) = value :=
  ofLittleEndian_toLittleEndian (by norm_num; exact small)

theorem ofLittleEndian_four {value : Nat} (small : value < 2 ^ 32) :
    ofLittleEndian (toLittleEndian 4 value) = value :=
  ofLittleEndian_toLittleEndian (by norm_num; exact small)

theorem ofLittleEndian_eight {value : Nat} (small : value < 2 ^ 64) :
    ofLittleEndian (toLittleEndian 8 value) = value :=
  ofLittleEndian_toLittleEndian (by norm_num; exact small)

theorem byte_pow (count : Nat) : 256 ^ count = 2 ^ (count * 8) := by
  rw [Nat.mul_comm, Nat.pow_mul]

theorem ofLittleEndian_append (front back : List (Fin 256)) :
    ofLittleEndian (front ++ back) =
      ofLittleEndian front + 256 ^ front.length * ofLittleEndian back := by
  induction front with
  | nil => simp [ofLittleEndian]
  | cons byte rest ih =>
    rw [List.cons_append, ofLittleEndian, ofLittleEndian, ih, List.length_cons, Nat.pow_succ]
    ring

theorem toLittleEndian_eq_range (width value : Nat) :
    toLittleEndian width value = (List.range width).map fun byte =>
      Fin.ofNat 256 (value / 2 ^ (byte * 8)) := by
  induction width generalizing value with
  | zero => rfl
  | succ width ih =>
    rw [toLittleEndian, ih, List.range_succ_eq_map, List.map_cons, List.map_map]
    congr 1
    · simp
    · apply List.map_congr_left
      intro byte _
      have power : 2 ^ (byte.succ * 8) = 256 * 2 ^ (byte * 8) := by
        rw [Nat.succ_mul, Nat.pow_add, Nat.mul_comm]
      rw [Function.comp_apply, Nat.div_div_eq_div_mul, power]

theorem toLittleEndian_ofLittleEndian (bytes : List (Fin 256)) :
    toLittleEndian bytes.length (ofLittleEndian bytes) = bytes := by
  induction bytes with
  | nil => rfl
  | cons byte rest ih =>
    have low : (byte.val + 256 * ofLittleEndian rest) / 256 = ofLittleEndian rest := by omega
    simp only [List.length_cons, toLittleEndian, ofLittleEndian, low, ih, List.cons.injEq,
      and_true]
    apply Fin.ext
    simp only [Fin.ofNat]
    omega

/-- The bytes `[offset, offset + length)` of a byte string. -/
def slice {α : Type*} (bytes : List α) (offset length : Nat) : List α :=
  (bytes.drop offset).take length

/-- A little-endian number of `width` bytes at `offset`. -/
def readLittleEndian (width : Nat) (bytes : List (Fin 256)) (offset : Nat) : Nat :=
  ofLittleEndian (slice bytes offset width)

section Slices

variable {α : Type*}

theorem slice_length {bytes : List α} (inside : offset + length ≤ bytes.length) :
    (slice bytes offset length).length = length := by
  simp only [slice, List.length_take, List.length_drop]
  omega

theorem slice_append_left {left right : List α} (inside : offset + length ≤ left.length) :
    slice (left ++ right) offset length = slice left offset length := by
  have room : length ≤ left.length - offset := by omega
  unfold slice
  rw [List.drop_append_of_le_length (by omega), List.take_append_of_le_length (by simpa using room)]

theorem slice_append_right {left right : List α} (behind : left.length ≤ offset) :
    slice (left ++ right) offset length = slice right (offset - left.length) length := by
  unfold slice
  rw [List.drop_append, List.drop_of_length_le behind, List.nil_append]

theorem slice_all (bytes : List α) : slice bytes 0 bytes.length = bytes := by
  simp [slice]

theorem slice_slice {bytes : List α} {inner count : Nat} (inside : inner + count ≤ length) :
    slice (slice bytes offset length) inner count = slice bytes (offset + inner) count := by
  simp only [slice, List.drop_take, List.take_take, List.drop_drop,
    Nat.min_eq_left (show count ≤ length - inner by omega)]

/-- A slice known as the concatenation of two pieces. -/
theorem slice_eq_append {bytes left right : List α} {first second : Nat}
    (whole : slice bytes offset (first + second) = left ++ right) (sized : left.length = first) :
    slice bytes offset first = left ∧ slice bytes (offset + first) second = right := by
  constructor
  · have front := congrArg (List.take first) whole
    rw [List.take_left' sized] at front
    rw [← front, slice, slice, List.take_take, Nat.min_eq_left (Nat.le_add_right _ _)]
  · have back := congrArg (List.drop first) whole
    rw [List.drop_left' sized] at back
    rw [← back, slice, slice, List.drop_take, List.drop_drop, Nat.add_sub_cancel_left]

/-- A piece that begins at `offset`. -/
theorem slice_append_here {left piece right : List α} (at_ : offset = left.length)
    (sized : length = piece.length) :
    slice (left ++ (piece ++ right)) offset length = piece := by
  subst at_ sized
  rw [slice_append_right (Nat.le_refl _), Nat.sub_self, slice_append_left (by simp), slice_all]

/-- A slice cut in two. -/
theorem slice_split (bytes : List α) (offset first second : Nat) :
    slice bytes offset (first + second) =
      slice bytes offset first ++ slice bytes (offset + first) second := by
  rw [slice, slice, slice, List.take_add, List.drop_drop]

/-- Consecutive pieces of the given widths. -/
def fields (bytes : List α) : (offset : Nat) → (widths : List Nat) → List (List α)
  | _, [] => []
  | offset, width :: rest => slice bytes offset width :: fields bytes (offset + width) rest

theorem slice_eq_fields (bytes : List α) (offset : Nat) (widths : List Nat) :
    slice bytes offset widths.sum = (fields bytes offset widths).flatten := by
  induction widths generalizing offset with
  | nil => simp [slice, fields]
  | cons width rest ih => rw [List.sum_cons, slice_split, ih, fields, List.flatten_cons]

theorem fields_append_flatten (front : List α) (pieces : List (List α)) :
    fields (front ++ pieces.flatten) front.length (pieces.map List.length) = pieces := by
  induction pieces generalizing front with
  | nil => rfl
  | cons piece rest ih =>
    have behind := ih (front ++ piece)
    rw [List.append_assoc, List.length_append] at behind
    rw [List.flatten_cons, List.map_cons, fields, slice_append_here rfl rfl, behind]

/-- The pieces of a concatenation. -/
theorem fields_flatten (pieces : List (List α)) :
    fields pieces.flatten 0 (pieces.map List.length) = pieces :=
  fields_append_flatten [] pieces

/-- A slice of what stands behind the first `count` bytes. -/
theorem slice_drop (bytes : List α) {count : Nat} (length : Nat) (behind : count ≤ offset) :
    slice bytes offset length = slice (bytes.drop count) (offset - count) length := by
  rw [slice, slice, List.drop_drop]
  congr 2
  omega

/-- A slice of the first `count` bytes. -/
theorem slice_take {bytes : List α} {count : Nat} (inside : offset + length ≤ count) :
    slice (bytes.take count) offset length = slice bytes offset length := by
  rw [slice, slice, List.drop_take, List.take_take, Nat.min_eq_left (by omega)]

/-- The bytes with `piece` written over those from `offset` on. -/
def splice (bytes : List α) (offset : Nat) (piece : List α) : List α :=
  bytes.take offset ++ piece ++ bytes.drop (offset + piece.length)

theorem splice_length {bytes piece : List α} (inside : offset + piece.length ≤ bytes.length) :
    (splice bytes offset piece).length = bytes.length := by
  simp only [splice, List.length_append, List.length_take, List.length_drop]
  omega

/-- The piece is read back. -/
theorem slice_splice_here {bytes piece : List α} (inside : offset ≤ bytes.length)
    (sized : length = piece.length) :
    slice (splice bytes offset piece) offset length = piece := by
  rw [splice, List.append_assoc]
  exact slice_append_here (by simp [inside]) sized

/-- What stands before the piece stays. -/
theorem slice_splice_before {bytes piece : List α} {at_ : Nat} (inside : offset ≤ bytes.length)
    (before : at_ + length ≤ offset) :
    slice (splice bytes offset piece) at_ length = slice bytes at_ length := by
  rw [splice, List.append_assoc, slice_append_left (by simp; omega), slice, slice, List.drop_take,
    List.take_take, Nat.min_eq_left (by omega)]

/-- What stands behind the piece stays. -/
theorem slice_splice_behind {bytes piece : List α} {at_ : Nat} (inside : offset ≤ bytes.length)
    (behind : offset + piece.length ≤ at_) :
    slice (splice bytes offset piece) at_ length = slice bytes at_ length := by
  have front : (bytes.take offset ++ piece).length = offset + piece.length := by
    simp [inside]
  rw [splice, slice_append_right (by omega), front, slice, slice, List.drop_drop]
  congr 2
  omega

/-- Several pieces, written one after the other at their offsets. -/
def patch (bytes : List α) (writes : List (Nat × List α)) : List α :=
  writes.foldl (fun bytes write => splice bytes write.1 write.2) bytes

/-- Every write lies inside. -/
def PatchInside (bytes : List α) (writes : List (Nat × List α)) : Prop :=
  ∀ write ∈ writes, write.1 + write.2.length ≤ bytes.length

section Patch

variable {bytes : List α} {write : Nat × List α} {writes : List (Nat × List α)}

theorem PatchInside.tail (inside : PatchInside bytes (write :: writes)) :
    PatchInside (splice bytes write.1 write.2) writes := by
  intro later mem
  rw [splice_length (inside write List.mem_cons_self)]
  exact inside later (List.mem_cons_of_mem _ mem)

theorem patch_length (inside : PatchInside bytes writes) :
    (patch bytes writes).length = bytes.length := by
  induction writes generalizing bytes with
  | nil => rfl
  | cons write rest ih =>
    exact (ih inside.tail).trans (splice_length (inside write List.mem_cons_self))

/-- What no write covers stays. -/
theorem slice_patch {at_ : Nat} (inside : PatchInside bytes writes)
    (apart : ∀ write ∈ writes, at_ + length ≤ write.1 ∨ write.1 + write.2.length ≤ at_) :
    slice (patch bytes writes) at_ length = slice bytes at_ length := by
  induction writes generalizing bytes with
  | nil => rfl
  | cons write rest ih =>
    have fits := inside write List.mem_cons_self
    refine (ih inside.tail fun later mem => apart later (List.mem_cons_of_mem _ mem)).trans ?_
    rcases apart write List.mem_cons_self with before | behind
    · exact slice_splice_before (by omega) before
    · exact slice_splice_behind (by omega) behind

/-- Writes in ascending order are read back. -/
theorem slice_patch_here (inside : PatchInside bytes writes)
    (ascending : writes.Pairwise fun write later => write.1 + write.2.length ≤ later.1)
    (mem : write ∈ writes) : slice (patch bytes writes) write.1 write.2.length = write.2 := by
  induction writes generalizing bytes with
  | nil => cases mem
  | cons head rest ih =>
    have fits := inside head List.mem_cons_self
    rw [List.pairwise_cons] at ascending
    rcases List.mem_cons.1 mem with rfl | mem
    · refine (slice_patch inside.tail fun later mem => .inl (ascending.1 later mem)).trans ?_
      exact slice_splice_here (by omega) rfl
    · exact ih inside.tail ascending.2 mem

end Patch

end Slices

theorem readLittleEndian_lt {width : Nat} {bytes : List (Fin 256)} :
    readLittleEndian width bytes offset < 256 ^ width := by
  refine Nat.lt_of_lt_of_le (ofLittleEndian_lt _) (Nat.pow_le_pow_right (by decide) ?_)
  simp only [slice, List.length_take]
  omega

/-- Writing a number that was read gives the bytes it was read from. -/
theorem toLittleEndian_read {width : Nat} {bytes : List (Fin 256)}
    (inside : offset + width ≤ bytes.length) :
    toLittleEndian width (readLittleEndian width bytes offset) = slice bytes offset width := by
  have whole := toLittleEndian_ofLittleEndian (slice bytes offset width)
  rwa [slice_length inside] at whole

/-- A number written at `offset` is read back. -/
theorem readLittleEndian_here {width offset value : Nat} {left right : List (Fin 256)}
    (at_ : offset = left.length) (fits : value < 256 ^ width) :
    readLittleEndian width (left ++ (toLittleEndian width value ++ right)) offset = value := by
  rw [readLittleEndian, slice_append_here at_ (by simp), ofLittleEndian_toLittleEndian fits]

end Miare.Misc
