import Mathlib.Data.List.Basic
import Miare.Misc.Bytes

/-!
# BLAKE2b

The hash function without a key, as its standard defines it: words of 64 bits, blocks of 128 bytes,
twelve rounds.  The data is cut into blocks, the last one padded with zeros; empty data has one
block.
-/

namespace Miare.Misc.Blake2

/-- A word. -/
abbrev Word : Type := BitVec 64

/-- Bytes of a block. -/
def blockBytes : Nat := 128

/-- The initialization vector. -/
def iv : Vector Word 8 := #v[
  0x6a09e667f3bcc908, 0xbb67ae8584caa73b, 0x3c6ef372fe94f82b, 0xa54ff53a5f1d36f1,
  0x510e527fade682d1, 0x9b05688c2b3e6c1f, 0x1f83d9abfb41bd6b, 0x5be0cd19137e2179]

/-- The numbers of the words of a block. -/
instance neZero_words : NeZero 16 := ⟨by decide⟩

/-- The numbers of the words of a state. -/
instance neZero_state : NeZero 8 := ⟨by decide⟩

/-- A row of the message schedule. -/
def row (a b c d e f g h i j k l m n o p : Fin 16) : Vector (Fin 16) 16 :=
  #v[a, b, c, d, e, f, g, h, i, j, k, l, m, n, o, p]

/-- The message schedule. -/
def sigma : Vector (Vector (Fin 16) 16) 10 := #v[
  row 0 1 2 3 4 5 6 7 8 9 10 11 12 13 14 15, -- round 0, again round 10
  row 14 10 4 8 9 15 13 6 1 12 0 2 11 7 5 3,
  row 11 8 12 0 5 2 15 13 10 14 3 6 7 1 9 4,
  row 7 9 3 1 13 12 11 14 2 6 5 10 4 0 15 8,
  row 9 0 5 7 2 4 10 15 14 1 11 12 6 8 3 13,
  row 2 12 6 10 0 11 8 3 4 13 7 5 15 14 1 9,
  row 12 5 1 15 14 13 4 10 0 7 6 3 9 2 8 11,
  row 13 11 7 14 12 1 3 9 5 0 15 4 8 6 2 10,
  row 6 15 14 9 11 3 0 8 12 2 13 7 1 4 10 5,
  row 10 2 8 4 7 6 1 5 15 11 9 14 3 12 13 0]

/-- Assigns a word of a vector of any size. -/
def assign {n : Nat} (v : Vector Word n) (i : Fin n) (word : Word) : Vector Word n := v.set i word

/-- The mixing function `G`. -/
def mixing (v : Vector Word 16) (a b c d : Fin 16) (x y : Word) : Vector Word 16 :=
  let v := assign v a (v.get a + v.get b + x)
  let v := assign v d ((v.get d ^^^ v.get a).rotateRight 32)
  let v := assign v c (v.get c + v.get d)
  let v := assign v b ((v.get b ^^^ v.get c).rotateRight 24)
  let v := assign v a (v.get a + v.get b + y)
  let v := assign v d ((v.get d ^^^ v.get a).rotateRight 16)
  let v := assign v c (v.get c + v.get d)
  assign v b ((v.get b ^^^ v.get c).rotateRight 63)

/-- A round: the columns and then the diagonals. -/
def round (m : Vector Word 16) (v : Vector Word 16) (s : Vector (Fin 16) 16) : Vector Word 16 :=
  let word (i : Fin 16) : Word := m.get (s.get i)
  let v := mixing v 0 4 8 12 (word 0) (word 1)
  let v := mixing v 1 5 9 13 (word 2) (word 3)
  let v := mixing v 2 6 10 14 (word 4) (word 5)
  let v := mixing v 3 7 11 15 (word 6) (word 7)
  let v := mixing v 0 5 10 15 (word 8) (word 9)
  let v := mixing v 1 6 11 12 (word 10) (word 11)
  let v := mixing v 2 7 8 13 (word 12) (word 13)
  mixing v 3 4 9 14 (word 14) (word 15)

/-- The rows of the schedule, one for each of the twelve rounds. -/
def schedule : List (Vector (Fin 16) 16) :=
  (List.range 12).map fun i => sigma.get ⟨i % 10, Nat.mod_lt i (by decide)⟩

/-- The work vector before the first round, from the state, the number of bytes so far and whether
the block is the last one. -/
def workVector (h : Vector Word 8) (t : Nat) (last : Bool) : Vector Word 16 :=
  let v : Vector Word 16 := h ++ iv
  let v := assign v 12 (v.get 12 ^^^ BitVec.ofNat 64 t)
  let v := assign v 13 (v.get 13 ^^^ BitVec.ofNat 64 (t / 2 ^ 64))
  if last then assign v 14 (v.get 14 ^^^ BitVec.allOnes 64) else v

/-- The compression function `F`. -/
def compression (h : Vector Word 8) (m : Vector Word 16) (t : Nat) (last : Bool) : Vector Word 8 :=
  let v := schedule.foldl (round m) (workVector h t last)
  Vector.ofFn fun i : Fin 8 => h.get i ^^^ v.get (i.castAdd 8) ^^^ v.get (i.addNat 8)

/-- The words of a block. -/
def messageWords (block : List (Fin 256)) : Vector Word 16 :=
  Vector.ofFn fun i : Fin 16 => BitVec.ofNat 64 (readLittleEndian 8 block (8 * i))

/-- Block number `i` of the data, padded with zeros. -/
def block (data : List (Fin 256)) (i : Nat) : List (Fin 256) :=
  let bytes := slice data (i * blockBytes) blockBytes
  bytes ++ List.replicate (blockBytes - bytes.length) 0

/-- Number of blocks of `length` bytes of data. -/
def blockCount (length : Nat) : Nat := max 1 ((length + (blockBytes - 1)) / blockBytes)

/-- The state before the first block, for a digest of `digestBytes` bytes. -/
def initialState (digestBytes : Nat) : Vector Word 8 :=
  assign iv 0 (iv.get 0 ^^^ 0x01010000 ^^^ BitVec.ofNat 64 digestBytes)

/-- The state behind the first `count` blocks, none of which is the last. -/
def chain (digestBytes : Nat) (data : List (Fin 256)) (count : Nat) : Vector Word 8 :=
  (List.range count).foldl
    (fun h i => compression h (messageWords (block data i)) ((i + 1) * blockBytes) false)
    (initialState digestBytes)

/-- The bytes of a state. -/
def stateBytes (h : Vector Word 8) : List (Fin 256) :=
  h.toList.flatMap fun word => toLittleEndian 8 word.toNat

/-- The digest of the data. -/
def hash (digestBytes : Nat) (data : List (Fin 256)) : List (Fin 256) :=
  let last := blockCount data.length - 1
  (stateBytes (compression (chain digestBytes data last) (messageWords (block data last))
    data.length true)).take digestBytes

/-! ## Blocks of growing data -/

theorem block_append {data more : List (Fin 256)} {i : Nat}
    (inside : (i + 1) * blockBytes ≤ data.length) : block (data ++ more) i = block data i := by
  unfold block
  rw [slice_append_left (by rw [Nat.succ_mul] at inside; exact inside)]

/-- Data that only grows keeps the states of its full blocks. -/
theorem chain_append (digestBytes : Nat) {data more : List (Fin 256)} {count : Nat}
    (inside : count * blockBytes ≤ data.length) :
    chain digestBytes (data ++ more) count = chain digestBytes data count := by
  refine List.foldl_ext _ _ _ fun h i member => ?_
  rw [block_append]
  exact (Nat.mul_le_mul_right _ (List.mem_range.1 member)).trans inside

theorem chain_succ (digestBytes : Nat) (data : List (Fin 256)) (count : Nat) :
    chain digestBytes data (count + 1) =
      compression (chain digestBytes data count) (messageWords (block data count))
        ((count + 1) * blockBytes) false := by
  rw [chain, List.range_succ, List.foldl_append]
  rfl

/-- Data that fills `count` blocks and a part of one more, or nothing at all. -/
theorem blockCount_eq {count rest : Nat} (short : rest ≤ blockBytes)
    (filled : rest = 0 → count = 0) : blockCount (count * blockBytes + rest) = count + 1 := by
  unfold blockCount blockBytes at *
  omega

/-- Three letters. -/
example : hash 64 [97, 98, 99] = [
    0xBA, 0x80, 0xA5, 0x3F, 0x98, 0x1C, 0x4D, 0x0D, 0x6A, 0x27, 0x97, 0xB6, 0x9F, 0x12,
    0xF6, 0xE9, 0x4C, 0x21, 0x2F, 0x14, 0x68, 0x5A, 0xC4, 0xB7, 0x4B, 0x12, 0xBB, 0x6F,
    0xDB, 0xFF, 0xA2, 0xD1, 0x7D, 0x87, 0xC5, 0x39, 0x2A, 0xAB, 0x79, 0x2D, 0xC2, 0x52,
    0xD5, 0xDE, 0x45, 0x33, 0xCC, 0x95, 0x18, 0xD3, 0x8A, 0xA8, 0xDB, 0xF1, 0x92, 0x5A,
    0xB9, 0x23, 0x86, 0xED, 0xD4, 0x00, 0x99, 0x23] := by
  decide +kernel

end Miare.Misc.Blake2
