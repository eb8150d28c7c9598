import Miare.Format.Blake2b

/-!
# The built-in BLAKE2b computes BLAKE2b

The compression of a block is that of the standard.  Between two calls the object holds the state
behind all full blocks but the last of the bytes it was given, so the digest depends only on their
concatenation.
-/

namespace Miare

open Misc

namespace Blake2b

/-! ## Words and bytes -/

theorem load64_step {value shift : Nat} {byte : Byte} (below : value < 2 ^ shift)
    (room : shift + 8 ≤ 64) :
    BitVec.ofNat 64 value ||| (BitVec.ofNat 64 byte.val <<< shift) =
      BitVec.ofNat 64 (value + 2 ^ shift * byte.val) := by
  apply BitVec.eq_of_toNat_eq
  have high : 2 ^ shift * byte.val + value < 2 ^ 64 := by
    have bound : 2 ^ shift * byte.val + 2 ^ shift ≤ 2 ^ shift * 256 := by
      have := Nat.mul_le_mul_left (2 ^ shift) (Nat.succ_le_of_lt byte.isLt)
      rwa [Nat.mul_succ] at this
    have power : 2 ^ shift * 256 ≤ 2 ^ 64 := by
      rw [show 256 = 2 ^ 8 by rfl, ← Nat.pow_add]
      exact Nat.pow_le_pow_right (by decide) room
    omega
  have small : byte.val < 2 ^ 64 := byte.isLt.trans (by decide)
  rw [BitVec.toNat_or, BitVec.toNat_shiftLeft, BitVec.toNat_ofNat, BitVec.toNat_ofNat,
    BitVec.toNat_ofNat, Nat.mod_eq_of_lt (by omega), Nat.mod_eq_of_lt small, Nat.shiftLeft_eq,
    Nat.mul_comm byte.val, Nat.mod_eq_of_lt (by omega), Nat.or_comm,
    ← Nat.two_pow_add_eq_or_of_lt below, Nat.add_comm value, Nat.mod_eq_of_lt high]

/-- The bytes of a word, lowest first. -/
theorem load64_eq {input : Bytes} {offset : Nat} (inside : offset + 8 ≤ input.length) :
    load64 input offset = BitVec.ofNat 64 (readLittleEndian 8 input offset) := by
  have partly : ∀ count ≤ 8, (List.range count).foldl
      (fun result index =>
        result ||| (BitVec.ofNat 64 (input.getD (offset + index) 0).val <<< (index * 8))) 0 =
      BitVec.ofNat 64 (ofLittleEndian (slice input offset count)) := by
    intro count
    induction count with
    | zero =>
      intro _
      simp [slice, ofLittleEndian]
    | succ count ih =>
      intro small
      have length : (slice input offset count).length = count := slice_length (by omega)
      have next : slice input offset (count + 1) =
          slice input offset count ++ [input.getD (offset + count) 0] := by
        rw [slice_split]
        congr 1
        rw [slice, List.take_one, List.head?_drop, List.getD_eq_getElem?_getD,
          List.getElem?_eq_getElem (by omega)]
        rfl
      rw [List.range_succ, List.foldl_append, ih (by omega), List.foldl_cons, List.foldl_nil,
        load64_step _ (by omega), next, ofLittleEndian_append, length]
      · rw [byte_pow]
        simp [ofLittleEndian]
      · have bound := ofLittleEndian_lt (slice input offset count)
        rwa [length, byte_pow] at bound
  exact partly 8 le_rfl

theorem encoded_eq (hash : Blake2b) : hash.encoded = Blake2.stateBytes hash.state := by
  unfold encoded Blake2.stateBytes
  congr 1
  funext word
  rw [toLittleEndian_eq_range]
  apply List.map_congr_left
  intro byte _
  rw [BitVec.toNat_ushiftRight, Nat.shiftRight_eq_div_pow]

/-! ## One block -/

/-- The two words of the counter hold a number of bytes. -/
structure Counts (hash : Blake2b) (bytes : Nat) : Prop where
  low : hash.counterLow = BitVec.ofNat 64 bytes
  high : hash.counterHigh = BitVec.ofNat 64 (bytes / 2 ^ 64)

/-- A carry of the low word goes into the high word. -/
theorem Counts.increment {hash : Blake2b} {bytes more : Nat} (counts : hash.Counts bytes)
    (small : more < 2 ^ 64) : (hash.incrementCounter more).Counts (bytes + more) := by
  refine ⟨?_, ?_⟩
  · unfold incrementCounter
    rw [counts.low, BitVec.ofNat_add]
  · unfold incrementCounter
    dsimp only
    rw [counts.low, counts.high, ← BitVec.ofNat_add]
    split
    · rename_i carry
      rw [BitVec.lt_def, BitVec.toNat_ofNat, BitVec.toNat_ofNat] at carry
      rw [show (1 : Word64) = BitVec.ofNat 64 1 by rfl, ← BitVec.ofNat_add]
      congr 1
      omega
    · rename_i fits
      rw [BitVec.lt_def, BitVec.toNat_ofNat, BitVec.toNat_ofNat] at fits
      congr 1
      omega

theorem permutations_eq : permutations = Blake2.schedule := by
  decide

theorem mix_eq : mix = Blake2.mixing := rfl

theorem mixRound_eq : mixRound = Blake2.round := by
  unfold mixRound Blake2.round
  rw [mix_eq]
  rfl

/-- `compress` is the compression function of the standard. -/
theorem compress_eq {hash : Blake2b} {bytes : Nat} (counts : hash.Counts bytes) (last : Bool) :
    (hash.compress last).state =
      Blake2.compression hash.state (Blake2.messageWords hash.buffer) bytes last := by
  have message : (Vector.ofFn fun index : Fin 16 => load64 hash.buffer (index * 8)) =
      Blake2.messageWords hash.buffer := by
    congr 1
    funext index
    have sized := hash.sized
    unfold blake2bBufferBytes at sized
    rw [load64_eq (by omega), Nat.mul_comm]
  have work : (let work : Vector Word64 16 := hash.state ++ initializationVector
      let work := work.set 12 (work[12] ^^^ hash.counterLow)
      let work := work.set 13 (work[13] ^^^ hash.counterHigh)
      if last then work.set 14 (~~~work[14]) else work) = Blake2.workVector hash.state bytes last := by
    rw [counts.low, counts.high]
    unfold Blake2.workVector
    dsimp only
    split
    · rw [BitVec.xor_allOnes]
      rfl
    · rfl
  unfold compress Blake2.compression
  dsimp only at work ⊢
  rw [message, work, permutations_eq, mixRound_eq]
  congr 1
  funext index
  exact (BitVec.xor_assoc _ _ _).symm

/-! ## What the object holds -/

/-- The object has been given the bytes of `data` and has compressed `full` blocks of them. -/
structure Absorbed (hash : Blake2b) (digestBytes : Nat) (data : Bytes) (full : Nat) : Prop where
  output : hash.outputBytes = digestBytes
  length : data.length = full * Blake2.blockBytes + hash.bufferBytes
  state : hash.state = Blake2.chain digestBytes data full
  counts : hash.Counts (full * Blake2.blockBytes)
  held : slice hash.buffer 0 hash.bufferBytes =
    slice data (full * Blake2.blockBytes) hash.bufferBytes

theorem absorbed_new (digestBytes : Nat) : (Blake2b.new digestBytes).Absorbed digestBytes [] 0 where
  output := rfl
  length := rfl
  state := by
    unfold new Blake2.chain Blake2.initialState
    rw [← BitVec.xor_assoc]
    rfl
  counts := ⟨rfl, rfl⟩
  held := rfl

section Turns

variable {hash : Blake2b} {digestBytes full : Nat} {data input : Bytes}

/-- The block that begins with the bytes of the buffer. -/
theorem Absorbed.block (absorbed : hash.Absorbed digestBytes data full) :
    Blake2.block data full =
      slice hash.buffer 0 hash.bufferBytes ++
        List.replicate (Blake2.blockBytes - hash.bufferBytes) 0 := by
  have whole : slice data (full * Blake2.blockBytes) Blake2.blockBytes =
      slice data (full * Blake2.blockBytes) hash.bufferBytes := by
    have rest : (data.drop (full * Blake2.blockBytes)).length = hash.bufferBytes := by
      rw [List.length_drop, absorbed.length]
      omega
    have bounded : hash.bufferBytes ≤ Blake2.blockBytes := hash.bounded
    rw [slice, slice, List.take_of_length_le (by omega), List.take_of_length_le (by omega)]
  have length : (slice hash.buffer 0 hash.bufferBytes).length = hash.bufferBytes := by
    have sized := hash.sized
    have bounded := hash.bounded
    exact slice_length (by omega)
  rw [Blake2.block, whole, ← absorbed.held, length]

theorem Absorbed.flush (absorbed : hash.Absorbed digestBytes data full) :
    ∃ count, hash.flush.Absorbed digestBytes data count := by
  unfold Blake2b.flush
  split
  · rename_i isFull
    have isBlock := absorbed.block
    have all := slice_all hash.buffer
    rw [hash.sized] at all
    have counts := absorbed.counts.increment (by decide : blake2bBufferBytes < 2 ^ 64)
    have total : full * Blake2.blockBytes + blake2bBufferBytes = (full + 1) * Blake2.blockBytes := by
      rw [Nat.succ_mul]
      rfl
    rw [isFull, all, show Blake2.blockBytes - blake2bBufferBytes = 0 from rfl, List.replicate_zero,
      List.append_nil] at isBlock
    rw [total] at counts
    refine ⟨full + 1, ⟨absorbed.output, ?_, ?_, ⟨counts.low, counts.high⟩, rfl⟩⟩
    · rw [absorbed.length, isFull, total]
      rfl
    · rw [Blake2.chain_succ, isBlock, ← absorbed.state]
      exact compress_eq counts false
  · exact ⟨full, absorbed⟩

theorem Absorbed.fill (absorbed : hash.Absorbed digestBytes data full) (input : Bytes) :
    (hash.fill input).Absorbed digestBytes (data ++ input.take (hash.room input)) full := by
  have sized := hash.sized
  have bounded := hash.bounded
  have fits : hash.room input ≤ input.length ∧
      hash.bufferBytes + hash.room input ≤ blake2bBufferBytes := by
    unfold room
    omega
  have length : (input.take (hash.room input)).length = hash.room input := by
    rw [List.length_take]
    omega
  refine ⟨absorbed.output, ?_, ?_, ⟨absorbed.counts.low, absorbed.counts.high⟩, ?_⟩
  · rw [List.length_append, length, absorbed.length, Nat.add_assoc]
    rfl
  · rw [Blake2.chain_append digestBytes (by rw [absorbed.length]; omega)]
    exact absorbed.state
  · change slice (splice hash.buffer hash.bufferBytes (input.take (hash.room input))) 0
      (hash.bufferBytes + hash.room input) = slice _ _ (hash.bufferBytes + hash.room input)
    rw [slice_split, slice_split, Nat.zero_add, slice_splice_before (by omega) (by omega),
      slice_splice_here (by omega) length.symm, absorbed.held,
      slice_append_left (by rw [absorbed.length]), slice_append_right (by rw [absorbed.length]),
      absorbed.length, Nat.sub_self]
    have all := slice_all (input.take (hash.room input))
    rw [length] at all
    rw [all]

/-- `update` adds its input to what the object holds. -/
theorem Absorbed.update (absorbed : hash.Absorbed digestBytes data full)
    (started : hash.bufferBytes = 0 → full = 0) (input : Bytes) :
    ∃ count, (hash.update input).Absorbed digestBytes (data ++ input) count ∧
      ((hash.update input).bufferBytes = 0 → count = 0) := by
  induction hash, input using Blake2b.update.induct generalizing data full with
  | case1 hash =>
    rw [Blake2b.update, if_pos rfl, List.append_nil]
    exact ⟨full, absorbed, started⟩
  | case2 hash input some ih =>
    obtain ⟨count, flushed⟩ := absorbed.flush
    have filled := flushed.fill input
    have positive := @room_flush hash input some
    obtain ⟨last, rest, more⟩ := ih filled (fun none => by
      change hash.flush.bufferBytes + hash.flush.room input = 0 at none
      omega)
    rw [List.append_assoc, List.take_append_drop] at rest
    rw [Blake2b.update, if_neg some]
    exact ⟨last, rest, more⟩

theorem pad_buffer (hash : Blake2b) : hash.pad.buffer =
    slice hash.buffer 0 hash.bufferBytes ++
      List.replicate (Blake2.blockBytes - hash.bufferBytes) 0 := by
  have sized := hash.sized
  change splice hash.buffer hash.bufferBytes
    (List.replicate (blake2bBufferBytes - hash.bufferBytes) 0) = _
  rw [splice, List.length_replicate, List.drop_eq_nil_of_le (by omega), List.append_nil]
  rfl

theorem Absorbed.finish (absorbed : hash.Absorbed digestBytes data full)
    (started : hash.bufferBytes = 0 → full = 0) :
    hash.finish digestBytes = .ok (Blake2.hash digestBytes data) := by
  have counts := absorbed.counts.increment
    (lt_of_le_of_lt hash.bounded (by decide : blake2bBufferBytes < 2 ^ 64))
  rw [← absorbed.length] at counts
  have last : Blake2.blockCount data.length - 1 = full := by
    rw [absorbed.length, Blake2.blockCount_eq hash.bounded started]
    rfl
  have padded : ((hash.incrementCounter hash.bufferBytes).pad).buffer = Blake2.block data full := by
    rw [absorbed.block, pad_buffer]
    rfl
  have compressed := @compress_eq (hash.incrementCounter hash.bufferBytes).pad data.length
    ⟨counts.low, counts.high⟩ true
  rw [padded] at compressed
  rw [Blake2b.finish, if_neg (by rw [absorbed.output]; exact fun different => different rfl),
    encoded_eq, compressed, Blake2.hash, last, ← absorbed.state]
  rfl

end Turns

/-- The segments one after the other. -/
theorem absorbed_segments (digestBytes : Nat) (segments : List Bytes) {hash : Blake2b} {data : Bytes}
    {full : Nat} (absorbed : hash.Absorbed digestBytes data full)
    (started : hash.bufferBytes = 0 → full = 0) :
    ∃ count, (segments.foldl update hash).Absorbed digestBytes (data ++ segments.flatten) count ∧
      ((segments.foldl update hash).bufferBytes = 0 → count = 0) := by
  induction segments generalizing hash data full with
  | nil =>
    rw [List.flatten_nil, List.append_nil]
    exact ⟨full, absorbed, started⟩
  | cons segment rest ih =>
    obtain ⟨count, next, more⟩ := absorbed.update started segment
    obtain ⟨last, final, end_⟩ := ih next more
    rw [List.append_assoc] at final
    exact ⟨last, final, end_⟩

end Blake2b

/-- The digest is the one of the standard for the concatenation of the inputs. -/
theorem blake2b_eq_hash (outputBytes : Nat) (inputs : List Bytes) :
    blake2b outputBytes inputs = .ok (Blake2.hash outputBytes inputs.flatten) := by
  obtain ⟨count, absorbed, started⟩ := Blake2b.absorbed_segments outputBytes inputs
    (Blake2b.absorbed_new outputBytes) (fun _ => rfl)
  exact absorbed.finish started

end Miare
