import Miare.Extent
import Miare.Misc.Blake2

/-!
# The built-in BLAKE2b

The class of `include/miare/detail/blake2b.hpp` takes its input piece by piece.  It keeps up to one
block back, because the last block is compressed differently, and counts the bytes it has
compressed in two words.
-/

namespace Miare

open Misc

/-- `std::uint64_t`. -/
abbrev Word64 : Type := BitVec 64

/-- `buffer_.size()`. -/
def blake2bBufferBytes : Nat := 128

namespace Blake2b

/-- `initializationVector`. -/
def initializationVector : Vector Word64 8 := #v[
  0x6a09e667f3bcc908, 0xbb67ae8584caa73b, 0x3c6ef372fe94f82b, 0xa54ff53a5f1d36f1,
  0x510e527fade682d1, 0x9b05688c2b3e6c1f, 0x1f83d9abfb41bd6b, 0x5be0cd19137e2179]

/-- `permutations`: the rows of the twelve rounds. -/
def permutations : List (Vector (Fin 16) 16) := [
  (#v[0, 1, 2, 3, 4, 5, 6, 7, 8, 9, 10, 11, 12, 13, 14, 15]),
  (#v[14, 10, 4, 8, 9, 15, 13, 6, 1, 12, 0, 2, 11, 7, 5, 3]),
  (#v[11, 8, 12, 0, 5, 2, 15, 13, 10, 14, 3, 6, 7, 1, 9, 4]),
  (#v[7, 9, 3, 1, 13, 12, 11, 14, 2, 6, 5, 10, 4, 0, 15, 8]),
  (#v[9, 0, 5, 7, 2, 4, 10, 15, 14, 1, 11, 12, 6, 8, 3, 13]),
  (#v[2, 12, 6, 10, 0, 11, 8, 3, 4, 13, 7, 5, 15, 14, 1, 9]),
  (#v[12, 5, 1, 15, 14, 13, 4, 10, 0, 7, 6, 3, 9, 2, 8, 11]),
  (#v[13, 11, 7, 14, 12, 1, 3, 9, 5, 0, 15, 4, 8, 6, 2, 10]),
  (#v[6, 15, 14, 9, 11, 3, 0, 8, 12, 2, 13, 7, 1, 4, 10, 5]),
  (#v[10, 2, 8, 4, 7, 6, 1, 5, 15, 11, 9, 14, 3, 12, 13, 0]),
  (#v[0, 1, 2, 3, 4, 5, 6, 7, 8, 9, 10, 11, 12, 13, 14, 15]),
  (#v[14, 10, 4, 8, 9, 15, 13, 6, 1, 12, 0, 2, 11, 7, 5, 3])]

/-- `load64` at `offset`: the bytes are shifted into place one after the other. -/
def load64 (input : Bytes) (offset : Nat) : Word64 :=
  (List.range 8).foldl
    (fun result index =>
      result ||| (BitVec.ofNat 64 (input.getD (offset + index) 0).val <<< (index * 8))) 0

/-- `mix`. -/
def mix (work : Vector Word64 16) (a b c d : Fin 16) (x y : Word64) : Vector Word64 16 :=
  let work := work.set a (work[a] + work[b] + x)
  let work := work.set d ((work[d] ^^^ work[a]).rotateRight 32)
  let work := work.set c (work[c] + work[d])
  let work := work.set b ((work[b] ^^^ work[c]).rotateRight 24)
  let work := work.set a (work[a] + work[b] + y)
  let work := work.set d ((work[d] ^^^ work[a]).rotateRight 16)
  let work := work.set c (work[c] + work[d])
  work.set b ((work[b] ^^^ work[c]).rotateRight 63)

end Blake2b

/-- The members of `Blake2b`. -/
structure Blake2b where
  state : Vector Word64 8
  buffer : Bytes
  counterLow : Word64
  counterHigh : Word64
  bufferBytes : Nat
  outputBytes : Nat
  sized : buffer.length = blake2bBufferBytes
  bounded : bufferBytes ≤ blake2bBufferBytes

namespace Blake2b

/-- The constructor. -/
def new (outputBytes : Nat) : Blake2b where
  state := initializationVector.set 0
    (initializationVector[0] ^^^ (0x01010000 ^^^ BitVec.ofNat 64 outputBytes))
  buffer := List.replicate blake2bBufferBytes 0
  counterLow := 0
  counterHigh := 0
  bufferBytes := 0
  outputBytes := outputBytes
  sized := List.length_replicate
  bounded := Nat.zero_le _

/-- `incrementCounter`. -/
def incrementCounter (hash : Blake2b) (bytes : Nat) : Blake2b :=
  let previous := hash.counterLow
  let counterLow := previous + BitVec.ofNat 64 bytes
  { hash with
    counterLow
    counterHigh := if counterLow < previous then hash.counterHigh + 1 else hash.counterHigh }

/-- The eight mixing steps of a round. -/
def mixRound (message : Vector Word64 16) (work : Vector Word64 16)
    (permutation : Vector (Fin 16) 16) : Vector Word64 16 :=
  let work := mix work 0 4 8 12 message[permutation[0]] message[permutation[1]]
  let work := mix work 1 5 9 13 message[permutation[2]] message[permutation[3]]
  let work := mix work 2 6 10 14 message[permutation[4]] message[permutation[5]]
  let work := mix work 3 7 11 15 message[permutation[6]] message[permutation[7]]
  let work := mix work 0 5 10 15 message[permutation[8]] message[permutation[9]]
  let work := mix work 1 6 11 12 message[permutation[10]] message[permutation[11]]
  let work := mix work 2 7 8 13 message[permutation[12]] message[permutation[13]]
  mix work 3 4 9 14 message[permutation[14]] message[permutation[15]]

/-- `compress`. -/
def compress (hash : Blake2b) (last : Bool) : Blake2b :=
  let message : Vector Word64 16 := Vector.ofFn fun index => load64 hash.buffer (index * 8)
  let work : Vector Word64 16 := hash.state ++ initializationVector
  let work := work.set 12 (work[12] ^^^ hash.counterLow)
  let work := work.set 13 (work[13] ^^^ hash.counterHigh)
  let work := if last then work.set 14 (~~~work[14]) else work
  let work := permutations.foldl (mixRound message) work
  { hash with
    state := Vector.ofFn fun index : Fin 8 =>
      hash.state[index] ^^^ (work[index.val] ^^^ work[index.val + 8]) }

/-- The first statement of a turn of `update`: a full buffer is compressed. -/
def flush (hash : Blake2b) : Blake2b :=
  if hash.bufferBytes = blake2bBufferBytes then
    { (hash.incrementCounter blake2bBufferBytes).compress false with
      bufferBytes := 0
      bounded := Nat.zero_le _ }
  else hash

/-- `count` of a turn: how many bytes still fit. -/
def room (hash : Blake2b) (input : Bytes) : Nat :=
  min (blake2bBufferBytes - hash.bufferBytes) input.length

/-- The rest of a turn: bytes of the input go behind those of the buffer. -/
def fill (hash : Blake2b) (input : Bytes) : Blake2b :=
  { hash with
    buffer := splice hash.buffer hash.bufferBytes (input.take (hash.room input))
    bufferBytes := hash.bufferBytes + hash.room input
    sized := by
      have sized := hash.sized
      have bounded := hash.bounded
      rw [splice_length, sized]
      rw [List.length_take, room, sized]
      omega
    bounded := by
      have bounded := hash.bounded
      unfold room
      omega }

/-- There is room behind a full buffer that was compressed. -/
theorem room_flush {hash : Blake2b} {input : Bytes} (some : input ≠ []) :
    0 < hash.flush.room input := by
  have positive := List.length_pos_of_ne_nil some
  have bounded := hash.bounded
  unfold room flush blake2bBufferBytes at *
  split
  · dsimp only
    omega
  · omega

/-- `update`. -/
def update (hash : Blake2b) (input : Bytes) : Blake2b :=
  if input = [] then hash
  else
    update (hash.flush.fill input) (input.drop (hash.flush.room input))
termination_by input.length
decreasing_by
  rename_i empty
  have positive := @room_flush hash input empty
  have some := List.length_pos_of_ne_nil empty
  rw [List.length_drop]
  omega

/-- The zeros that `finish` puts behind the bytes of the buffer. -/
def pad (hash : Blake2b) : Blake2b :=
  { hash with
    buffer := splice hash.buffer hash.bufferBytes
      (List.replicate (blake2bBufferBytes - hash.bufferBytes) 0)
    sized := by
      have sized := hash.sized
      have bounded := hash.bounded
      rw [splice_length, sized]
      rw [List.length_replicate, sized]
      omega }

/-- The state as bytes, `encoded`. -/
def encoded (hash : Blake2b) : Bytes :=
  hash.state.toList.flatMap fun word : Word64 =>
    (List.range 8).map fun byte => Fin.ofNat 256 (word >>> (byte * 8)).toNat

/-- `finish` for an output of `outputSize` bytes; the error is its `ContractError`.  No output is
longer than `encoded`. -/
def finish (hash : Blake2b) (outputSize : Nat) : Except String Bytes :=
  if outputSize ≠ hash.outputBytes then .error "BLAKE2b output has an invalid size"
  else
    .ok ((((hash.incrementCounter hash.bufferBytes).pad.compress true).encoded).take outputSize)

end Blake2b

/-- `blake2b`. -/
def blake2b (outputBytes : Nat) (inputs : List Bytes) : Except String Bytes :=
  (inputs.foldl Blake2b.update (.new outputBytes)).finish outputBytes

end Miare
