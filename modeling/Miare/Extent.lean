import Miare.Misc.Bytes
import Miare.Misc.Coverage
import Mathlib.Data.Fin.Basic
import Mathlib.Data.List.Lex
import Mathlib.Tactic

/-!
# Capacity profiles, extents and block runs

The data types shared by the storage engine: the persistent capacity profile
(`include/miare/types.hpp:420-483`), references to stored extents
(`include/miare/detail/exact_store.hpp:76-86`) and runs of allocation blocks
(`exact_store.hpp:344-348`).  Block indices and lengths are unsigned 64-bit in the source; they
are natural numbers here, and where the source tests for overflow the test is kept.
-/

namespace Miare

/-- A `std::byte`. -/
abbrev Byte : Type := Fin 256

/-- A `ByteView` or an owned byte vector. -/
abbrev Bytes : Type := List Byte

/-- Largest value of `std::uint64_t`. -/
def uint64Max : Nat := 2 ^ 64 - 1

/-- A capacity profile accepted by the concept `LimitPolicy` (`types.hpp:458-483`).  The
structural requirements of the concept are carried as fields. -/
structure Limits where
  allocationQuantumBytes : Nat
  maxInlineValueBytes : Nat
  blobChunkBytes : Nat
  maxKeyBytes : Nat
  maxValueBytes : Nat
  maxBlobBytes : Nat
  maxDatabaseBytes : Nat
  maxKeyMutationsPerTransaction : Nat
  maxBlobMutationsPerTransaction : Nat
  maxBlobBytesPerTransaction : Nat
  maxFileGrowthPerTransaction : Nat
  maxCursorsPerTransaction : Nat
  maxBlobReadersPerTransaction : Nat
  maxOpenBlobWritersPerTransaction : Nat
  quantum_single_bit : ∃ k, allocationQuantumBytes = 2 ^ k
  quantum_lower : 512 ≤ allocationQuantumBytes
  quantum_upper : allocationQuantumBytes ≤ 64 * 1024
  chunk_single_bit : ∃ k, blobChunkBytes = 2 ^ k
  chunk_lower : 64 * 1024 ≤ blobChunkBytes
  chunk_upper : blobChunkBytes ≤ 16 * 1024 * 1024
  quantum_le_chunk : allocationQuantumBytes ≤ blobChunkBytes
  inline_le_value : maxInlineValueBytes ≤ maxValueBytes
  -- the fields convert to `std::uint64_t`, the last three to `std::uint32_t`
  fits_uint64 : maxKeyBytes ≤ uint64Max ∧ maxValueBytes ≤ uint64Max ∧
    maxBlobBytes ≤ uint64Max ∧ maxDatabaseBytes ≤ uint64Max ∧
    maxKeyMutationsPerTransaction ≤ uint64Max ∧ maxBlobMutationsPerTransaction ≤ uint64Max ∧
    maxBlobBytesPerTransaction ≤ uint64Max ∧ maxFileGrowthPerTransaction ≤ uint64Max
  fits_uint32 : maxCursorsPerTransaction < 2 ^ 32 ∧ maxBlobReadersPerTransaction < 2 ^ 32 ∧
    maxOpenBlobWritersPerTransaction < 2 ^ 32

namespace Limits

variable (L : Limits)

theorem quantum_pos : 0 < L.allocationQuantumBytes :=
  Nat.lt_of_lt_of_le (by decide) L.quantum_lower

theorem chunk_pos : 0 < L.blobChunkBytes :=
  Nat.lt_of_lt_of_le (by decide) L.chunk_lower

/-- The performance-qualified default profile (`types.hpp:421-450`). -/
def default : Limits where
  allocationQuantumBytes := 4 * 1024
  maxInlineValueBytes := 1 * 1024
  blobChunkBytes := 2 ^ 20
  maxKeyBytes := 4 * 1024
  maxValueBytes := 16 * 1024 * 1024
  maxBlobBytes := 2 ^ 40
  maxDatabaseBytes := 16 * 2 ^ 40
  maxKeyMutationsPerTransaction := 1000000
  maxBlobMutationsPerTransaction := 1024
  maxBlobBytesPerTransaction := 2 ^ 40
  maxFileGrowthPerTransaction := 2 * 2 ^ 40
  maxCursorsPerTransaction := 1024
  maxBlobReadersPerTransaction := 1024
  maxOpenBlobWritersPerTransaction := 1024
  quantum_single_bit := ⟨12, by norm_num⟩
  quantum_lower := by norm_num
  quantum_upper := by norm_num
  chunk_single_bit := ⟨20, rfl⟩
  chunk_lower := by norm_num
  chunk_upper := by norm_num
  quantum_le_chunk := by norm_num
  inline_le_value := by norm_num
  fits_uint64 := by norm_num [uint64Max]
  fits_uint32 := by norm_num

/-- The default profile with the smallest quantum. -/
def smallQuantum : Limits :=
  { Limits.default with
    allocationQuantumBytes := 512
    quantum_single_bit := ⟨9, rfl⟩
    quantum_lower := Nat.le_refl _
    quantum_upper := by decide
    quantum_le_chunk := by decide }

end Limits

/-- Bytes of the bootstrap region and the two publication slots together. -/
def commonRegionBytes : Nat := 64 * 1024

/-- Encoded size of an extent preamble, `ExtentLayout::bytes`. -/
def extentLayoutBytes : Nat := 160

/-- Size of an authentication tag. -/
def authenticationTagBytes : Nat := 16

/-- First block behind the common region. -/
def Limits.commonBlocks (L : Limits) : Nat :=
  commonRegionBytes / L.allocationQuantumBytes

/-- Bytes an extent with the given stored payload takes in the file, before padding. -/
def encodedExtentLength (storedBytes : Nat) : Nat :=
  extentLayoutBytes + storedBytes + authenticationTagBytes

/-- Whole allocation blocks needed for `length` bytes. -/
def Limits.blocksFor (L : Limits) (length : Nat) : Nat :=
  (length + L.allocationQuantumBytes - 1) / L.allocationQuantumBytes

/-- Blocks of a page stored without compression. -/
def Limits.pageBlocks (L : Limits) : Nat :=
  max (16 * 1024) L.allocationQuantumBytes / L.allocationQuantumBytes

theorem Limits.blocksFor_pos (L : Limits) {length : Nat} (nonempty : 0 < length) :
    0 < L.blocksFor length := by
  apply Nat.div_pos _ L.quantum_pos
  omega

theorem encodedExtentLength_pos (storedBytes : Nat) : 0 < encodedExtentLength storedBytes := by
  unfold encodedExtentLength extentLayoutBytes
  omega

/-- A reference to an encoded extent (`exact_store.hpp:76-86`). -/
structure ExtentReference where
  blockIndex : Nat := 0
  blockCount : Nat := 0
  encodedLength : Nat := 0
  creationGeneration : Nat := 0
deriving DecidableEq, Repr

/-- The reference that stands for "no extent". -/
def ExtentReference.null (reference : ExtentReference) : Bool :=
  reference.blockIndex == 0 && reference.blockCount == 0 && reference.encodedLength == 0 &&
    reference.creationGeneration == 0

/-- A run of allocation blocks; a free run has retirement generation zero
(`exact_store.hpp:344-348`). -/
structure ExtentRun where
  start : Nat
  count : Nat
  retirementGeneration : Nat := 0
deriving DecidableEq, Repr

instance : Misc.Spanned ExtentRun := ⟨ExtentRun.start, ExtentRun.count⟩

instance : Misc.Spanned ExtentReference :=
  ⟨ExtentReference.blockIndex, ExtentReference.blockCount⟩

@[simp] theorem ExtentRun.first_eq (run : ExtentRun) : Misc.Spanned.first run = run.start := rfl

@[simp] theorem ExtentRun.size_eq (run : ExtentRun) : Misc.Spanned.size run = run.count := rfl

@[simp] theorem ExtentReference.first_eq (reference : ExtentReference) :
    Misc.Spanned.first reference = reference.blockIndex := rfl

@[simp] theorem ExtentReference.size_eq (reference : ExtentReference) :
    Misc.Spanned.size reference = reference.blockCount := rfl

/-- The blocks of an extent as a run without retirement generation. -/
def ExtentReference.toRun (reference : ExtentReference) : ExtentRun :=
  { start := reference.blockIndex, count := reference.blockCount }

theorem coverage_toRun (references : List ExtentReference) (x : Nat) :
    Misc.coverage (references.map ExtentReference.toRun) x = Misc.coverage references x :=
  Misc.coverage_map ExtentReference.toRun (fun _ => rfl) (fun _ => rfl) references x

end Miare
