import Miare.Format.Publication
import Miare.Misc.Disk
import Miare.Page.Encode

/-!
# Publishing a commit
-/

namespace Miare

open Misc

/-- What a commit has prepared: its extents with their offsets, its roots and its boundary. -/
structure ExactCommit (L : Limits) where
  extents : List (Nat × Bytes)
  root : ExtentReference
  blobRoot : ExtentReference
  allocatorRoot : ExtentReference
  nextBlock : Nat
  nonce : Bytes
  nonce_length : nonce.length = aeadNonceBytes
  behind_common : L.commonBlocks ≤ nextBlock
  extents_inside : ∀ write ∈ extents, commonRegionBytes ≤ write.1 ∧
    write.1 + write.2.length ≤ nextBlock * L.allocationQuantumBytes

/-- The file of a session and its `opened`. -/
structure StoredDatabase where
  file : Bytes
  opened : SelectedPublication

namespace ExactCommit

variable {L : Limits} (commit : ExactCommit L)

def highWaterBytes : Nat := commit.nextBlock * L.allocationQuantumBytes

/-- The file before the publication is written (`exact_store.hpp:4353-4358`). -/
def write (file : Bytes) : Bytes := patch (resizeTo commit.highWaterBytes file) commit.extents

/-- The format that the session has behind the commit (`exact_store.hpp:4403-4407`). -/
def format (format : PublicationFormat) : PublicationFormat :=
  { format with
    generation := format.generation + 1
    highWaterBytes := commit.highWaterBytes
    orderedRoot := encodeExtentReference commit.root
    blobRoot := encodeExtentReference commit.blobRoot
    allocatorRoot := encodeExtentReference commit.allocatorRoot }

end ExactCommit

/-- `growthBytes`: the difference of two `std::uint64_t`. -/
def growthBytes (highWaterBytes committedBytes : Nat) : Nat :=
  (highWaterBytes + 2 ^ 64 - committedBytes) % 2 ^ 64

/-- The end of `commitExact` (`exact_store.hpp:4324-4409`) when no file operation fails, with the
check of the generation at its beginning. -/
def publishCommit (L : Limits) (providers : ProviderSet) (keys : SessionKeys)
    (stored : StoredDatabase) (commit : ExactCommit L) : Except DatabaseError StoredDatabase := do
  let format := stored.opened.format
  require (databaseError .resourceLimit "database generation is exhausted")
    ((format.generation + 1) % 2 ^ 64 ≠ 0)
  require (databaseError .resourceLimit "commit would exceed the capacity profile")
    (growthBytes commit.highWaterBytes format.highWaterBytes ≤ L.maxFileGrowthPerTransaction ∧
      commit.highWaterBytes ≤ L.maxDatabaseBytes)
  let (plaintext, slot) ← prepareExactPublication L providers keys stored.opened commit.root
    commit.blobRoot commit.allocatorRoot commit.highWaterBytes commit.nonce
  pure
    { file := splice (commit.write stored.file) (slotOffset (nextSlotIndex format.generation)) slot
      opened := ⟨commit.format format, stored.opened.bootstrap, plaintext, false, 0⟩ }

end Miare
