import Miare.Format.Proofs.Creation
import Miare.Format.Proofs.FileStore

/-!
# Behind the committed boundary

Selection and the loaders look at no byte behind the boundary of the selected publication.
-/

namespace Miare

open Misc

/-- Both files reach the boundary and agree up to it. -/
structure AgreeUpTo (boundary : Nat) (file other : Bytes) : Prop where
  reaches : boundary ≤ file.length
  reachesOther : boundary ≤ other.length
  same : file.take boundary = other.take boundary

namespace AgreeUpTo

variable {boundary : Nat} {file other : Bytes} (agree : AgreeUpTo boundary file other)

include agree

theorem slice_eq {offset length : Nat} (inside : offset + length ≤ boundary) :
    slice file offset length = slice other offset length := by
  rw [← slice_take inside, agree.same, slice_take inside]

theorem readExactAt_eq {offset length : Nat} (inside : offset + length ≤ boundary) :
    readExactAt file offset length = readExactAt other offset length := by
  have reaches := agree.reaches
  have reachesOther := agree.reachesOther
  exact readExactAt_congr (by omega) (agree.slice_eq inside)

theorem openSlot_eq {index : Nat} (common : commonRegionBytes ≤ boundary) (index_lt : index < 2)
    (providers : ProviderSet) (keys : SessionKeys) (bootstrap : Bytes) :
    openSlot providers keys bootstrap file index =
      openSlot providers keys bootstrap other index := by
  have reaches := agree.reaches
  have reachesOther := agree.reachesOther
  have inside : slotOffset (index + 1) ≤ boundary := by
    simp only [commonRegionBytes] at common
    simp only [slotOffset, bootstrapBytes, publicationSlotBytes]
    omega
  refine openSlot_congr (by omega) (agree.slice_eq ?_)
  rw [← slotOffset_succ]
  exact inside

variable {L : Limits} {providers : ProviderSet} {opened : OpenedDatabase}
  {validation : OpenedFormat}

/-- Reads of extents agree, in their failures too. -/
theorem readAuthenticatedExtent_eq (bounded : validation.highWaterBytes ≤ boundary)
    (reference : ExtentReference) (context : ExtentContext) (expected : Option Nat)
    (eligible : Bool) :
    opened.readAuthenticatedExtent L providers validation file reference context expected
        eligible =
      opened.readAuthenticatedExtent L providers validation other reference context expected
        eligible := by
  unfold OpenedDatabase.readAuthenticatedExtent
  by_cases present : reference.null = false
  · cases checked : validateExtentReference L validation reference with
    | error error => simp [require, raise]
    | ok valid =>
      have placed := validateExtentReference_ok checked present
      have limit := placed.limit
      rw [agree.readExactAt_eq (by rw [← Nat.add_mul]; omega)]
  · simp [require, present]

/-- So do the preambles of references that pass their check. -/
theorem readPreambleAt_eq (bounded : validation.highWaterBytes ≤ boundary)
    (common : commonRegionBytes ≤ boundary) {reference : ExtentReference}
    (valid : validateExtentReference L validation reference = .ok ()) :
    readPreambleAt L file reference = readPreambleAt L other reference := by
  have inside : reference.blockIndex * L.allocationQuantumBytes + extentLayoutBytes ≤ boundary := by
    cases absent : reference.null with
    | true =>
      rw [eq_default_of_null absent]
      simp only [commonRegionBytes] at common
      simp only [extentLayoutBytes]
      omega
    | false =>
      have placed := validateExtentReference_ok valid absent
      have limit := placed.limit
      have framed := placed.framed
      have length := placed.length
      rw [Nat.add_mul] at limit
      omega
  rw [readPreambleAt, readPreambleAt, agree.readExactAt_eq inside]

/-- The two files are one store. -/
theorem fileStore_eq (bounded : opened.format.highWaterBytes ≤ boundary)
    (common : commonRegionBytes ≤ boundary) :
    opened.fileStore L providers file = opened.fileStore L providers other := by
  funext reference
  by_cases valid : validateExtentReference L opened.format.toOpenedFormat reference = .ok ()
  · simp only [OpenedDatabase.fileStore, agree.readAuthenticatedExtent_eq bounded,
      agree.readPreambleAt_eq bounded common valid]
  · -- an invalid reference is refused, whatever its preamble says
    have refused (bytes : Bytes) : opened.fileStore L providers bytes reference = none := by
      apply Option.eq_none_iff_forall_ne_some.2
      intro extent found
      exact valid (validateExtentReference_placed (fileStore_placed found))
    rw [refused, refused]

end AgreeUpTo

theorem slot_common {L : Limits} {providers : ProviderSet} {bootstrap : Bytes} {index : Nat}
    {opened : Option Bytes} {slot : ValidSlot}
    (valid : validateSlot L providers bootstrap index opened = .ok (some slot)) :
    commonRegionBytes ≤ slot.format.highWaterBytes :=
  (validatePublication_published (validateSlot_eq_some.1 valid).2).common

/-- A file that agrees up to the boundary selects the same publication. -/
theorem selectPublication_agree {L : Limits} {providers : ProviderSet} {keys : SessionKeys}
    {file other : Bytes} {selected : SelectedPublication}
    (selects : selectPublication L providers keys file = .ok (some selected))
    (reachesOther : selected.format.highWaterBytes ≤ other.length)
    (same : file.take selected.format.highWaterBytes = other.take selected.format.highWaterBytes) :
    selectPublication L providers keys other =
        .ok (some { selected with
          abandonedTailBytes := other.length - selected.format.highWaterBytes }) ∧
      AgreeUpTo selected.format.highWaterBytes file other ∧
      commonRegionBytes ≤ selected.format.highWaterBytes := by
  obtain ⟨bootstrap, first, second, firstSlot, secondSlot, slot, rejected, selection, choice,
    reaches, rfl⟩ := selectPublication_eq_some.1 selects
  have common : commonRegionBytes ≤ slot.format.highWaterBytes := by
    rcases choosePublication_cases choice with
      ⟨held, -⟩ | ⟨-, held⟩ | ⟨-, held, -⟩ | ⟨-, -, held, -⟩ | ⟨-, held, -⟩
    · exact slot_common (held ▸ selection.first_valid)
    · exact slot_common (held ▸ selection.second_valid)
    · exact slot_common (held ▸ selection.first_valid)
    · exact slot_common (held ▸ selection.second_valid)
    · exact slot_common (held ▸ selection.first_valid)
  have agree : AgreeUpTo slot.format.highWaterBytes file other := ⟨reaches, reachesOther, same⟩
  refine ⟨selectPublication_eq_some.2 ⟨bootstrap, first, second, firstSlot, secondSlot, slot,
    rejected, { selection with bootstrap_read := ?_, first_open := ?_, second_open := ?_ }, choice,
    reachesOther, rfl⟩, agree, common⟩
  · rw [← agree.readExactAt_eq (Nat.le_trans (by decide) common)]
    exact selection.bootstrap_read
  · rw [← agree.openSlot_eq common (by decide)]
    exact selection.first_open
  · rw [← agree.openSlot_eq common (by decide)]
    exact selection.second_open

/-- Bytes behind the committed boundary do not matter.  A file that reaches the boundary and agrees
up to it selects the same publication, up to the count of abandoned bytes; every read of an extent,
every preamble that the loaders look at and everything they load is the same, failures included. -/
theorem committedBoundary_determines (L : Limits) (providers : ProviderSet) (keys : SessionKeys)
    (file other : Bytes) (selected : SelectedPublication)
    (selects : selectPublication L providers keys file = .ok (some selected))
    (reachesOther : selected.format.highWaterBytes ≤ other.length)
    (same : file.take selected.format.highWaterBytes = other.take selected.format.highWaterBytes) :
    selectPublication L providers keys other =
        .ok (some { selected with
          abandonedTailBytes := other.length - selected.format.highWaterBytes }) ∧
      ∀ opened : OpenedDatabase, opened.format = selected.format →
        let format := opened.format.toOpenedFormat
        let store := opened.fileStore L providers file
        let storeOther := opened.fileStore L providers other
        (∀ reference context expected eligible,
          opened.readAuthenticatedExtent L providers format file reference context expected
              eligible =
            opened.readAuthenticatedExtent L providers format other reference context expected
              eligible) ∧
        (∀ reference, validateExtentReference L format reference = .ok () →
          readPreambleAt L file reference = readPreambleAt L other reference) ∧
        loadExactValues L format store (decodeExtentReference opened.format.orderedRoot) =
          loadExactValues L format storeOther (decodeExtentReference opened.format.orderedRoot) ∧
        loadBlobCatalog L format store (decodeExtentReference opened.format.blobRoot) =
          loadBlobCatalog L format storeOther (decodeExtentReference opened.format.blobRoot) ∧
        ∀ reachable, loadAllocatorReferences L format store
            (decodeExtentReference opened.format.allocatorRoot) reachable =
          loadAllocatorReferences L format storeOther
            (decodeExtentReference opened.format.allocatorRoot) reachable := by
  obtain ⟨selectsOther, agree, common⟩ := selectPublication_agree selects reachesOther same
  refine ⟨selectsOther, ?_⟩
  intro opened isFormat
  have bounded : opened.format.highWaterBytes ≤ selected.format.highWaterBytes := by rw [isFormat]
  rw [agree.fileStore_eq bounded common]
  refine ⟨?_, ?_, rfl, rfl, fun _ => rfl⟩
  · intro reference context expected eligible
    exact agree.readAuthenticatedExtent_eq bounded reference context expected eligible
  · intro reference valid
    exact agree.readPreambleAt_eq bounded common valid

/-- A new database as it is opened. -/
def newDatabase : OpenedDatabase := { plainDatabase with format := initialFormat 0 }

/-- A new database, and the same file with a sealed extent behind its boundary: it is selected, the
extent is read as if it were not there and the map is empty. -/
theorem committedBoundary_determines_created : ∃ file tail selected,
    selectPublication .default plainProviders newDatabase.keys file = .ok (some selected) ∧
      selected.format = newDatabase.format ∧
      sealAuthenticatedExtent .default plainProviders plainDatabase (plainPayload [1, 2, 3])
        { unitKind := 11 } 2 16 (List.replicate aeadNonceBytes 0) =
          .ok (⟨16, 1, 179, 2⟩, tail) ∧
      selectPublication .default plainProviders newDatabase.keys (file ++ tail) =
        .ok (some { selected with abandonedTailBytes := 4096 }) ∧
      newDatabase.readAuthenticatedExtent .default plainProviders newDatabase.format.toOpenedFormat
          (file ++ tail) ⟨16, 1, 179, 2⟩ { unitKind := 11 } none true =
        newDatabase.readAuthenticatedExtent .default plainProviders
          newDatabase.format.toOpenedFormat file ⟨16, 1, 179, 2⟩ { unitKind := 11 } none true ∧
      loadExactValues .default newDatabase.format.toOpenedFormat
          (newDatabase.fileStore .default plainProviders (file ++ tail))
          (decodeExtentReference newDatabase.format.orderedRoot) =
        .ok ({ values := Keyed.empty, reachable := [] }, MutableRoot.empty) := by
  obtain ⟨tail, _, extent, -⟩ := plainDatabase_overflow
  have sized : tail.length = 4096 := extent.bytes_length List.length_replicate
  have identitySized : (List.replicate 16 (7 : Byte)).length = databaseIdentityBytes := by simp; rfl
  have selects := selectPublication_created identitySized .default plainProviders newDatabase.keys
    (show 0 ≤ 1 by decide) rfl
  obtain ⟨length_eq, -, -⟩ := commonRegion_reads identitySized .default plainProviders 0
  generalize makeInitialUnencryptedCommonRegion .default plainProviders (List.replicate 16 7) 0 =
    file at selects length_eq
  have boundary : (initialFormat 0).highWaterBytes = file.length := length_eq.symm
  obtain ⟨determined, reads⟩ := committedBoundary_determines .default plainProviders
    newDatabase.keys file (file ++ tail) _ selects
    (by rw [boundary, List.length_append]; exact Nat.le_add_right _ _)
    (by rw [boundary, List.take_left, List.take_length])
  obtain ⟨extents, -, values, -⟩ := reads newDatabase rfl
  refine ⟨file, tail, _, selects, rfl, sealAuthenticatedExtent_eq_ok.2 ⟨_, _, extent⟩, ?_,
    (extents _ _ _ _).symm, values.symm⟩
  rw [determined, List.length_append, boundary, sized, Nat.add_sub_cancel_left]

end Miare
