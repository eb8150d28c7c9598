import Miare.Blob.Load
import Miare.Allocator.Load
import Miare.Format.Proofs.Binding

/-!
# The file under the loaders

The loaders see a file as a store of extents.  Reading through the store succeeds exactly when
`readAuthenticatedExtent` does on the bytes, and the store does not depend on what stands behind the
committed boundary.
-/

namespace Miare

open Misc

section Length

variable {L : Limits} {providers : ProviderSet} {opened : OpenedDatabase}
  {validation : OpenedFormat} {file : Bytes} {reference : ExtentReference}
  {context : ExtentContext} {expected : Option Nat} {eligible : Bool} {input stored payload : Bytes}

theorem openStored_length {keyDomain storedLength : Nat}
    (inside : extentLayoutBytes + storedLength ≤ input.length)
    (authentic : openStored providers opened keyDomain input storedLength = .ok stored) :
    stored.length = storedLength := by
  unfold openStored at authentic
  split at authentic
  · rw [require_bind_eq_ok] at authentic
    obtain ⟨-, authentic⟩ := authentic
    cases authentic
    exact slice_length inside
  · obtain ⟨crypto, -, authentic⟩ := bind_eq_ok.1 authentic
    obtain ⟨opening, decrypted, authentic⟩ := bind_eq_ok.1 authentic
    split at authentic
    · cases authentic
    · cases authentic
      rw [crypto.decrypt_length decrypted, slice_length inside]

/-- The payload has the length that the preamble names. -/
theorem FileExtent.payload_length
    (extent : FileExtent L providers opened validation file reference context expected eligible
      input stored payload) :
    payload.length = (readExtentPreamble input).decodedLength := by
  have sized := extent.input_length
  have framed := extent.placed.framed
  have within := extent.placed.length
  obtain ⟨flags, -, -, -, storedLength, -, -, same, -⟩ := extent.representation
  have storedSized := openStored_length (by omega) extent.authentic
  rcases extent.decoded with ⟨plain, rfl⟩ | ⟨-, compression, -, decompressed⟩
  · rw [storedSized]
    exact same (by omega)
  · exact compression.decompress_length decompressed

/-- The expected length only adds a check. -/
theorem FileExtent.of_length
    (extent : FileExtent L providers opened validation file reference context expected eligible
      input stored payload) {other : Option Nat}
    (framable : ∀ length ∈ other, L.framable length)
    (blocks : ∀ length ∈ other, reference.blockCount ≤ L.blocksFor (encodedExtentLength length))
    (same : ∀ length ∈ other, payload.length = length) :
    FileExtent L providers opened validation file reference context other eligible
      input stored payload := by
  have sized := extent.payload_length
  obtain ⟨flags, plain, codec, profile, storedLength, -, page, rest⟩ := extent.representation
  exact
    { extent with
      framable
      span := ⟨extent.span.1, blocks, extent.span.2.2⟩
      representation := ⟨flags, plain, codec, profile, storedLength,
        fun length member => sized.symm.trans (same length member), page, rest⟩ }

end Length

/-! ## Reading through the store -/

/-- The contexts in which the loaders read: the key domain follows from the kind, and only Blobs own
extents. -/
structure ExtentContext.Regular (context : ExtentContext) : Prop where
  keyDomain : context.keyDomain = unitKeyDomain context.unitKind
  owner : if context.keyDomain = 4 then context.owner.length = blobIdBytes else context.owner = []

/-- The contexts of pages, overflow extents and allocator roots, and those of Blobs. -/
theorem loader_contexts_regular {owner : Bytes} (sized : owner.length = blobIdBytes) :
    (∀ unitKind ∈ [1, 2, 3, 4, 7, 8, 9, 10, 11, 14], ({ unitKind } : ExtentContext).Regular) ∧
      ∀ unitKind ∈ [5, 6, 12, 13], ∀ sequence,
        ({ unitKind, keyDomain := 4, sequence, owner } : ExtentContext).Regular := by
  constructor
  · intro unitKind member
    fin_cases member <;> exact ⟨rfl, rfl⟩
  · intro unitKind member sequence
    fin_cases member <;> exact ⟨rfl, sized⟩

section Store

variable {L : Limits} {providers : ProviderSet} {opened : OpenedDatabase} {file : Bytes}
  {reference : ExtentReference} {context : ExtentContext} {expected : Option Nat} {payload : Bytes}

/-- A regular context is the one that the preamble of an accepted extent names. -/
theorem canonicalExtent.context_eq {input : Bytes}
    (canonical : canonicalExtent opened reference context input) (regular : context.Regular) :
    (readExtentPreamble input).context = context := by
  obtain ⟨-, -, kind, -, -, -, -, -, -, sequence, owned, -⟩ := canonical
  have domain := regular.keyDomain
  have owner := regular.owner
  cases context with
  | mk unitKind keyDomain sequence' owner' =>
    simp only [ExtentPreamble.context, ExtentContext.mk.injEq] at *
    refine ⟨kind, by rw [kind, domain], sequence, ?_⟩
    rw [kind]
    subst domain
    split at owner
    · next blob =>
      rw [if_pos (.inl blob)]
      have present : owner' ≠ [] := by
        rintro rfl
        simp [blobIdBytes] at owner
      rw [if_neg present] at owned
      exact owned.2.symm
    · next plain =>
      subst owner
      rw [if_pos rfl] at owned
      rw [if_neg (by simp [plain, owned])]

/-- The preamble at a reference is the one of its extent. -/
theorem FileExtent.readPreambleAt_eq {validation : OpenedFormat} {eligible : Bool}
    {input stored : Bytes}
    (extent : FileExtent L providers opened validation file reference context expected eligible
      input stored payload) :
    readPreambleAt L file reference = .ok (readExtentPreamble input) := by
  have framed := extent.placed.framed
  have within := extent.placed.length
  obtain ⟨⟨start, width⟩, inside, isInput⟩ := readExactAt_eq_ok.1 extent.read
  have read : readExactAt file (reference.blockIndex * L.allocationQuantumBytes) extentLayoutBytes =
      .ok (slice file (reference.blockIndex * L.allocationQuantumBytes) extentLayoutBytes) :=
    readExactAt_eq_ok.2 ⟨⟨start, by omega⟩, by omega, rfl⟩
  rw [readPreambleAt, read, ok_bind, pure_eq_ok]
  congr 1
  apply readExtentPreamble_congr
  rw [isInput, slice_slice (by omega), slice_slice (by omega), Nat.add_zero]

/-- The store has extents at references that pass their check only. -/
theorem fileStore_placed {extent : StoredExtent}
    (found : opened.fileStore L providers file reference = some extent) :
    reference.Placed L opened.format.toOpenedFormat := by
  unfold OpenedDatabase.fileStore at found
  split at found
  · cases found
  · split at found
    · cases found
    · next opens =>
      obtain ⟨input, stored, extent⟩ := OpenedDatabase.readAuthenticatedExtent_eq_ok.1 opens
      exact extent.placed

/-- Reading through the store of a file is reading its bytes. -/
theorem readAuthenticatedExtent_fileStore (regular : context.Regular) :
    readAuthenticatedExtent L opened.format.toOpenedFormat (opened.fileStore L providers file)
        reference context expected = .ok payload ↔
      opened.readAuthenticatedExtent L providers opened.format.toOpenedFormat file reference
        context expected (unitCompressible context.unitKind) = .ok payload := by
  rw [readAuthenticatedExtent_eq_ok, OpenedDatabase.readAuthenticatedExtent_eq_ok]
  constructor
  · intro extent
    have stored := extent.stored
    unfold OpenedDatabase.fileStore at stored
    split at stored
    · cases stored
    · next preamble read =>
      split at stored
      · cases stored
      · next payload' opens =>
        simp only [Option.some.injEq, StoredExtent.mk.injEq] at stored
        obtain ⟨isContext, rfl⟩ := stored
        obtain ⟨input, stored, file_⟩ := OpenedDatabase.readAuthenticatedExtent_eq_ok.1 opens
        have kind : preamble.unitKind = context.unitKind := by rw [← isContext]; rfl
        rw [isContext, kind] at file_
        exact ⟨input, stored, file_.of_length extent.framable extent.span.2.1 extent.sized.1⟩
  · rintro ⟨input, stored, extent⟩
    have isContext := extent.canonical.context_eq regular
    have kind : (readExtentPreamble input).unitKind = context.unitKind := by
      rw [← isContext]
      rfl
    have opens := OpenedDatabase.readAuthenticatedExtent_eq_ok.2 ⟨input, stored,
      extent.of_length (by simp : ∀ length ∈ (none : Option Nat), L.framable length) (by simp)
        (by simp)⟩
    have sized := extent.payload_length
    obtain ⟨-, -, -, -, -, same, page, -⟩ := extent.representation
    refine ⟨extent.present, validateExtentReference_placed extent.placed, extent.framable,
      extent.span, ?_, ?_, ?_⟩
    · simp only [OpenedDatabase.fileStore, extent.readPreambleAt_eq, isContext, kind, opens]
    · intro length member
      rw [sized, same length member]
    · intro isPage
      rw [sized, page isPage]

/-- The overflow extent of `plainDatabase` is read through the store of its file. -/
theorem readAuthenticatedExtent_fileStore_overflow : ∃ file,
    plainDatabase.readAuthenticatedExtent .default plainProviders
        plainDatabase.format.toOpenedFormat file ⟨16, 1, 179, 2⟩ { unitKind := 11 } none
        (unitCompressible 11) = .ok [1, 2, 3] ∧
      readAuthenticatedExtent .default plainDatabase.format.toOpenedFormat
        (plainDatabase.fileStore .default plainProviders file) ⟨16, 1, 179, 2⟩ { unitKind := 11 }
        none = .ok [1, 2, 3] := by
  obtain ⟨bytes, _, -, -, -, reads⟩ := plainDatabase_overflow
  have regular : ({ unitKind := 11 } : ExtentContext).Regular := ⟨rfl, rfl⟩
  have read := reads none nofun
  exact ⟨_, read, (readAuthenticatedExtent_fileStore regular).2 read⟩

end Store

end Miare
