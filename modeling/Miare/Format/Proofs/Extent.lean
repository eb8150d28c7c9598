import Miare.Format.Extent
import Miare.Format.Proofs.Selection
import Miare.Page.Proofs.Canonical
import Miare.Tree.Proofs.Placement

/-!
# Sealing and reading extents

A preamble is read back as it was written, and a preamble that passes the fixed checks is the
encoding of what is read from it.  From the two follow the round trip of an extent and, without
encryption, that an accepted extent has one representation.
-/

namespace Miare

open Misc

/-! ## Preambles -/

/-- The fields of a preamble fit their widths. -/
structure ExtentPreamble.Fits (preamble : ExtentPreamble) : Prop where
  unitKind : preamble.unitKind < 2 ^ 16
  flags : preamble.flags < 2 ^ 32
  keyDomain : preamble.keyDomain < 2 ^ 32
  codec : preamble.codec < 2 ^ 32
  codecProfile : preamble.codecProfile < 2 ^ 32
  blockIndex : preamble.blockIndex < 2 ^ 64
  blockCount : preamble.blockCount < 2 ^ 64
  encodedLength : preamble.encodedLength < 2 ^ 64
  storedLength : preamble.storedLength < 2 ^ 64
  decodedLength : preamble.decodedLength < 2 ^ 64
  generation : preamble.generation < 2 ^ 64
  sequence : preamble.sequence < 2 ^ 64
  owner : preamble.owner.length = blobIdBytes
  nonce : preamble.nonce.length = aeadNonceBytes

/-- Widths of the fields of a preamble. -/
def extentPreambleWidths : List Nat :=
  [8, 2, 2, 4, 4, 4, 4, 4, 8, 8, 8, 8, 8, 8, 8, 16, 24, 32]

section Preamble

variable {preamble : ExtentPreamble} {input : Bytes}

theorem ExtentPreamble.fields_widths (owner : preamble.owner.length = blobIdBytes)
    (nonce : preamble.nonce.length = aeadNonceBytes) :
    preamble.fields.map List.length = extentPreambleWidths := by
  simp [ExtentPreamble.fields, extentMagic, extentPreambleWidths, owner, nonce, blobIdBytes,
    aeadNonceBytes]

theorem ExtentPreamble.encode_length (owner : preamble.owner.length = blobIdBytes)
    (nonce : preamble.nonce.length = aeadNonceBytes) :
    preamble.encode.length = extentLayoutBytes := by
  rw [ExtentPreamble.encode, List.length_flatten, ExtentPreamble.fields_widths owner nonce]
  rfl

/-- The fixed parts of a preamble. -/
structure FixedPreamble (input : Bytes) : Prop where
  magic : slice input 0 8 = extentMagic
  version : readLittleEndian 2 input 8 = 1
  layout : readLittleEndian 4 input 28 = extentLayoutBytes
  reserved : allZero (slice input 128 32) = true

/-- A preamble is read back from the beginning of an extent. -/
theorem readExtentPreamble_encode (fits : preamble.Fits) (rest : Bytes) :
    readExtentPreamble (preamble.encode ++ rest) = preamble ∧
      FixedPreamble (preamble.encode ++ rest) := by
  have reads : Misc.fields preamble.encode 0 extentPreambleWidths = preamble.fields := by
    have whole := fields_flatten preamble.fields
    rwa [ExtentPreamble.fields_widths fits.owner fits.nonce] at whole
  have left {offset length : Nat} (inside : offset + length ≤ 160) :
      slice (preamble.encode ++ rest) offset length = slice preamble.encode offset length :=
    slice_append_left (by rw [ExtentPreamble.encode_length fits.owner fits.nonce]; exact inside)
  simp only [Misc.fields, extentPreambleWidths, ExtentPreamble.fields, List.cons.injEq,
    Nat.reduceAdd, Nat.zero_add, and_true] at reads
  obtain ⟨magic, version, unitKind, flags, keyDomain, codec, codecProfile, layout, blockIndex,
    blockCount, encodedLength, storedLength, decodedLength, generation, sequence, owner, nonce,
    reserved⟩ := reads
  constructor
  · simp [readExtentPreamble, readLittleEndian, left, unitKind, flags, keyDomain, codec,
      codecProfile, blockIndex, blockCount, encodedLength, storedLength, decodedLength, generation,
      sequence, owner, nonce, ofLittleEndian_two fits.unitKind, ofLittleEndian_four fits.flags,
      ofLittleEndian_four fits.keyDomain, ofLittleEndian_four fits.codec,
      ofLittleEndian_four fits.codecProfile, ofLittleEndian_eight fits.blockIndex,
      ofLittleEndian_eight fits.blockCount, ofLittleEndian_eight fits.encodedLength,
      ofLittleEndian_eight fits.storedLength, ofLittleEndian_eight fits.decodedLength,
      ofLittleEndian_eight fits.generation, ofLittleEndian_eight fits.sequence, blobIdBytes,
      aeadNonceBytes]
  · refine ⟨?_, ?_, ?_, ?_⟩
    · rw [left (by decide), magic]
    · rw [readLittleEndian, left (by decide), version, ofLittleEndian_two (by decide)]
    · rw [readLittleEndian, left (by decide), layout, ofLittleEndian_four (by decide)]
    · rw [left (by decide), reserved, allZero_replicate]

/-- A preamble with the fixed parts is the encoding of what is read from it. -/
theorem encode_readExtentPreamble (long : extentLayoutBytes ≤ input.length)
    (fixed : FixedPreamble input) :
    (readExtentPreamble input).encode = slice input 0 extentLayoutBytes := by
  have parts : slice input 0 extentLayoutBytes =
      (Misc.fields input 0 extentPreambleWidths).flatten :=
    slice_eq_fields input 0 extentPreambleWidths
  have inside {offset width : Nat} (small : offset + width ≤ 160) :
      offset + width ≤ input.length := Nat.le_trans small long
  have version : slice input 8 2 = toLittleEndian 2 1 := by
    rw [← toLittleEndian_read (inside (by decide)), fixed.version]
  have layout : slice input 28 4 = toLittleEndian 4 extentLayoutBytes := by
    rw [← toLittleEndian_read (inside (by decide)), fixed.layout]
  have reserved : slice input 128 32 = List.replicate 32 0 := by
    rw [eq_replicate_of_allZero fixed.reserved, slice_length (inside (by decide))]
  rw [parts]
  simp only [ExtentPreamble.encode, ExtentPreamble.fields, readExtentPreamble, Misc.fields,
    extentPreambleWidths, Nat.reduceAdd, Nat.zero_add, fixed.magic, version, layout, reserved,
    toLittleEndian_read (inside (show 10 + 2 ≤ 160 by decide)),
    toLittleEndian_read (inside (show 12 + 4 ≤ 160 by decide)),
    toLittleEndian_read (inside (show 16 + 4 ≤ 160 by decide)),
    toLittleEndian_read (inside (show 20 + 4 ≤ 160 by decide)),
    toLittleEndian_read (inside (show 24 + 4 ≤ 160 by decide)),
    toLittleEndian_read (inside (show 32 + 8 ≤ 160 by decide)),
    toLittleEndian_read (inside (show 40 + 8 ≤ 160 by decide)),
    toLittleEndian_read (inside (show 48 + 8 ≤ 160 by decide)),
    toLittleEndian_read (inside (show 56 + 8 ≤ 160 by decide)),
    toLittleEndian_read (inside (show 64 + 8 ≤ 160 by decide)),
    toLittleEndian_read (inside (show 72 + 8 ≤ 160 by decide)),
    toLittleEndian_read (inside (show 80 + 8 ≤ 160 by decide)), blobIdBytes, aeadNonceBytes]

end Preamble

/-! ## Reading -/

theorem raise_eq_ok {check : Except LoadError Unit} : raise check = .ok () ↔ check = .ok () := by
  cases check <;> simp [raise]

/-- What a successful read of a file says. -/
structure FileExtent (L : Limits) (providers : ProviderSet) (opened : OpenedDatabase)
    (validation : OpenedFormat) (file : Bytes) (reference : ExtentReference)
    (context : ExtentContext) (expected : Option Nat) (eligible : Bool)
    (input stored payload : Bytes) : Prop where
  present : reference.null = false
  placed : reference.Placed L validation
  framable : ∀ length ∈ expected, L.framable length
  span : (isPageKind context.unitKind → reference.blockCount ≤ L.pageBlocks) ∧
    (∀ length ∈ expected, reference.blockCount ≤ L.blocksFor (encodedExtentLength length)) ∧
    reference.blockCount = L.minimalBlocks reference.encodedLength
  read : readExactAt file (reference.blockIndex * L.allocationQuantumBytes)
    (reference.blockCount * L.allocationQuantumBytes) = .ok input
  canonical : canonicalExtent opened reference context input
  decodable : L.framable (readExtentPreamble input).decodedLength
  representation : validRepresentation L opened reference context expected eligible
    (readExtentPreamble input)
  authentic : openStored providers opened context.keyDomain input
    (readExtentPreamble input).storedLength = .ok stored
  decoded : (readExtentPreamble input).flags ≠ 1 ∧ payload = stored ∨
    (readExtentPreamble input).flags = 1 ∧ ∃ compression,
      providers.requireCompression = .ok compression ∧
      compression.decompress stored (readExtentPreamble input).decodedLength = .ok payload

section Reading

variable {L : Limits} {providers : ProviderSet} {opened : OpenedDatabase}
  {validation : OpenedFormat} {file : Bytes} {reference : ExtentReference}
  {context : ExtentContext} {expected : Option Nat} {eligible : Bool} {input stored payload : Bytes}

theorem OpenedDatabase.readAuthenticatedExtent_eq_ok :
    opened.readAuthenticatedExtent L providers validation file reference context expected eligible =
        .ok payload ↔
      ∃ input stored, FileExtent L providers opened validation file reference context expected
        eligible input stored payload := by
  unfold OpenedDatabase.readAuthenticatedExtent
  constructor
  · intro read
    rw [require_bind_eq_ok] at read
    obtain ⟨present, read⟩ := read
    obtain ⟨⟨⟩, valid, read⟩ := bind_eq_ok.1 read
    rw [require_bind_eq_ok, require_bind_eq_ok] at read
    obtain ⟨framable, span, read⟩ := read
    obtain ⟨input, fetched, read⟩ := bind_eq_ok.1 read
    rw [require_bind_eq_ok] at read
    obtain ⟨canonical, read⟩ := read
    rw [require_bind_eq_ok, require_bind_eq_ok] at read
    obtain ⟨decodable, representation, read⟩ := read
    obtain ⟨stored, authentic, read⟩ := bind_eq_ok.1 read
    refine ⟨input, stored, present, validateExtentReference_ok (raise_eq_ok.1 valid) present,
      framable, span, fetched, canonical, decodable, representation, authentic, ?_⟩
    split at read
    · next compressed => exact .inr ⟨compressed, bind_eq_ok.1 read⟩
    · next plain =>
      cases read
      exact .inl ⟨plain, rfl⟩
  · rintro ⟨input, stored, extent⟩
    have valid := raise_eq_ok.2 (validateExtentReference_placed extent.placed)
    simp only [require_of extent.present, valid, require_of extent.framable, require_of extent.span,
      extent.read, require_of extent.canonical, require_of extent.decodable,
      require_of extent.representation, extent.authentic, ok_bind]
    rcases extent.decoded with ⟨plain, rfl⟩ | ⟨compressed, compression, provided, decompressed⟩
    · rw [if_neg plain]
      rfl
    · rw [if_pos compressed, provided, ok_bind, decompressed]

/-- The fixed parts of an accepted extent. -/
theorem canonicalExtent.fixed (canonical : canonicalExtent opened reference context input) :
    FixedPreamble input := by
  obtain ⟨magic, version, -, -, layout, -, -, -, -, -, -, -, reserved, -⟩ := canonical
  exact ⟨magic, version, layout, reserved⟩

end Reading

/-! ## Sealing -/

section Sealing

variable {L : Limits} {providers : ProviderSet} {opened : OpenedDatabase} {context : ExtentContext}
  {payload : PreparedExtentPayload} {generation blockIndex : Nat} {nonce : Bytes}
  {reference : ExtentReference} {bytes : Bytes}

theorem ownerField_length (known : context.owner = [] ∨ context.owner.length = blobIdBytes) :
    (ownerField context.owner).length = blobIdBytes := by
  unfold ownerField
  split
  · simp
  · next present => exact known.resolve_left present

theorem protectStored_length {keyDomain : Nat} {preamble : ExtentPreamble} {stored body tag : Bytes}
    (protects : protectStored providers opened keyDomain preamble stored = .ok (body, tag)) :
    body.length = stored.length ∧ tag.length = authenticationTagBytes := by
  unfold protectStored at protects
  split at protects
  · cases protects
    exact ⟨rfl, providers.blake2b_length _ _⟩
  · obtain ⟨crypto, -, protects⟩ := bind_eq_ok.1 protects
    exact crypto.encrypt_length protects

/-- What a sealed extent consists of. -/
structure SealedExtent (L : Limits) (providers : ProviderSet) (opened : OpenedDatabase)
    (payload : PreparedExtentPayload) (context : ExtentContext) (generation blockIndex : Nat)
    (nonce : Bytes) (reference : ExtentReference) (bytes body tag : Bytes) : Prop where
  owned : context.owner = [] ∨ context.owner.length = blobIdBytes
  protects : protectStored providers opened context.keyDomain
    (sealedPreamble L opened payload context generation blockIndex nonce) payload.stored =
      .ok (body, tag)
  reference_eq : reference =
    { blockIndex
      blockCount := L.blocksFor (encodedExtentLength payload.stored.length)
      encodedLength := encodedExtentLength payload.stored.length
      creationGeneration := generation }
  bytes_eq : bytes =
    (sealedPreamble L opened payload context generation blockIndex nonce).encode ++ body ++ tag ++
      List.replicate (reference.blockCount * L.allocationQuantumBytes - reference.encodedLength) 0

theorem sealAuthenticatedExtent_eq_ok :
    sealAuthenticatedExtent L providers opened payload context generation blockIndex nonce =
        .ok (reference, bytes) ↔
      ∃ body tag, SealedExtent L providers opened payload context generation blockIndex nonce
        reference bytes body tag := by
  unfold sealAuthenticatedExtent
  constructor
  · intro seals
    rw [require_bind_eq_ok] at seals
    obtain ⟨owned, seals⟩ := seals
    obtain ⟨⟨body, tag⟩, protects, seals⟩ := bind_eq_ok.1 seals
    cases seals
    exact ⟨body, tag, owned, protects, rfl, rfl⟩
  · rintro ⟨body, tag, owned, protects, rfl, rfl⟩
    rw [require_of owned, ok_bind, protects]
    rfl

namespace SealedExtent

variable {body tag : Bytes}
  (extent : SealedExtent L providers opened payload context generation blockIndex nonce reference
    bytes body tag) (nonceSized : nonce.length = aeadNonceBytes)

include extent nonceSized

theorem preamble_length :
    (sealedPreamble L opened payload context generation blockIndex nonce).encode.length =
      extentLayoutBytes := by
  apply ExtentPreamble.encode_length
  · exact ownerField_length extent.owned
  · simp only [sealedPreamble]
    split
    · simp
    · exact nonceSized

/-- The extent fills its blocks. -/
theorem bytes_length : bytes.length = reference.blockCount * L.allocationQuantumBytes := by
  obtain ⟨bodySized, tagSized⟩ := protectStored_length extent.protects
  have fits := L.le_blocksFor_mul (encodedExtentLength payload.stored.length)
  rw [extent.bytes_eq, List.length_append, List.length_append, List.length_append,
    extent.preamble_length nonceSized, bodySized, tagSized, List.length_replicate,
    extent.reference_eq]
  simp only [encodedExtentLength] at fits ⊢
  omega

/-- Where the parts of the extent stand. -/
theorem parts :
    slice bytes 0 extentLayoutBytes =
        (sealedPreamble L opened payload context generation blockIndex nonce).encode ∧
      slice bytes extentLayoutBytes payload.stored.length = body ∧
      slice bytes (extentLayoutBytes + payload.stored.length) authenticationTagBytes = tag ∧
      bytes.drop reference.encodedLength = List.replicate
        (reference.blockCount * L.allocationQuantumBytes - reference.encodedLength) 0 := by
  obtain ⟨bodySized, tagSized⟩ := protectStored_length extent.protects
  have front := extent.preamble_length nonceSized
  have encoded : reference.encodedLength =
      extentLayoutBytes + payload.stored.length + authenticationTagBytes := by
    rw [extent.reference_eq, encodedExtentLength]
  have whole := fields_flatten
    [(sealedPreamble L opened payload context generation blockIndex nonce).encode, body, tag,
      List.replicate (reference.blockCount * L.allocationQuantumBytes - reference.encodedLength) 0]
  have isBytes :
      [(sealedPreamble L opened payload context generation blockIndex nonce).encode, body, tag,
        List.replicate (reference.blockCount * L.allocationQuantumBytes -
          reference.encodedLength) 0].flatten = bytes := by
    simp only [extent.bytes_eq, List.flatten_cons, List.flatten_nil, List.append_nil,
      List.append_assoc]
  simp only [isBytes, List.map_cons, List.map_nil, front, bodySized, tagSized, Misc.fields,
    List.cons.injEq, Nat.zero_add] at whole
  refine ⟨whole.1, whole.2.1, whole.2.2.1, ?_⟩
  rw [extent.bytes_eq, encoded]
  apply List.drop_left'
  rw [List.length_append, List.length_append, front, bodySized, tagSized]

end SealedExtent

end Sealing

end Miare
