import Miare.Format.Proofs.Selection
import Miare.Page.Proofs.Canonical

/-!
# New databases

The common region that creation writes is accepted: both slots hold generation 1.
-/

namespace Miare

open Misc

section Bootstrap

variable {identity : Bytes} (sized : identity.length = databaseIdentityBytes)

include sized in
theorem unencryptedBootstrap_reads :
    fields (makeUnencryptedBootstrap identity) 0
      [8, 2, 2, 4, 4, 4, 4, 4, 4, 4, 16, 16, 8, 4, 4, 8, 4000] =
      unencryptedBootstrapFields identity := by
  have whole := fields_flatten (unencryptedBootstrapFields identity)
  have widths : (unencryptedBootstrapFields identity).map List.length =
      [8, 2, 2, 4, 4, 4, 4, 4, 4, 4, 16, 16, 8, 4, 4, 8, 4000] := by
    simp [unencryptedBootstrapFields, bootstrapMagic, sized, databaseIdentityBytes,
      -List.reduceReplicate]
  rwa [widths] at whole

include sized in
theorem makeUnencryptedBootstrap_length :
    (makeUnencryptedBootstrap identity).length = bootstrapBytes := by
  simp [makeUnencryptedBootstrap, unencryptedBootstrapFields, bootstrapMagic, sized,
    databaseIdentityBytes, bootstrapBytes, -List.reduceReplicate]

include sized in
/-- A new bootstrap passes both checks, has suite 0 and keeps its identity. -/
theorem makeUnencryptedBootstrap_valid :
    validateVisibleBootstrapDispatch (makeUnencryptedBootstrap identity) = .ok () ∧
      validateCanonicalBootstrap (makeUnencryptedBootstrap identity) = .ok () ∧
      visibleEncryptionSuite (makeUnencryptedBootstrap identity) = .none ∧
      databaseIdentity (makeUnencryptedBootstrap identity) = identity := by
  have reads := unencryptedBootstrap_reads sized
  simp only [fields, unencryptedBootstrapFields, List.cons.injEq, Nat.reduceAdd, Nat.zero_add,
    and_true] at reads
  obtain ⟨magic, version, pad, size, format, flags, kdf, profile, suite, reserved, identifies, salt,
    common, slotBytes, slots, start, rest⟩ := reads
  have behind : (makeUnencryptedBootstrap identity).drop 96 = List.replicate 4000 0 := by
    rw [← rest, slice, List.take_of_length_le]
    rw [List.length_drop, makeUnencryptedBootstrap_length sized]
    decide
  have none_ : visibleEncryptionSuite (makeUnencryptedBootstrap identity) = .none := by
    simp [visibleEncryptionSuite, readLittleEndian, suite, ofLittleEndian_four]
  refine ⟨?_, ?_, none_, identifies⟩
  · simp [validateVisibleBootstrapDispatch, readLittleEndian, magic, version, size, format, flags,
      suite, kdf, profile, ofLittleEndian_four, ofLittleEndian_two, require, bootstrapBytes]
  · apply require_of
    simp [readLittleEndian, pad, reserved, common, slotBytes, slots, start, behind, salt,
      ofLittleEndian_four, ofLittleEndian_two, ofLittleEndian_eight, commonRegionBytes,
      publicationSlotBytes, allZero_replicate, -List.reduceReplicate]

end Bootstrap

/-! ## Slots -/

section Slot

variable {index : Nat} {nonce plaintext tag : Bytes}

theorem encodeSlotEnvelope_length (index : Nat) (nonceSized : nonce.length = aeadNonceBytes) :
    (encodeSlotEnvelope index nonce).length = publicationEnvelopeBytes := by
  simp [encodeSlotEnvelope, slotEnvelopeFields, slotMagic, nonceSized, aeadNonceBytes,
    publicationEnvelopeBytes]

theorem slotEnvelope_reads (index : Nat) (nonceSized : nonce.length = aeadNonceBytes) :
    fields (encodeSlotEnvelope index nonce) 0 [8, 2, 2, 4, 4, 4, 24, 16] =
      slotEnvelopeFields index nonce := by
  have whole := fields_flatten (slotEnvelopeFields index nonce)
  have widths : (slotEnvelopeFields index nonce).map List.length = [8, 2, 2, 4, 4, 4, 24, 16] := by
    simp [slotEnvelopeFields, slotMagic, nonceSized, aeadNonceBytes]
  rwa [widths] at whole

/-- A slot with an encoded envelope has a canonical one, with its nonce. -/
theorem canonicalSlotEnvelope_encode (index_lt : index < 2 ^ 16)
    (nonceSized : nonce.length = aeadNonceBytes) (rest : Bytes) :
    canonicalSlotEnvelope (encodeSlotEnvelope index nonce ++ rest) index = true ∧
      slice (encodeSlotEnvelope index nonce ++ rest) 24 aeadNonceBytes = nonce := by
  have length_eq := encodeSlotEnvelope_length index nonceSized
  have left {offset length : Nat} (inside : offset + length ≤ 64) :
      slice (encodeSlotEnvelope index nonce ++ rest) offset length =
        slice (encodeSlotEnvelope index nonce) offset length :=
    slice_append_left (by rw [length_eq]; exact inside)
  have reads := slotEnvelope_reads index nonceSized
  simp only [fields, slotEnvelopeFields, List.cons.injEq, Nat.reduceAdd, Nat.zero_add,
    and_true] at reads
  obtain ⟨magic, version, position, size, plain, reserved, isNonce, zeros⟩ := reads
  constructor
  · simp [canonicalSlotEnvelope, readLittleEndian, left, magic, version, position, size, plain,
      reserved, zeros, ofLittleEndian_two, ofLittleEndian_two index_lt, ofLittleEndian_four,
      publicationEnvelopeBytes, publicationPlaintextBytes, allZero_replicate,
      -List.reduceReplicate]
  · rw [left (by decide)]
    exact isNonce

/-- The three parts of an encoded slot. -/
theorem encodedSlot_parts (index : Nat) (nonceSized : nonce.length = aeadNonceBytes)
    (plaintextSized : plaintext.length = publicationPlaintextBytes)
    (tagSized : tag.length = authenticationTagBytes) :
    slice (encodeSlotEnvelope index nonce ++ plaintext ++ tag) 0 publicationEnvelopeBytes =
        encodeSlotEnvelope index nonce ∧
      slice (encodeSlotEnvelope index nonce ++ plaintext ++ tag) publicationEnvelopeBytes
        publicationPlaintextBytes = plaintext ∧
      slice (encodeSlotEnvelope index nonce ++ plaintext ++ tag) 4080 authenticationTagBytes =
        tag := by
  have whole := fields_flatten [encodeSlotEnvelope index nonce, plaintext, tag]
  simpa [fields, encodeSlotEnvelope_length index nonceSized, plaintextSized, tagSized,
    publicationEnvelopeBytes, publicationPlaintextBytes] using whole

/-- An unencrypted slot passes its checksum. -/
theorem checksumSlot_encode (providers : ProviderSet) (bootstrap : Bytes) (index_lt : index < 2 ^ 16)
    (plaintextSized : plaintext.length = publicationPlaintextBytes) :
    let envelope := encodeSlotEnvelope index (List.replicate aeadNonceBytes 0)
    checksumSlot providers bootstrap
      (envelope ++ plaintext ++ publicationChecksum providers bootstrap envelope plaintext)
      index = some plaintext := by
  intro envelope
  have tagSized : (publicationChecksum providers bootstrap envelope plaintext).length =
      authenticationTagBytes := providers.blake2b_length _ _
  obtain ⟨front, middle, last⟩ := encodedSlot_parts index zeroNonce_length plaintextSized tagSized
  obtain ⟨canonical, zeros⟩ := canonicalSlotEnvelope_encode index_lt zeroNonce_length
    (plaintext ++ publicationChecksum providers bootstrap envelope plaintext)
  rw [← List.append_assoc] at canonical zeros
  rw [checksumSlot, middle, if_pos]
  exact ⟨canonical, by rw [zeros]; exact allZero_replicate _, by rw [front, last]⟩

/-- A slot of zeros has no envelope. -/
theorem checksumSlot_zeros (providers : ProviderSet) (bootstrap : Bytes) (index : Nat) :
    checksumSlot providers bootstrap (List.replicate publicationSlotBytes 0) index = none := by
  have noMagic : canonicalSlotEnvelope (List.replicate publicationSlotBytes 0) index = false := by
    have : slice (List.replicate publicationSlotBytes (0 : Byte)) 0 8 = List.replicate 8 0 := by
      rw [slice, List.drop_zero, List.take_replicate, publicationSlotBytes]
      rfl
    simp [canonicalSlotEnvelope, this, slotMagic]
  simp [checksumSlot, noMagic]

end Slot

/-! ## The first publication -/

section Publication

variable {L : Limits} {identity digest : Bytes} {index compressionId suiteId : Nat}

theorem encodeCapacityProfile_length (L : Limits) :
    (encodeCapacityProfile L).length = capacityProfileBytes := by
  simp [encodeCapacityProfile, capacityProfileBytes]

section Sized

variable (L index compressionId suiteId)
  (identitySized : identity.length = databaseIdentityBytes) (digestSized : digest.length = 32)

include identitySized digestSized

theorem initialPublicationFields_widths :
    (initialPublicationFields L index identity compressionId suiteId digest).map List.length =
      [8, 2, 2, 4, 8, 8, 16, 4, 4, 4, 4, 8, 8, 4, 4, 4, 4, 4, 4, 32, 104, 96, 8, 8, 3664] := by
  simp [initialPublicationFields, publicationMagic, identitySized, digestSized,
    databaseIdentityBytes, encodeCapacityProfile_length, capacityProfileBytes,
    -List.reduceReplicate]

theorem makeInitialPublicationPlaintext_length :
    (makeInitialPublicationPlaintext L index identity compressionId suiteId digest).length =
      publicationPlaintextBytes := by
  rw [makeInitialPublicationPlaintext, List.length_flatten,
    initialPublicationFields_widths L index compressionId suiteId identitySized digestSized]
  rfl

theorem initialPublication_reads :
    fields (makeInitialPublicationPlaintext L index identity compressionId suiteId digest) 0
      [8, 2, 2, 4, 8, 8, 16, 4, 4, 4, 4, 8, 8, 4, 4, 4, 4, 4, 4, 32, 104, 96, 8, 8, 3664] =
      initialPublicationFields L index identity compressionId suiteId digest := by
  have whole := fields_flatten
    (initialPublicationFields L index identity compressionId suiteId digest)
  rwa [initialPublicationFields_widths L index compressionId suiteId identitySized digestSized]
    at whole

end Sized

theorem commonBlocks_lt (L : Limits) : L.commonBlocks < 2 ^ 64 := by
  have : L.commonBlocks ≤ commonRegionBytes := Nat.div_le_self _ _
  unfold commonRegionBytes at this
  omega

/-- The digest that a new database without encryption records. -/
def unencryptedProfileDigest (L : Limits) (providers : ProviderSet) : Bytes :=
  providers.blake2b 32
    (limitsDomain ++ toLittleEndian 4 1 ++ toLittleEndian 4 capacityProfileBytes ++
      encodeCapacityProfile L)

/-- The format that a new database without encryption has. -/
def initialFormat (compressionId : Nat) : PublicationFormat where
  generation := 1
  highWaterBytes := commonRegionBytes
  compression := if compressionId = 0 then .none else .zStd
  encryptionSuite := .none
  optionalFeatures := 0
  orderedRoot := List.replicate 32 0
  blobRoot := List.replicate 32 0
  allocatorRoot := List.replicate 32 0

/-- A first publication is valid in either slot. -/
theorem validatePublication_initial (providers : ProviderSet)
    (identitySized : identity.length = databaseIdentityBytes) (index_lt : index < 2)
    (known : compressionId ≤ 1) (codec : providers.requireCodec compressionId = .ok ()) :
    validatePublication L providers (makeUnencryptedBootstrap identity) index
      (makeInitialPublicationPlaintext L index identity compressionId 0
        (unencryptedProfileDigest L providers)) = .ok (initialFormat compressionId) := by
  obtain ⟨-, -, suite_none, identifies⟩ := makeUnencryptedBootstrap_valid identitySized
  have digestSized : (unencryptedProfileDigest L providers).length = 32 :=
    providers.blake2b_length _ _
  have reads := initialPublication_reads L index compressionId 0 identitySized digestSized
  generalize makeInitialPublicationPlaintext L index identity compressionId 0
    (unencryptedProfileDigest L providers) = plaintext at reads ⊢
  simp only [fields, initialPublicationFields, List.cons.injEq, Nat.reduceAdd, Nat.zero_add,
    and_true] at reads
  obtain ⟨magic, version, position, size, generation, predecessor, isIdentity, common, features,
    backend, suite, required, optional, codecId, codecProfile, codecPolicy, profileVersion,
    profileSize, pad, digest, profile, roots, highWater, flags, rest⟩ := reads
  have root (offset : Nat) (inside : offset + 32 ≤ 96) :
      slice plaintext (240 + offset) 32 = List.replicate 32 0 := by
    rw [← slice_slice inside, roots, slice, List.drop_replicate, List.take_replicate,
      Nat.min_eq_left (by omega)]
  have orderedRoot := root 0 (by decide)
  have blobRoot := root 32 (by decide)
  have allocatorRoot := root 64 (by decide)
  have small : index < 2 ^ 16 := by omega
  have smallCodec : compressionId < 2 ^ 32 := by omega
  have hashed : capacityProfileDigest providers .none (encodeCapacityProfile L) =
      .ok (unencryptedProfileDigest L providers) := rfl
  have isProfile : slice plaintext 136 capacityProfileBytes = encodeCapacityProfile L := profile
  have isDatabase : slice plaintext 32 databaseIdentityBytes = identity := isIdentity
  have blocks := commonBlocks_mul L
  simp only [validatePublication, publicationGeneration, publicationPredecessor, readLittleEndian,
    magic, version, position, size, generation, predecessor, isDatabase, common, features, backend,
    suite, required, optional, codecId, codecProfile, codecPolicy, profileVersion, profileSize, pad,
    digest, isProfile, roots, highWater, flags, rest, suite_none, identifies, hashed, codec,
    ofLittleEndian_two small, ofLittleEndian_four smallCodec,
    ofLittleEndian_eight (commonBlocks_lt L), ofLittleEndian_eight (show 1 < 2 ^ 64 by decide),
    ofLittleEndian_eight (show 0 < 2 ^ 64 by decide), ofLittleEndian_two (show 1 < 2 ^ 16 by decide),
    ofLittleEndian_four (show 1 < 2 ^ 32 by decide), ofLittleEndian_four (show 0 < 2 ^ 32 by decide),
    ofLittleEndian_four (show publicationPlaintextBytes < 2 ^ 32 by decide),
    ofLittleEndian_four (show capacityProfileBytes < 2 ^ 32 by decide), allZero_replicate, blocks,
    orderedRoot, blobRoot, allocatorRoot]
  simp [require, known, EncryptionSuite.identifier, initialFormat]

theorem publicationSemantics_append {front middle : Bytes} (rest : Bytes)
    (frontSized : front.length = 10) (middleSized : middle.length = 2) :
    publicationSemantics (front ++ middle ++ rest) = front ++ rest := by
  rw [publicationSemantics, List.drop_left' (by simp [frontSized, middleSized]),
    List.append_assoc, List.take_left' frontSized]

/-- The two first publications differ in the slot index only. -/
theorem publicationSemantics_initial (L : Limits) (identity digest : Bytes)
    (index other compressionId suiteId : Nat) :
    publicationSemantics
        (makeInitialPublicationPlaintext L index identity compressionId suiteId digest) =
      publicationSemantics
        (makeInitialPublicationPlaintext L other identity compressionId suiteId digest) := by
  have parts (index : Nat) :
      makeInitialPublicationPlaintext L index identity compressionId suiteId digest =
        (publicationMagic ++ toLittleEndian 2 1) ++ toLittleEndian 2 index ++
          ((initialPublicationFields L 0 identity compressionId suiteId digest).drop 3).flatten := by
    simp only [makeInitialPublicationPlaintext, initialPublicationFields, List.flatten_cons,
      List.drop_succ_cons, List.drop_zero, List.append_assoc]
  have frontSized : (publicationMagic ++ toLittleEndian 2 1).length = 10 := by
    simp [publicationMagic]
  rw [parts index, parts other, publicationSemantics_append _ frontSized (by simp),
    publicationSemantics_append _ frontSized (by simp)]

end Publication

/-! ## The common region -/

section Region

variable {L : Limits} {providers : ProviderSet} {keys : SessionKeys} {identity : Bytes}
  {index compressionId : Nat}

/-- A slot of an unencrypted file is checked by its checksum. -/
theorem openSlot_unencrypted {bootstrap file slot : Bytes}
    (suite : visibleEncryptionSuite bootstrap = .none) (index_lt : index < 2)
    (common : commonRegionBytes ≤ file.length)
    (isSlot : slice file (slotOffset index) publicationSlotBytes = slot) :
    openSlot providers keys bootstrap file index =
      .ok (checksumSlot providers bootstrap slot index) := by
  simp only [commonRegionBytes] at common
  have inside : slotOffset index + publicationSlotBytes ≤ file.length := by
    simp only [slotOffset, bootstrapBytes, publicationSlotBytes]
    omega
  have read : readExactAt file (slotOffset index) publicationSlotBytes = .ok slot := by
    rw [readExactAt_eq_ok]
    refine ⟨?_, inside, isSlot.symm⟩
    simp only [slotOffset, bootstrapBytes, publicationSlotBytes, maxFileOffset]
    omega
  rw [openSlot, slotOffset_succ, if_pos inside, read, ok_bind, suite]

section Identity

variable (identitySized : identity.length = databaseIdentityBytes)

include identitySized

theorem makeUnencryptedSlot_length :
    (makeUnencryptedSlot L providers identity compressionId index).length =
      publicationSlotBytes := by
  have digestSized : (unencryptedProfileDigest L providers).length = 32 :=
    providers.blake2b_length _ _
  have plaintextSized := makeInitialPublicationPlaintext_length L index compressionId 0
    identitySized digestSized
  simp only [unencryptedProfileDigest] at plaintextSized
  simp only [makeUnencryptedSlot, List.length_append, plaintextSized, publicationChecksum,
    providers.blake2b_length,
    encodeSlotEnvelope_length index zeroNonce_length]
  decide

/-- The parts of a new common region. -/
theorem commonRegion_reads (L : Limits) (providers : ProviderSet) (compressionId : Nat) :
    let region := makeInitialUnencryptedCommonRegion L providers identity compressionId
    region.length = commonRegionBytes ∧
      slice region 0 bootstrapBytes = makeUnencryptedBootstrap identity ∧
      ∀ index < 2, slice region (slotOffset index) publicationSlotBytes =
        makeUnencryptedSlot L providers identity compressionId index := by
  intro region
  have whole := fields_flatten [makeUnencryptedBootstrap identity,
    makeUnencryptedSlot L providers identity compressionId 0,
    makeUnencryptedSlot L providers identity compressionId 1,
    List.replicate (commonRegionBytes - 3 * 4096) 0]
  have isRegion : [makeUnencryptedBootstrap identity,
      makeUnencryptedSlot L providers identity compressionId 0,
      makeUnencryptedSlot L providers identity compressionId 1,
      List.replicate (commonRegionBytes - 3 * 4096) 0].flatten = region := by
    simp only [List.flatten_cons, List.flatten_nil, List.append_nil, region,
      makeInitialUnencryptedCommonRegion, List.append_assoc]
  simp only [isRegion, List.map_cons, List.map_nil, makeUnencryptedBootstrap_length identitySized,
    makeUnencryptedSlot_length identitySized, List.length_replicate, fields, List.cons.injEq,
    Nat.zero_add] at whole
  obtain ⟨front, slot0, slot1, -, -⟩ := whole
  refine ⟨?_, front, ?_⟩
  · simp only [region, makeInitialUnencryptedCommonRegion, List.length_append,
      makeUnencryptedBootstrap_length identitySized, makeUnencryptedSlot_length identitySized,
      List.length_replicate]
    decide
  · intro index index_lt
    interval_cases index
    · exact slot0
    · exact slot1

/-- Both slots of a file that begins as a new one hold the first publication. -/
theorem openSlot_created {file : Bytes} (keys : SessionKeys) (index_lt : index < 2)
    (common : commonRegionBytes ≤ file.length)
    (isSlot : slice file (slotOffset index) publicationSlotBytes =
      makeUnencryptedSlot L providers identity compressionId index) :
    openSlot providers keys (makeUnencryptedBootstrap identity) file index =
      .ok (some (makeInitialPublicationPlaintext L index identity compressionId 0
        (unencryptedProfileDigest L providers))) := by
  obtain ⟨-, -, suite, -⟩ := makeUnencryptedBootstrap_valid identitySized
  rw [openSlot_unencrypted suite index_lt common isSlot]
  congr 1
  exact checksumSlot_encode providers (makeUnencryptedBootstrap identity) (by omega)
    (makeInitialPublicationPlaintext_length L index compressionId 0 identitySized
      (providers.blake2b_length _ _))

/-- A slot that was cleared holds nothing. -/
theorem openSlot_cleared {file : Bytes} (index_lt : index < 2)
    (common : commonRegionBytes ≤ file.length)
    (isSlot : slice file (slotOffset index) publicationSlotBytes =
      List.replicate publicationSlotBytes 0) :
    openSlot providers keys (makeUnencryptedBootstrap identity) file index = .ok none := by
  obtain ⟨-, -, suite, -⟩ := makeUnencryptedBootstrap_valid identitySized
  rw [openSlot_unencrypted suite index_lt common isSlot, checksumSlot_zeros]

/-- A new database opens: its first publication is selected. -/
theorem selectPublication_created (L : Limits) (providers : ProviderSet) (keys : SessionKeys)
    (known : compressionId ≤ 1) (codec : providers.requireCodec compressionId = .ok ()) :
    selectPublication L providers keys
        (makeInitialUnencryptedCommonRegion L providers identity compressionId) =
      .ok (some
        { format := initialFormat compressionId
          bootstrap := makeUnencryptedBootstrap identity
          publication := makeInitialPublicationPlaintext L 0 identity compressionId 0
            (unencryptedProfileDigest L providers)
          rejectedInactivePublication := false
          abandonedTailBytes := 0 }) := by
  obtain ⟨length_eq, front, slots⟩ :=
    commonRegion_reads identitySized L providers compressionId
  obtain ⟨dispatch, canonical, suite, -⟩ := makeUnencryptedBootstrap_valid identitySized
  have read : readExactAt (makeInitialUnencryptedCommonRegion L providers identity compressionId) 0
      bootstrapBytes = .ok (makeUnencryptedBootstrap identity) :=
    readExactAt_eq_ok.2 ⟨by decide, by rw [length_eq]; decide, front.symm⟩
  have openFirst := openSlot_created identitySized keys (show 0 < 2 by decide) length_eq.ge
    (slots 0 (by decide))
  have openSecond := openSlot_created identitySized keys (show 1 < 2 by decide) length_eq.ge
    (slots 1 (by decide))
  have validFirst := validatePublication_initial (L := L) providers identitySized
    (show 0 < 2 by decide) known codec
  have validSecond := validatePublication_initial (L := L) providers identitySized
    (show 1 < 2 by decide) known codec
  have same := publicationSemantics_initial L identity (unencryptedProfileDigest L providers) 0 1
    compressionId 0
  generalize makeInitialPublicationPlaintext L 0 identity compressionId 0
    (unencryptedProfileDigest L providers) = first at *
  generalize makeInitialPublicationPlaintext L 1 identity compressionId 0
    (unencryptedProfileDigest L providers) = second at *
  have choice : choosePublication (some ⟨first, initialFormat compressionId⟩)
      (some ⟨second, initialFormat compressionId⟩) =
        .ok (some (⟨first, initialFormat compressionId⟩, false)) := by
    simp only [choosePublication, if_true, require_of same]
    rfl
  rw [selectPublication_eq_some]
  refine ⟨makeUnencryptedBootstrap identity, some first, some second, _, _, _, _, ?_, choice, ?_, ?_⟩
  · exact ⟨read, dispatch, by rw [suite]; rfl, openFirst, openSecond, by simp, canonical,
      validateSlot_eq_some.2 ⟨rfl, validFirst⟩, validateSlot_eq_some.2 ⟨rfl, validSecond⟩⟩
  · simp [length_eq, initialFormat]
  · simp [length_eq, initialFormat]

end Identity

end Region

end Miare
