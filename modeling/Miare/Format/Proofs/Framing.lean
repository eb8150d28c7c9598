import Miare.Format.Blake2b
import Miare.Format.Proofs.Extent

/-!
# The framing of extents

What is sealed is read back, whatever the codec and the cipher do, as long as decryption inverts
encryption.
-/

namespace Miare

open Misc

/-- Decryption inverts encryption under the same key, nonce and associated data. -/
def CryptoProvider.Inverts (crypto : CryptoProvider) : Prop :=
  ∀ key nonce plaintext associatedData ciphertext tag,
    crypto.encryptDetached key nonce plaintext associatedData = .ok (ciphertext, tag) →
      crypto.decryptDetached key nonce ciphertext tag associatedData = .ok (some plaintext)

def ProviderSet.Inverts (providers : ProviderSet) : Prop :=
  ∀ crypto, providers.crypto = some crypto → crypto.Inverts

theorem ProviderSet.Inverts.of_required {providers : ProviderSet} {crypto : CryptoProvider}
    (inverts : providers.Inverts) (required : providers.requireCrypto = .ok crypto) :
    crypto.Inverts := by
  unfold ProviderSet.requireCrypto at required
  split at required
  · cases required
  · next found =>
    cases required
    exact inverts _ found

/-- The fields of a context fit their widths. -/
structure ExtentContext.Fits (context : ExtentContext) : Prop where
  unitKind : context.unitKind < 2 ^ 16
  keyDomain : context.keyDomain < 2 ^ 32
  sequence : context.sequence < 2 ^ 64

section Prepare

variable {L : Limits} {providers : ProviderSet} {opened : OpenedDatabase} {decoded : Bytes}
  {eligible : Bool} {prepared : PreparedExtentPayload}

/-- A payload stored as a frame. -/
structure StoredFrame (L : Limits) (providers : ProviderSet) (opened : OpenedDatabase)
    (decoded : Bytes) (eligible : Bool) (frame : Bytes) : Prop where
  eligible_eq : eligible = true
  policy : opened.format.compression = .zStd
  shorter : frame.length < decoded.length
  fewer : L.blocksFor (encodedExtentLength frame.length) <
    L.blocksFor (encodedExtentLength decoded.length)
  verified : ∃ compression, providers.requireCompression = .ok compression ∧
    compression.decompress frame decoded.length = .ok decoded

/-- A payload is stored as it is, or as a shorter frame that was seen to give it back. -/
theorem prepareExtentPayload_cases
    (prepares : prepareExtentPayload L providers opened decoded eligible = .ok prepared) :
    prepared = plainPayload decoded ∨
      ∃ frame, prepared = ⟨frame, decoded.length, 1, 1⟩ ∧
        StoredFrame L providers opened decoded eligible frame := by
  unfold prepareExtentPayload at prepares
  split at prepares
  case isFalse =>
    cases prepares
    exact .inl rfl
  case isTrue compressible =>
    obtain ⟨compression, required, prepares⟩ := bind_eq_ok.1 prepares
    obtain ⟨bound, -, prepares⟩ := bind_eq_ok.1 prepares
    rw [require_bind_eq_ok] at prepares
    obtain ⟨-, prepares⟩ := prepares
    obtain ⟨⟨compressedBytes, buffer⟩, compressed, prepares⟩ := bind_eq_ok.1 prepares
    rw [require_bind_eq_ok] at prepares
    obtain ⟨within, prepares⟩ := prepares
    have sized : (buffer.take compressedBytes).length = compressedBytes := by
      rw [List.length_take, compression.compress_length compressed, Nat.min_eq_left within]
    split at prepares
    case isFalse =>
      cases prepares
      exact .inl rfl
    case isTrue smaller =>
      obtain ⟨⟨⟩, verified, prepares⟩ := bind_eq_ok.1 prepares
      cases prepares
      refine .inr ⟨_, rfl, compressible.1, compressible.2.1, ?_, ?_, compression, required, ?_⟩
      · rw [sized]
        exact smaller.1
      · rw [sized]
        exact smaller.2
      · unfold verifyFrame at verified
        split at verified
        · cases verified
        · next decompressed =>
          rw [decompressed, ← require_eq_ok.1 verified]

/-- What is known of a prepared payload. -/
structure PreparedFor (L : Limits) (providers : ProviderSet) (opened : OpenedDatabase)
    (decoded : Bytes) (eligible : Bool) (prepared : PreparedExtentPayload) : Prop where
  decodedLength_eq : prepared.decodedLength = decoded.length
  codec_eq : prepared.codec = prepared.flags
  flags_le : prepared.flags ≤ 1
  plain : prepared.flags = 0 → prepared.stored = decoded
  frame : prepared.flags = 1 → StoredFrame L providers opened decoded eligible prepared.stored
  length_le : prepared.stored.length ≤ decoded.length

theorem prepareExtentPayload_prepared
    (prepares : prepareExtentPayload L providers opened decoded eligible = .ok prepared) :
    PreparedFor L providers opened decoded eligible prepared := by
  rcases prepareExtentPayload_cases prepares with rfl | ⟨frame, rfl, stored⟩
  · exact ⟨rfl, rfl, Nat.zero_le _, fun _ => rfl, fun compressed => absurd compressed Nat.zero_ne_one,
      Nat.le_refl _⟩
  · exact ⟨rfl, rfl, Nat.le_refl _, fun plain => absurd plain Nat.one_ne_zero, fun _ => stored,
      stored.shorter.le⟩

end Prepare

section RoundTrip

variable {L : Limits} {providers : ProviderSet} {opened : OpenedDatabase}
  {validation : OpenedFormat} {file : Bytes} {context : ExtentContext}
  {payload : PreparedExtentPayload} {generation blockIndex : Nat} {nonce decoded : Bytes}
  {reference : ExtentReference} {bytes body tag : Bytes} {expected : Option Nat} {eligible : Bool}

/-- What was protected is opened. -/
theorem openStored_protected {keyDomain : Nat} {preamble : ExtentPreamble} {stored input : Bytes}
    (inverts : providers.Inverts)
    (protects : protectStored providers opened keyDomain preamble stored = .ok (body, tag))
    (front : slice input 0 extentLayoutBytes = preamble.encode)
    (isNonce : slice input 104 aeadNonceBytes = preamble.nonce)
    (isBody : slice input extentLayoutBytes stored.length = body)
    (isTag : slice input (extentLayoutBytes + stored.length) authenticationTagBytes = tag) :
    openStored providers opened keyDomain input stored.length = .ok stored := by
  unfold protectStored at protects
  unfold openStored
  dsimp only at protects ⊢
  rw [front, isNonce, isBody, isTag]
  split at protects
  · cases protects
    rw [require_of rfl]
    rfl
  · obtain ⟨crypto, required, protects⟩ := bind_eq_ok.1 protects
    simp only [required, ok_bind, inverts.of_required required _ _ _ _ _ _ protects, pure_eq_ok]

/-- The words of a sealed preamble fit. -/
theorem SealedExtent.fits
    (extent : SealedExtent L providers opened payload context generation blockIndex nonce reference
      bytes body tag) (nonceSized : nonce.length = aeadNonceBytes) (contextFits : context.Fits)
    (placed : reference.Placed L validation)
    (words : validation.generation ≤ uint64Max ∧ validation.highWaterBytes ≤ uint64Max)
    (flags : payload.flags ≤ 1) (codec : payload.codec ≤ 1)
    (decodedLength : payload.decodedLength < 2 ^ 64) :
    (sealedPreamble L opened payload context generation blockIndex nonce).Fits := by
  have isReference := extent.reference_eq
  have count := placed.words.1.trans (Nat.div_le_self _ _)
  have index := placed.words.2.trans (Nat.div_le_self _ _)
  have created := placed.generation
  have length := placed.length.trans
    (Nat.mul_le_of_le_div _ _ _ placed.words.1)
  subst isReference
  simp only [encodedExtentLength] at count index created length
  simp only [uint64Max] at *
  refine ⟨contextFits.unitKind, ?_, ?_, ?_, ?_, ?_, ?_, ?_, ?_, decodedLength, ?_,
    contextFits.sequence, ownerField_length extent.owned, ?_⟩
  all_goals simp only [sealedPreamble, encodedExtentLength]
  · omega
  · split
    · decide
    · exact contextFits.keyDomain
  · omega
  · omega
  · omega
  · omega
  · omega
  · omega
  · omega
  · split
    · simp
    · exact nonceSized

/-- A sealed extent passes the checks of its context. -/
theorem SealedExtent.canonical
    (extent : SealedExtent L providers opened payload context generation blockIndex nonce reference
      bytes body tag) (nonceSized : nonce.length = aeadNonceBytes)
    (fits : (sealedPreamble L opened payload context generation blockIndex nonce).Fits) :
    readExtentPreamble bytes =
        sealedPreamble L opened payload context generation blockIndex nonce ∧
      canonicalExtent opened reference context bytes := by
  obtain ⟨-, -, -, padding⟩ := extent.parts nonceSized
  have isBytes := extent.bytes_eq
  rw [List.append_assoc, List.append_assoc] at isBytes
  obtain ⟨reads, fixed⟩ := readExtentPreamble_encode fits (body ++ (tag ++ List.replicate
    (reference.blockCount * L.allocationQuantumBytes - reference.encodedLength) 0))
  rw [← isBytes] at reads fixed
  refine ⟨reads, ?_⟩
  unfold canonicalExtent
  rw [reads, padding, extent.reference_eq]
  refine ⟨fixed.magic, fixed.version, rfl, rfl, fixed.layout, rfl, rfl, rfl, rfl, rfl, ?_, ?_,
    fixed.reserved, allZero_replicate _⟩
  · simp only [sealedPreamble, ownerField]
    split
    · exact allZero_replicate _
    · next present => exact ⟨extent.owned.resolve_left present, rfl⟩
  · intro suite
    simp only [sealedPreamble, if_pos suite, allZero_replicate]

theorem Limits.isLeast_blocksFor (L : Limits) (length : Nat) :
    IsLeast {blocks | length ≤ blocks * L.allocationQuantumBytes} (L.blocksFor length) := by
  constructor
  · exact L.le_blocksFor_mul length
  · intro blocks enough
    have positive := L.quantum_pos
    have enough : length ≤ blocks * L.allocationQuantumBytes := enough
    unfold Limits.blocksFor
    rw [← Nat.lt_succ_iff, Nat.div_lt_iff_lt_mul positive, Nat.succ_mul]
    omega

/-- A sealed extent that stands at its block is accepted and gives the payload back. -/
theorem SealedExtent.readable
    (extent : SealedExtent L providers opened payload context generation blockIndex nonce reference
      bytes body tag) (inverts : providers.Inverts) (nonceSized : nonce.length = aeadNonceBytes)
    (contextFits : context.Fits) (known : PreparedFor L providers opened decoded eligible payload)
    (allowed : L.framable decoded.length)
    (page : isPageKind context.unitKind → decoded.length = L.pagePayloadBytes)
    (matching : ∀ length ∈ expected, length = decoded.length)
    (words : validation.generation ≤ uint64Max ∧ validation.highWaterBytes ≤ uint64Max)
    (placed : reference.Placed L validation) (representable : file.length ≤ maxFileOffset)
    (stands : slice file (blockIndex * L.allocationQuantumBytes) bytes.length = bytes) :
    opened.readAuthenticatedExtent L providers validation file reference context expected eligible =
      .ok decoded := by
  have isReference := extent.reference_eq
  have encoded : reference.encodedLength = encodedExtentLength payload.stored.length := by
    rw [isReference]
  have count : reference.blockCount = L.blocksFor (encodedExtentLength payload.stored.length) := by
    rw [isReference]
  have quantum := L.quantum_pos
  have positive := Nat.pos_of_ne_zero placed.blocks
  have fits := extent.fits nonceSized contextFits placed words known.flags_le
    (known.codec_eq ▸ known.flags_le) (by
      have := allowed
      rw [known.decodedLength_eq]
      unfold Limits.framable uint64Max at this
      omega)
  obtain ⟨reads, canonical⟩ := extent.canonical nonceSized fits
  obtain ⟨front, isBody, isTag, -⟩ := extent.parts nonceSized
  have sized := extent.bytes_length nonceSized
  have blocks_le : reference.blockCount ≤ L.blocksFor (encodedExtentLength decoded.length) := by
    rw [count]
    apply L.blocksFor_mono
    have := known.length_le
    unfold encodedExtentLength
    omega
  refine OpenedDatabase.readAuthenticatedExtent_eq_ok.2 ⟨bytes, payload.stored, ?_⟩
  constructor
  · exact placed.not_null
  · exact placed
  · intro length member
    rw [matching length member]
    exact allowed
  · refine ⟨?_, ?_, ?_⟩
    · intro isPage
      rw [← L.blocksFor_page, ← page isPage]
      exact blocks_le
    · intro length member
      rw [matching length member]
      exact blocks_le
    · rw [L.minimalBlocks_eq, encoded, count]
  · -- the bytes stand in the file, which has them all since they are not empty
    have whole := congrArg List.length stands
    simp only [slice, List.length_take, List.length_drop, sized] at whole
    have : 0 < reference.blockCount * L.allocationQuantumBytes := Nat.mul_pos positive quantum
    rw [readExactAt_eq_ok, show reference.blockIndex = blockIndex by rw [isReference]]
    rw [sized] at stands
    exact ⟨⟨by omega, by omega⟩, by omega, stands.symm⟩
  · exact canonical
  · rw [reads]
    simp only [sealedPreamble, known.decodedLength_eq]
    exact allowed
  · rw [reads]
    refine ⟨known.flags_le, ?_, known.codec_eq, known.codec_eq, ?_, ?_, ?_, ?_, ?_⟩
    · intro ineligible
      by_contra compressed
      have one : payload.flags = 1 := by
        have := known.flags_le
        simp only [sealedPreamble] at compressed
        omega
      rw [(known.frame one).eligible_eq] at ineligible
      cases ineligible
    · rw [encoded, encodedExtentLength]
      simp only [sealedPreamble]
      omega
    · intro length member
      rw [matching length member]
      exact known.decodedLength_eq
    · intro isPage
      rw [← page isPage]
      exact known.decodedLength_eq
    · intro plain
      simp only [sealedPreamble] at plain ⊢
      rw [known.plain plain, known.decodedLength_eq]
    · intro compressed
      simp only [sealedPreamble] at compressed ⊢
      have frame := known.frame compressed
      rw [known.decodedLength_eq, count]
      exact ⟨frame.policy, frame.shorter, frame.fewer⟩
  · rw [reads]
    have isNonce : slice bytes 104 aeadNonceBytes =
        (sealedPreamble L opened payload context generation blockIndex nonce).nonce :=
      congrArg ExtentPreamble.nonce reads
    exact openStored_protected inverts extent.protects front isNonce isBody isTag
  · rw [reads]
    simp only [sealedPreamble, known.decodedLength_eq]
    by_cases compressed : payload.flags = 1
    · exact .inr ⟨compressed, (known.frame compressed).verified⟩
    · have plain : payload.flags = 0 := by
        have := known.flags_le
        omega
      exact .inl ⟨compressed, (known.plain plain).symm⟩

end RoundTrip

/-- The built-in BLAKE2b alone, without encryption and compression; an output that it refuses is
zeros. -/
def plainProviders : ProviderSet where
  crypto := none
  compression := none
  blake2b outputBytes input :=
    (((blake2b outputBytes [input]).toOption.getD []).rightpad outputBytes 0).take outputBytes
  blake2b_length outputBytes input := by
    rw [List.length_take, List.length_rightpad]
    exact Nat.min_eq_left (Nat.le_max_left _ _)

/-- A database of generation 2 with one block behind the common region. -/
def plainDatabase : OpenedDatabase where
  format :=
    { generation := 2
      highWaterBytes := 17 * 4096
      compression := .none
      encryptionSuite := .none
      optionalFeatures := 0
      orderedRoot := List.replicate 32 0
      blobRoot := List.replicate 32 0
      allocatorRoot := List.replicate 32 0 }
  bootstrap := List.replicate bootstrapBytes 0
  publication := List.replicate publicationPlaintextBytes 0
  keys := ⟨[], [], []⟩
  bootstrap_length := List.length_replicate
  publication_length := List.length_replicate

/-- An overflow extent of three bytes, sealed for the first block behind the common region, stands
there and is read. -/
theorem plainDatabase_overflow : ∃ bytes tag,
    SealedExtent .default plainProviders plainDatabase (plainPayload [1, 2, 3]) { unitKind := 11 } 2
      16 (List.replicate aeadNonceBytes 0) ⟨16, 1, 179, 2⟩ bytes [1, 2, 3] tag ∧
    (List.replicate commonRegionBytes 0 ++ bytes).length ≤ maxFileOffset ∧
    slice (List.replicate commonRegionBytes 0 ++ bytes)
      (16 * Limits.default.allocationQuantumBytes) bytes.length = bytes ∧
    ∀ expected, (∀ length ∈ expected, length = 3) →
      plainDatabase.readAuthenticatedExtent .default plainProviders
        plainDatabase.format.toOpenedFormat (List.replicate commonRegionBytes 0 ++ bytes)
        ⟨16, 1, 179, 2⟩ { unitKind := 11 } expected true = .ok [1, 2, 3] := by
  obtain ⟨bytes, tag, extent⟩ : ∃ bytes tag, SealedExtent .default plainProviders plainDatabase
      (plainPayload [1, 2, 3]) { unitKind := 11 } 2 16 (List.replicate aeadNonceBytes 0)
      ⟨16, 1, 179, 2⟩ bytes [1, 2, 3] tag :=
    ⟨_, _, .inl rfl, rfl, rfl, rfl⟩
  have sized := extent.bytes_length List.length_replicate
  have small : (List.replicate commonRegionBytes 0 ++ bytes).length ≤ maxFileOffset := by
    rw [List.length_append, List.length_replicate, sized]
    decide
  have stands : slice (List.replicate commonRegionBytes 0 ++ bytes)
      (16 * Limits.default.allocationQuantumBytes) bytes.length = bytes := by
    have behind : (List.replicate commonRegionBytes (0 : Byte)).length =
        16 * Limits.default.allocationQuantumBytes := List.length_replicate
    rw [slice_append_right behind.le, behind, Nat.sub_self, slice_all]
  refine ⟨bytes, tag, extent, small, stands, fun expected matching => ?_⟩
  exact extent.readable (fun crypto found => by cases found) List.length_replicate
    ⟨by decide, by decide, by decide⟩ (prepareExtentPayload_prepared rfl) (by decide) (by decide)
    matching (by decide) (by constructor <;> decide) small stands

/-- Framing round-trips: an extent that was prepared and sealed for a context, placed at its block,
is accepted in that context and gives the payload back, and its reference has the least number of
blocks. -/
theorem readAuthenticatedExtent_sealed (L : Limits) (providers : ProviderSet)
    (opened : OpenedDatabase) (validation : OpenedFormat) (file payload nonce bytes : Bytes)
    (context : ExtentContext) (generation blockIndex : Nat) (expected : Option Nat)
    (eligible : Bool) (prepared : PreparedExtentPayload) (reference : ExtentReference)
    (inverts : providers.Inverts) (allowed : L.framable payload.length)
    (page : isPageKind context.unitKind → payload.length = L.pagePayloadBytes)
    (contextFits : context.Fits) (nonceSized : nonce.length = aeadNonceBytes)
    (matching : ∀ length ∈ expected, length = payload.length)
    (words : validation.generation ≤ uint64Max ∧ validation.highWaterBytes ≤ uint64Max)
    (prepares : prepareExtentPayload L providers opened payload eligible = .ok prepared)
    (seals : sealAuthenticatedExtent L providers opened prepared context generation blockIndex
      nonce = .ok (reference, bytes))
    (behindCommon : L.commonBlocks ≤ blockIndex) (created : generation ≠ 0)
    (published : generation ≤ validation.generation)
    (bounded : (blockIndex + reference.blockCount) * L.allocationQuantumBytes ≤
      validation.highWaterBytes)
    (representable : file.length ≤ maxFileOffset)
    (stands : slice file (blockIndex * L.allocationQuantumBytes) bytes.length = bytes) :
    opened.readAuthenticatedExtent L providers validation file reference context expected eligible =
        .ok payload ∧
      reference.blockIndex = blockIndex ∧ reference.creationGeneration = generation ∧
      reference.encodedLength =
        extentLayoutBytes + prepared.stored.length + authenticationTagBytes ∧
      IsLeast {blocks | reference.encodedLength ≤ blocks * L.allocationQuantumBytes}
        reference.blockCount := by
  obtain ⟨body, tag, extent⟩ := sealAuthenticatedExtent_eq_ok.1 seals
  have isReference := extent.reference_eq
  have encoded : reference.encodedLength = encodedExtentLength prepared.stored.length := by
    rw [isReference]
  have count : reference.blockCount = L.blocksFor (encodedExtentLength prepared.stored.length) := by
    rw [isReference]
  have quantum := L.quantum_pos
  have least := L.isLeast_blocksFor (encodedExtentLength prepared.stored.length)
  have positive : 0 < reference.blockCount := by
    rw [count]
    exact L.blocksFor_pos (encodedExtentLength_pos _)
  have distributed : (blockIndex + reference.blockCount) * L.allocationQuantumBytes =
      blockIndex * L.allocationQuantumBytes +
        reference.blockCount * L.allocationQuantumBytes := Nat.add_mul _ _ _
  have placed : reference.Placed L validation := by
    refine ⟨?_, by omega, ?_, ?_, ?_, ?_, ?_, ?_, ?_⟩
    · rw [isReference]
      exact behindCommon
    · rw [encoded, encodedExtentLength]
      omega
    · rw [isReference]
      exact created
    · rw [isReference]
      exact published
    · rw [encoded, count]
      exact least.1
    · rw [show reference.blockIndex = blockIndex by rw [isReference]]
      exact bounded
    · rw [Nat.le_div_iff_mul_le quantum]
      omega
    · rw [show reference.blockIndex = blockIndex by rw [isReference],
        Nat.le_div_iff_mul_le quantum]
      omega
  refine ⟨?_, by rw [isReference], by rw [isReference], encoded,
    by rw [encoded, count]; exact least⟩
  exact extent.readable inverts nonceSized contextFits (prepareExtentPayload_prepared prepares)
    allowed page matching words placed representable stands

/-- An overflow extent of three bytes in the first block behind the common region. -/
theorem readAuthenticatedExtent_sealed_overflow :
    ∃ reference bytes,
      sealAuthenticatedExtent .default plainProviders plainDatabase (plainPayload [1, 2, 3])
        { unitKind := 11 } 2 16 (List.replicate aeadNonceBytes 0) = .ok (reference, bytes) ∧
      plainDatabase.readAuthenticatedExtent .default plainProviders
        plainDatabase.format.toOpenedFormat (List.replicate commonRegionBytes 0 ++ bytes) reference
        { unitKind := 11 } (some 3) true = .ok [1, 2, 3] := by
  obtain ⟨bytes, _, extent, small, stands, -⟩ := plainDatabase_overflow
  have seals := sealAuthenticatedExtent_eq_ok.2 ⟨_, _, extent⟩
  refine ⟨_, bytes, seals, (readAuthenticatedExtent_sealed .default plainProviders plainDatabase _ _
    [1, 2, 3] _ bytes _ 2 16 (some 3) true (plainPayload [1, 2, 3]) _ ?_ ?_ ?_ ?_
    List.length_replicate ?_ ?_ rfl seals ?_ ?_ ?_ ?_ small stands).1⟩
  · intro crypto found
    cases found
  · decide
  · decide
  · exact ⟨by decide, by decide, by decide⟩
  · rintro length ⟨⟩
    rfl
  all_goals decide

end Miare
