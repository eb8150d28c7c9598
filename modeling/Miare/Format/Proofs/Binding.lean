import Miare.Format.Proofs.Framing

/-!
# Unencrypted extents

Without encryption an extent that is accepted and was stored as it is has one representation: the
one that sealing its payload in the same context gives.  The checksum covers the identity of the
database, so bytes of one context are not accepted in another.
-/

namespace Miare

open Misc

section Canonical

variable {L : Limits} {providers : ProviderSet} {opened : OpenedDatabase}
  {validation : OpenedFormat} {file : Bytes} {reference : ExtentReference}
  {context : ExtentContext} {expected : Option Nat} {eligible : Bool} {input stored payload : Bytes}

/-- An accepted extent has the whole span of its reference. -/
theorem FileExtent.input_length
    (extent : FileExtent L providers opened validation file reference context expected eligible
      input stored payload) :
    input.length = reference.blockCount * L.allocationQuantumBytes := by
  obtain ⟨-, inside, rfl⟩ := readExactAt_eq_ok.1 extent.read
  exact slice_length inside

/-- Owner and nonce of an accepted unencrypted extent. -/
theorem canonicalExtent.owner_eq (canonical : canonicalExtent opened reference context input)
    (long : extentLayoutBytes ≤ input.length) :
    (context.owner = [] ∨ context.owner.length = blobIdBytes) ∧
      ownerField context.owner = (readExtentPreamble input).owner := by
  obtain ⟨-, -, -, -, -, -, -, -, -, -, owned, -⟩ := canonical
  unfold ownerField
  split at owned
  · next absent =>
    refine ⟨.inl absent, ?_⟩
    rw [if_pos absent, eq_replicate_of_allZero owned]
    congr 1
    exact (slice_length (Nat.le_trans (by decide) long)).symm
  · next present =>
    exact ⟨.inr owned.1, by rw [if_neg present]; exact owned.2⟩

theorem canonicalExtent.nonce_eq (canonical : canonicalExtent opened reference context input)
    (long : extentLayoutBytes ≤ input.length) (suite : opened.format.encryptionSuite = .none) :
    (readExtentPreamble input).nonce = List.replicate aeadNonceBytes 0 := by
  obtain ⟨-, -, -, -, -, -, -, -, -, -, -, zeros, -⟩ := canonical
  rw [eq_replicate_of_allZero (zeros suite)]
  congr 1
  exact slice_length (Nat.le_trans (by decide) long)

/-- The stored bytes of an unencrypted extent, and their checksum. -/
theorem openStored_unencrypted {keyDomain storedLength : Nat}
    (suite : opened.format.encryptionSuite = .none)
    (authentic : openStored providers opened keyDomain input storedLength = .ok stored) :
    stored = slice input extentLayoutBytes storedLength ∧
      extentChecksum providers (extentAssociatedData opened (slice input 0 extentLayoutBytes))
        stored = slice input (extentLayoutBytes + storedLength) authenticationTagBytes := by
  simp only [openStored, suite, require_bind_eq_ok] at authentic
  obtain ⟨checked, authentic⟩ := authentic
  cases authentic
  exact ⟨rfl, checked⟩

/-- An accepted unencrypted extent that is stored as it is equals its payload sealed anew. -/
theorem FileExtent.eq_sealed
    (extent : FileExtent L providers opened validation file reference context expected eligible
      input stored payload) (suite : opened.format.encryptionSuite = .none)
    (plain : (readExtentPreamble input).flags = 0) (nonce : Bytes) :
    sealAuthenticatedExtent L providers opened (plainPayload payload) context
      reference.creationGeneration reference.blockIndex nonce = .ok (reference, input) := by
  have sized := extent.input_length
  have framed := extent.placed.framed
  have within := extent.placed.length
  have long : extentLayoutBytes ≤ input.length := by omega
  obtain ⟨owned, owner⟩ := extent.canonical.owner_eq long
  have isNonce := extent.canonical.nonce_eq long suite
  have fixed := extent.canonical.fixed
  obtain ⟨-, -, kind, domain, -, index, count, encoded, generation, sequence, -, -, -, padding⟩ :=
    extent.canonical
  obtain ⟨-, -, codec, profile, storedLength, -, -, sameLength, -⟩ := extent.representation
  obtain ⟨isStored, checked⟩ := openStored_unencrypted suite extent.authentic
  have isPayload : payload = stored := by
    rcases extent.decoded with ⟨-, same⟩ | ⟨compressed, -⟩
    · exact same
    · rw [plain] at compressed
      cases compressed
  subst isPayload
  have payloadLength : payload.length = (readExtentPreamble input).storedLength := by
    rw [isStored]
    apply slice_length
    omega
  have encodedLength : reference.encodedLength = encodedExtentLength payload.length := by
    unfold encodedExtentLength
    omega
  have blocks : reference.blockCount = L.blocksFor (encodedExtentLength payload.length) := by
    rw [← encodedLength, ← L.minimalBlocks_eq]
    exact extent.span.2.2
  have preamble : sealedPreamble L opened (plainPayload payload) context
      reference.creationGeneration reference.blockIndex nonce = readExtentPreamble input := by
    rw [if_pos suite] at domain
    have decodedLength := sameLength plain
    ext1 <;> simp only [sealedPreamble, plainPayload, if_pos suite, plain, domain, codec, profile,
      kind, index, count, encoded, generation, sequence, owner, isNonce, blocks, encodedLength,
      ← decodedLength, payloadLength]
  refine sealAuthenticatedExtent_eq_ok.2 ⟨payload,
    slice input (extentLayoutBytes + payload.length) authenticationTagBytes, owned, ?_, ?_, ?_⟩
  · rw [preamble, protectStored, suite, encode_readExtentPreamble long fixed]
    simp only [plainPayload, checked, payloadLength]
  · cases reference
    simp only [plainPayload] at blocks encodedLength ⊢
    rw [blocks, encodedLength]
  · have tail : input.drop reference.encodedLength = List.replicate
        (reference.blockCount * L.allocationQuantumBytes - reference.encodedLength) 0 := by
      rw [eq_replicate_of_allZero padding, List.length_drop, sized]
    have cut : encodedExtentLength payload.length =
        extentLayoutBytes + payload.length + authenticationTagBytes := rfl
    rw [preamble, encode_readExtentPreamble long fixed, ← tail, encodedLength, cut]
    have body : slice input extentLayoutBytes payload.length = payload := by
      rw [payloadLength]
      exact isStored.symm
    have front : slice input 0 extentLayoutBytes ++ payload ++
        slice input (extentLayoutBytes + payload.length) authenticationTagBytes =
          input.take (extentLayoutBytes + payload.length + authenticationTagBytes) := by
      have whole := slice_split input 0 (extentLayoutBytes + payload.length) authenticationTagBytes
      rw [slice_split input 0 extentLayoutBytes payload.length, Nat.zero_add, Nat.zero_add,
        body] at whole
      exact whole.symm
    rw [front, List.take_append_drop]

end Canonical

/-! ## Other contexts -/

/-- The preamble depends on the first 160 bytes. -/
theorem readExtentPreamble_congr {input other : Bytes}
    (same : slice input 0 extentLayoutBytes = slice other 0 extentLayoutBytes) :
    readExtentPreamble input = readExtentPreamble other := by
  have slices {offset length : Nat} (inside : offset + length ≤ 160) :
      slice input offset length = slice other offset length := by
    have part (bytes : Bytes) : slice (slice bytes 0 extentLayoutBytes) offset length =
        slice bytes (0 + offset) length := slice_slice inside
    rw [← Nat.zero_add offset, ← part, same, part]
  have numbers {offset width : Nat} (inside : offset + width ≤ 160) :
      readLittleEndian width input offset = readLittleEndian width other offset :=
    congrArg ofLittleEndian (slices inside)
  simp [readExtentPreamble, numbers, slices, blobIdBytes, aeadNonceBytes]

theorem databaseIdentity_length (opened : OpenedDatabase) :
    (databaseIdentity opened.bootstrap).length = databaseIdentityBytes := by
  apply slice_length
  rw [opened.bootstrap_length]
  decide

/-- The checksum's input names the database. -/
theorem databaseIdentity_of_checksum {opened other : OpenedDatabase} {preamble stored : Bytes}
    (same : extentCheckDomain ++ extentAssociatedData opened preamble ++ stored =
      extentCheckDomain ++ extentAssociatedData other preamble ++ stored) :
    databaseIdentity opened.bootstrap = databaseIdentity other.bootstrap := by
  have data := List.append_cancel_left (List.append_cancel_right same)
  simp only [extentAssociatedData, List.append_assoc] at data
  refine (List.append_inj (List.append_cancel_left data) ?_).1
  rw [databaseIdentity_length, databaseIdentity_length]

section Binding

variable {L : Limits} {providers : ProviderSet} {opened other : OpenedDatabase}
  {validation : OpenedFormat} {file : Bytes} {context elsewhere : ExtentContext}
  {payload : PreparedExtentPayload} {generation blockIndex : Nat} {nonce : Bytes}
  {reference found : ExtentReference} {bytes body tag : Bytes} {expected : Option Nat}
  {eligible : Bool} {input stored decoded : Bytes}

section Extent

variable
  (extent : SealedExtent L providers opened payload context generation blockIndex nonce reference
    bytes body tag)
  (nonceSized : nonce.length = aeadNonceBytes)
  (fits : (sealedPreamble L opened payload context generation blockIndex nonce).Fits)
  (stands : slice file (found.blockIndex * L.allocationQuantumBytes) bytes.length = bytes)
  (accepted : FileExtent L providers other validation file found elsewhere expected eligible input
    stored decoded)

include extent nonceSized fits stands accepted

/-- A sealed extent that is accepted where it stands is read as a whole. -/
theorem SealedExtent.input_eq :
    input = bytes := by
  have quantum := L.quantum_lower
  have bytesSized := extent.bytes_length nonceSized
  have framed := accepted.placed.framed
  have within := accepted.placed.length
  obtain ⟨-, inside, isInput⟩ := readExactAt_eq_ok.1 accepted.read
  have positive : 0 < reference.blockCount := by
    rw [extent.reference_eq]
    exact L.blocksFor_pos (encodedExtentLength_pos _)
  have long : extentLayoutBytes ≤ reference.blockCount * L.allocationQuantumBytes := by
    have := Nat.le_mul_of_pos_left L.allocationQuantumBytes positive
    unfold extentLayoutBytes
    omega
  -- the preambles agree, so the two spans do
  have preambles : readExtentPreamble input = readExtentPreamble bytes := by
    apply readExtentPreamble_congr
    rw [isInput, ← stands, slice_slice (by omega), slice_slice (by omega)]
  obtain ⟨reads, -⟩ := extent.canonical nonceSized fits
  obtain ⟨-, -, -, -, -, -, count, -⟩ := accepted.canonical
  have blocks : found.blockCount = reference.blockCount := by
    rw [← count, preambles, reads, extent.reference_eq]
    rfl
  rw [isInput, blocks, ← bytesSized, stands]

/-- Bytes sealed without encryption are accepted in their own context only. -/
theorem SealedExtent.context_eq :
    elsewhere.unitKind = context.unitKind ∧
      ownerField elsewhere.owner = ownerField context.owner ∧
      elsewhere.sequence = context.sequence ∧ found.blockIndex = blockIndex ∧
      found.creationGeneration = generation := by
  have isBytes := extent.input_eq nonceSized fits stands accepted
  subst isBytes
  obtain ⟨reads, -⟩ := extent.canonical nonceSized fits
  have framed := accepted.placed.framed
  have within := accepted.placed.length
  have sized := accepted.input_length
  obtain ⟨-, owner⟩ := accepted.canonical.owner_eq (by omega)
  obtain ⟨-, -, kind, -, -, index, -, -, created, sequence, -⟩ := accepted.canonical
  rw [reads] at kind owner index created sequence
  exact ⟨kind.symm, owner, sequence.symm, index.symm, created.symm⟩

/-- The database as well, unless the checksum collides. -/
theorem SealedExtent.identity_eq (suite : opened.format.encryptionSuite = .none)
    (suiteOther : other.format.encryptionSuite = .none) (inputs : Set Bytes)
    (noCollision : Set.InjOn (providers.blake2b authenticationTagBytes) inputs)
    (checksummed : ∀ database ∈ [opened, other], extentCheckDomain ++
      extentAssociatedData database (slice bytes 0 extentLayoutBytes) ++ payload.stored ∈ inputs) :
    databaseIdentity other.bootstrap = databaseIdentity opened.bootstrap := by
  have isBytes := extent.input_eq nonceSized fits stands accepted
  subst isBytes
  obtain ⟨reads, -⟩ := extent.canonical nonceSized fits
  obtain ⟨front, isBody, isTag, -⟩ := extent.parts nonceSized
  have protects := extent.protects
  simp only [protectStored, suite, Except.ok.injEq, Prod.mk.injEq] at protects
  obtain ⟨isStored, isChecksum⟩ := protects
  obtain ⟨opens, checked⟩ := openStored_unencrypted suiteOther accepted.authentic
  have storedLength : (readExtentPreamble input).storedLength = payload.stored.length := by
    rw [reads]
    rfl
  rw [storedLength, isBody, ← isStored] at opens
  rw [storedLength, isTag, ← isChecksum, opens, ← front] at checked
  apply databaseIdentity_of_checksum
  apply noCollision
  · exact checksummed other (by simp)
  · exact checksummed opened (by simp)
  · exact checked

end Extent

end Binding

/-- Unencrypted extents are canonical and bound to their context.  An accepted extent that is stored
as it is has, byte for byte, the blocks that sealing its payload in the same context gives.  Bytes
that were sealed for one kind, owner, sequence, position, generation and database are accepted in no
other, as long as the checksum does not collide on the two inputs. -/
theorem unencryptedExtent_canonical (L : Limits) (providers : ProviderSet) :
    (∀ (opened : OpenedDatabase) (validation : OpenedFormat) (file nonce payload : Bytes)
      (reference : ExtentReference) (context : ExtentContext) (expected : Option Nat)
      (eligible : Bool), opened.format.encryptionSuite = .none →
      opened.readAuthenticatedExtent L providers validation file reference context expected
        eligible = .ok payload →
      let blocks := slice file (reference.blockIndex * L.allocationQuantumBytes)
        (reference.blockCount * L.allocationQuantumBytes)
      (readExtentPreamble blocks).flags = 0 →
      sealAuthenticatedExtent L providers opened (plainPayload payload) context
        reference.creationGeneration reference.blockIndex nonce = .ok (reference, blocks)) ∧
    (∀ (opened other : OpenedDatabase) (validation : OpenedFormat)
      (file nonce bytes decoded : Bytes) (reference found : ExtentReference)
      (context elsewhere : ExtentContext) (payload : PreparedExtentPayload)
      (generation blockIndex : Nat) (expected : Option Nat) (eligible : Bool) (inputs : Set Bytes),
      opened.format.encryptionSuite = .none → other.format.encryptionSuite = .none →
      nonce.length = aeadNonceBytes →
      (sealedPreamble L opened payload context generation blockIndex nonce).Fits →
      sealAuthenticatedExtent L providers opened payload context generation blockIndex nonce =
        .ok (reference, bytes) →
      slice file (found.blockIndex * L.allocationQuantumBytes) bytes.length = bytes →
      Set.InjOn (providers.blake2b authenticationTagBytes) inputs →
      (∀ database ∈ [opened, other], extentCheckDomain ++
        extentAssociatedData database (slice bytes 0 extentLayoutBytes) ++
          payload.stored ∈ inputs) →
      other.readAuthenticatedExtent L providers validation file found elsewhere expected eligible =
        .ok decoded →
      elsewhere.unitKind = context.unitKind ∧
        ownerField elsewhere.owner = ownerField context.owner ∧
        elsewhere.sequence = context.sequence ∧ found.blockIndex = blockIndex ∧
        found.creationGeneration = generation ∧
        databaseIdentity other.bootstrap = databaseIdentity opened.bootstrap) := by
  constructor
  · intro opened validation file nonce payload reference context expected eligible suite accepts
      blocks plain
    obtain ⟨input, stored, extent⟩ := OpenedDatabase.readAuthenticatedExtent_eq_ok.1 accepts
    obtain ⟨-, -, rfl⟩ := readExactAt_eq_ok.1 extent.read
    exact extent.eq_sealed suite plain nonce
  · intro opened other validation file nonce bytes decoded reference found context elsewhere payload
      generation blockIndex expected eligible inputs suite suiteOther nonceSized fits seals stands
      noCollision checksummed accepts
    obtain ⟨body, tag, extent⟩ := sealAuthenticatedExtent_eq_ok.1 seals
    obtain ⟨input, stored, accepted⟩ := OpenedDatabase.readAuthenticatedExtent_eq_ok.1 accepts
    obtain ⟨kind, owner, sequence, index, created⟩ :=
      extent.context_eq nonceSized fits stands accepted
    exact ⟨kind, owner, sequence, index, created, extent.identity_eq nonceSized fits stands accepted
      suite suiteOther inputs noCollision checksummed⟩

/-- The overflow extent of three bytes: it is accepted, equals its payload sealed anew, and its
context is the one it was sealed for. -/
theorem unencryptedExtent_canonical_overflow :
    ∃ reference bytes,
      sealAuthenticatedExtent .default plainProviders plainDatabase (plainPayload [1, 2, 3])
        { unitKind := 11 } 2 16 (List.replicate aeadNonceBytes 0) = .ok (reference, bytes) ∧
      plainDatabase.readAuthenticatedExtent .default plainProviders
        plainDatabase.format.toOpenedFormat (List.replicate commonRegionBytes 0 ++ bytes) reference
        { unitKind := 11 } (some 3) true = .ok [1, 2, 3] ∧
      sealAuthenticatedExtent .default plainProviders plainDatabase (plainPayload [1, 2, 3])
        { unitKind := 11 } reference.creationGeneration reference.blockIndex [] =
          .ok (reference, bytes) ∧
      reference.blockIndex = 16 := by
  obtain ⟨bytes, _, extent, small, stands, reading⟩ := plainDatabase_overflow
  have seals := sealAuthenticatedExtent_eq_ok.2 ⟨_, _, extent⟩
  have contextFits : ({ unitKind := 11 } : ExtentContext).Fits :=
    ⟨by decide, by decide, by decide⟩
  have placed : (⟨16, 1, 179, 2⟩ : ExtentReference).Placed .default
      plainDatabase.format.toOpenedFormat := by
    constructor <;> decide
  have words : plainDatabase.format.generation ≤ uint64Max ∧
      plainDatabase.format.highWaterBytes ≤ uint64Max := by decide
  have reads := reading (some 3) (by rintro length ⟨⟩; rfl)
  have fits := extent.fits List.length_replicate contextFits placed words (by decide) (by decide)
    (by decide)
  obtain ⟨canonical, bound⟩ := unencryptedExtent_canonical .default plainProviders
  have isBlocks : slice (List.replicate commonRegionBytes 0 ++ bytes)
      (16 * Limits.default.allocationQuantumBytes) (1 * Limits.default.allocationQuantumBytes) =
        bytes := by
    rw [extent.bytes_length List.length_replicate] at stands
    exact stands
  have again := canonical plainDatabase _ _ [] _ _ _ _ _ rfl reads
  dsimp only at again
  rw [isBlocks, (extent.canonical List.length_replicate fits).1] at again
  -- the two inputs are one, so no collision is possible
  have same := bound plainDatabase plainDatabase _ (List.replicate commonRegionBytes 0 ++ bytes) _
    bytes _ _ ⟨16, 1, 179, 2⟩ _ _ _ 2 16 _ _
    {extentCheckDomain ++ extentAssociatedData plainDatabase (slice bytes 0 extentLayoutBytes) ++
      (plainPayload [1, 2, 3]).stored} rfl rfl List.length_replicate fits seals stands
    (Set.injOn_singleton _ _) (by simp only [List.mem_cons, List.not_mem_nil, or_false, or_self,
      forall_eq, Set.mem_singleton_iff]) reads
  exact ⟨_, bytes, seals, reads, again rfl, same.2.2.2.1⟩

end Miare
