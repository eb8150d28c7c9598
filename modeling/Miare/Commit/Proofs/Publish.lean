import Miare.Commit.Publish
import Miare.Format.Proofs.Framing
import Miare.Format.Proofs.NextSlot
import Miare.Page.Proofs.Frame

/-!
# A session agrees with its file

What a commit publishes is what the next open selects, so along any sequence of commits the session
holds what its file says.
-/

namespace Miare

open Misc

/-- To open the file gives what the session holds; a session does not record that the other slot is
invalid. -/
def StoredDatabase.Reopens (L : Limits) (providers : ProviderSet) (keys : SessionKeys)
    (stored : StoredDatabase) : Prop :=
  ∃ rejected, selectPublication L providers keys stored.file =
    .ok (some { stored.opened with rejectedInactivePublication := rejected })

section Publish

variable {L : Limits} {providers : ProviderSet} {keys : SessionKeys}
  {bootstrap file plaintext publication slot nonce : Bytes} {index : Nat}
  {format : PublicationFormat} {commit : ExactCommit L} {first second : Option Bytes}
  {firstSlot secondSlot : Option ValidSlot} {chosen : ValidSlot} {rejected : Bool}

/-- The fields that `prepareExactPublication` writes. -/
def ExactCommit.fields (commit : ExactCommit L) (generation : Nat) : List (Nat × Bytes) :=
  [(10, toLittleEndian 2 (nextSlotIndex generation)), (16, toLittleEndian 8 (generation + 1)),
    (24, toLittleEndian 8 generation), (240, encodeExtentReference commit.root),
    (272, encodeExtentReference commit.blobRoot), (304, encodeExtentReference commit.allocatorRoot),
    (336, toLittleEndian 8 (commit.highWaterBytes / L.allocationQuantumBytes))]

theorem ExactCommit.fields_inside (generation : Nat)
    (sized : publication.length = publicationPlaintextBytes) :
    PatchInside publication (commit.fields generation) := by
  simp [PatchInside, fields, sized, publicationPlaintextBytes]

theorem prepareExactPublication_eq_ok {opened : SelectedPublication}
    (prepared : prepareExactPublication L providers keys opened commit.root commit.blobRoot
      commit.allocatorRoot commit.highWaterBytes nonce =
        .ok (plaintext, slot)) :
    plaintext = patch opened.publication (commit.fields opened.format.generation) ∧
      encodePublicationSlot providers keys opened.bootstrap plaintext
        (nextSlotIndex opened.format.generation) nonce = .ok slot := by
  obtain ⟨_, encoded, same⟩ := bind_eq_ok.1 prepared
  obtain ⟨rfl, rfl⟩ := Prod.mk.inj (Except.ok.inj same)
  exact ⟨rfl, encoded⟩

/-- The plaintext of the next generation is valid where the current one is. -/
theorem validatePublication_next
    (valid : validatePublication L providers bootstrap index publication = .ok format)
    (sized : publication.length = publicationPlaintextBytes)
    (room : format.generation + 1 < 2 ^ 64)
    (bounded : commit.highWaterBytes ≤ L.maxDatabaseBytes) :
    validatePublication L providers bootstrap (nextSlotIndex format.generation)
      (patch publication (commit.fields format.generation)) = .ok (commit.format format) := by
  have published := validatePublication_published valid
  have positive := published.generation_pos
  have lower := commit.behind_common
  have upper := (Nat.le_div_iff_mul_le L.quantum_pos).2 bounded
  have blocks_lt : commit.nextBlock < 2 ^ 64 := by
    have : commit.nextBlock ≤ commit.highWaterBytes := Nat.le_mul_of_pos_right _ L.quantum_pos
    have := L.fits_uint64.2.2.2.1
    simp only [uint64Max] at this
    omega
  have inside := commit.fields_inside format.generation sized
  have same at_ length (apart : at_ + length ≤ 10 ∨ 12 ≤ at_ ∧ at_ + length ≤ 16 ∨
      32 ≤ at_ ∧ at_ + length ≤ 240 ∨ 344 ≤ at_) :
      slice (patch publication (commit.fields format.generation)) at_ length =
        slice publication at_ length := by
    apply slice_patch inside
    simp [ExactCommit.fields]
    omega
  have written write (mem : write ∈ commit.fields format.generation) :=
    slice_patch_here inside (by simp [ExactCommit.fields]) mem
  generalize patch publication (commit.fields format.generation) = plaintext at same written ⊢
  have numbers width at_ (apart : at_ + width ≤ 10 ∨ 12 ≤ at_ ∧ at_ + width ≤ 16 ∨
      32 ≤ at_ ∧ at_ + width ≤ 240 ∨ 344 ≤ at_) :
      readLittleEndian width plaintext at_ = readLittleEndian width publication at_ :=
    congrArg ofLittleEndian (same at_ width apart)
  simp only [ExactCommit.fields, List.forall_mem_cons, toLittleEndian_length,
    encodeExtentReference_length, ExactCommit.highWaterBytes,
    Nat.mul_div_cancel _ L.quantum_pos] at written
  obtain ⟨position, generation, predecessor, root, blobRoot, allocatorRoot, boundary, -⟩ := written
  simp only [validatePublication, require_bind_eq_ok] at valid
  obtain ⟨⟨magic, version, -, size, -, pad, rest⟩, -, identifies, common, suite, features, backend,
    known, codecs, valid⟩ := valid
  obtain ⟨⟨⟩, codec, valid⟩ := bind_eq_ok.1 valid
  obtain ⟨profile, valid⟩ := require_bind_eq_ok.1 valid
  obtain ⟨digest, hashed, valid⟩ := bind_eq_ok.1 valid
  simp only [require_bind_eq_ok] at valid
  obtain ⟨isDigest, isProfile, -, flags, -⟩ := valid
  have next_lt := nextSlotIndex_lt format.generation
  simp (disch := decide) only [validatePublication, numbers, same, codec, hashed,
    require_bind_eq_ok, ok_bind]
  have isIndex : readLittleEndian 2 plaintext 10 = nextSlotIndex format.generation := by
    rw [readLittleEndian, position, ofLittleEndian_two (by omega)]
  have isGeneration : publicationGeneration plaintext = format.generation + 1 := by
    rw [publicationGeneration, readLittleEndian, generation, ofLittleEndian_eight room]
  have isPredecessor : publicationPredecessor plaintext = format.generation := by
    rw [publicationPredecessor, readLittleEndian, predecessor, ofLittleEndian_eight (by omega)]
  have isBoundary : readLittleEndian 8 plaintext 336 = commit.nextBlock := by
    rw [readLittleEndian, boundary, ofLittleEndian_eight blocks_lt]
  have parity : nextSlotIndex format.generation = (format.generation + 1) % 2 := rfl
  rw [isGeneration, isPredecessor, isBoundary, root, blobRoot, allocatorRoot]
  refine ⟨⟨magic, version, isIndex, size, by omega, pad, rest⟩, by omega, identifies, common, suite,
    features, backend, known, codecs, profile, isDigest, isProfile, by omega, flags, ?_⟩
  rw [ExactCommit.format, published.format_eq]
  rfl

theorem encodedSlot_length {tag : Bytes} (nonceSized : nonce.length = aeadNonceBytes)
    (plaintextSized : plaintext.length = publicationPlaintextBytes)
    (tagSized : tag.length = authenticationTagBytes) :
    (encodeSlotEnvelope index nonce ++ plaintext ++ tag).length = publicationSlotBytes := by
  simp only [List.length_append, encodeSlotEnvelope_length index nonceSized, plaintextSized, tagSized]
  rfl

section Encoded

variable (nonceSized : nonce.length = aeadNonceBytes)
  (plaintextSized : plaintext.length = publicationPlaintextBytes)
  (encoded : encodePublicationSlot providers keys bootstrap plaintext index nonce = .ok slot)

include nonceSized plaintextSized encoded

theorem encodePublicationSlot_length : slot.length = publicationSlotBytes := by
  unfold encodePublicationSlot at encoded
  split at encoded
  · cases encoded
    exact encodedSlot_length (by simp) plaintextSized (providers.blake2b_length _ _)
  · obtain ⟨crypto, -, encoded⟩ := bind_eq_ok.1 encoded
    obtain ⟨⟨ciphertext, tag⟩, encrypted, same⟩ := bind_eq_ok.1 encoded
    cases same
    obtain ⟨bodySized, tagSized⟩ := crypto.encrypt_length encrypted
    exact encodedSlot_length nonceSized (bodySized.trans plaintextSized) tagSized

/-- A file with an encoded slot in its place opens it. -/
theorem openSlot_encoded (inverts : providers.Inverts) (index_lt : index < 2)
    (common : commonRegionBytes ≤ file.length) :
    openSlot providers keys bootstrap (splice file (slotOffset index) slot) index =
      .ok (some plaintext) := by
  have sized := encodePublicationSlot_length nonceSized plaintextSized encoded
  simp only [commonRegionBytes] at common
  have inside : slotOffset index + publicationSlotBytes ≤ file.length := by
    simp only [slotOffset, bootstrapBytes, publicationSlotBytes]
    omega
  have read : readExactAt (splice file (slotOffset index) slot) (slotOffset index)
      publicationSlotBytes = .ok slot := by
    rw [readExactAt_eq_ok, splice_length (by omega), slice_splice_here (by omega) sized.symm]
    refine ⟨?_, inside, rfl⟩
    simp only [slotOffset, bootstrapBytes, publicationSlotBytes, maxFileOffset]
    omega
  rw [openSlot, slotOffset_succ, splice_length (by omega), if_pos inside, read, ok_bind]
  unfold encodePublicationSlot at encoded
  split at encoded
  · cases encoded
    exact congrArg Except.ok (checksumSlot_encode providers bootstrap (by omega) plaintextSized)
  · obtain ⟨crypto, required, encoded⟩ := bind_eq_ok.1 encoded
    obtain ⟨⟨ciphertext, tag⟩, encrypted, same⟩ := bind_eq_ok.1 encoded
    cases same
    obtain ⟨bodySized, tagSized⟩ := crypto.encrypt_length encrypted
    obtain ⟨front, middle, last⟩ := encodedSlot_parts index nonceSized
      (bodySized.trans plaintextSized) tagSized
    obtain ⟨canonical, isNonce⟩ := canonicalSlotEnvelope_encode (show index < 2 ^ 16 by omega)
      nonceSized (ciphertext ++ tag)
    rw [← List.append_assoc] at canonical isNonce
    simp only [required, ok_bind, authenticateSlot, canonical, if_true, isNonce, middle,
      last, front]
    exact inverts.of_required required _ _ _ _ _ _ encrypted

end Encoded

/-- A slot of the generation behind the one of the other slot is selected. -/
theorem selectPublication_newer {other : Option Bytes} {otherSlot : Option ValidSlot}
    (index_lt : index < 2) (read : readExactAt file 0 bootstrapBytes = .ok bootstrap)
    (dispatch : validateVisibleBootstrapDispatch bootstrap = .ok ())
    (crypto : providers.requireSuite (visibleEncryptionSuite bootstrap) = .ok ())
    (canonical : validateCanonicalBootstrap bootstrap = .ok ())
    (opened : openSlot providers keys bootstrap file index = .ok (some plaintext))
    (valid : validatePublication L providers bootstrap index plaintext = .ok format)
    (otherOpen : openSlot providers keys bootstrap file (1 - index) = .ok other)
    (otherValid : validateSlot L providers bootstrap (1 - index) other = .ok otherSlot)
    (newer : ∀ older ∈ otherSlot, format.generation = older.format.generation + 1)
    (ends : file.length = format.highWaterBytes) :
    ∃ rejected, selectPublication L providers keys file =
      .ok (some ⟨format, bootstrap, plaintext, rejected, 0⟩) := by
  have predecessor := (validatePublication_published valid).predecessor
  have validated : validateSlot L providers bootstrap index (some plaintext) =
      .ok (some ⟨plaintext, format⟩) := validateSlot_eq_some.2 ⟨rfl, valid⟩
  have choice : ∃ rejected,
      choosePublication (some ⟨plaintext, format⟩) otherSlot =
          .ok (some (⟨plaintext, format⟩, rejected)) ∧
        choosePublication otherSlot (some ⟨plaintext, format⟩) =
          .ok (some (⟨plaintext, format⟩, rejected)) := by
    cases otherSlot with
    | none => exact ⟨true, rfl, rfl⟩
    | some older =>
      have next := newer older rfl
      refine ⟨false, ?_, ?_⟩ <;> simp [choosePublication, next, predecessor, require]
  obtain ⟨rejected, ahead, behind⟩ := choice
  have tail : 0 = file.length - format.highWaterBytes := by omega
  rw [tail]
  refine ⟨rejected, selectPublication_eq_some.2 ?_⟩
  interval_cases index
  · exact ⟨_, _, _, _, _, _, _, ⟨read, dispatch, crypto, opened, otherOpen, by simp, canonical,
      validated, otherValid⟩, ahead, ends.ge, rfl⟩
  · exact ⟨_, _, _, _, _, _, _, ⟨read, dispatch, crypto, otherOpen, opened, by simp, canonical,
      otherValid, validated⟩, behind, ends.ge, rfl⟩

/-- The selected publication is what one of the slots holds. -/
theorem Selection.held
    (selection : Selection L providers keys file bootstrap first second firstSlot secondSlot)
    (choice : choosePublication firstSlot secondSlot = .ok (some (chosen, rejected))) :
    ∃ index, openSlot providers keys bootstrap file index = .ok (some chosen.plaintext) ∧
      validatePublication L providers bootstrap index chosen.plaintext = .ok chosen.format := by
  have held : firstSlot = some chosen ∨ secondSlot = some chosen := by
    rcases choosePublication_cases choice with h | h | ⟨_, h⟩ | ⟨_, h⟩ | ⟨_, h⟩ <;> simp [h]
  rcases held with held | held
  · obtain ⟨isFirst, valid⟩ := validateSlot_eq_some.1 (held ▸ selection.first_valid)
    exact ⟨0, isFirst ▸ selection.first_open, valid⟩
  · obtain ⟨isSecond, valid⟩ := validateSlot_eq_some.1 (held ▸ selection.second_valid)
    exact ⟨1, isSecond ▸ selection.second_open, valid⟩

/-- The slot that the next commit leaves alone holds the selected generation or nothing. -/
theorem Selection.other
    (selection : Selection L providers keys file bootstrap first second firstSlot secondSlot)
    (choice : choosePublication firstSlot secondSlot = .ok (some (chosen, rejected))) :
    ∃ other otherSlot, openSlot providers keys bootstrap file
        (1 - nextSlotIndex chosen.format.generation) = .ok other ∧
      validateSlot L providers bootstrap (1 - nextSlotIndex chosen.format.generation) other =
        .ok otherSlot ∧
      ∀ older ∈ otherSlot, older.format = chosen.format := by
  by_cases exempt : chosen.format.generation = 1 ∧ second = none
  · refine ⟨none, none, ?_, rfl, by simp⟩
    rw [exempt.1]
    exact exempt.2 ▸ selection.second_open
  · obtain ⟨held, opened, valid⟩ := selection.kept choice exempt
    exact ⟨some held, some ⟨held, chosen.format⟩, opened, validateSlot_eq_some.2 ⟨rfl, valid⟩,
      by simp⟩

theorem ExactCommit.common_le (commit : ExactCommit L) :
    commonRegionBytes ≤ commit.highWaterBytes := by
  rw [← commonBlocks_mul L]
  exact Nat.mul_le_mul_right _ commit.behind_common

/-- The file ends with the boundary, and its common region stays. -/
theorem ExactCommit.write_spec (commit : ExactCommit L) (common : commonRegionBytes ≤ file.length) :
    (commit.write file).length = commit.highWaterBytes ∧
      ∀ at_ length, at_ + length ≤ commonRegionBytes →
        slice (commit.write file) at_ length = slice file at_ length := by
  have grown := commit.common_le
  have inside : PatchInside (resizeTo commit.highWaterBytes file) commit.extents := by
    intro write mem
    rw [resizeTo_length]
    exact (commit.extents_inside write mem).2
  refine ⟨(patch_length inside).trans (resizeTo_length _ _), fun at_ length front => ?_⟩
  refine (slice_patch inside fun write mem => .inl ?_).trans ?_
  · exact Nat.le_trans front (commit.extents_inside write mem).1
  · exact slice_resizeTo (by omega) (by omega)

/-- A commit keeps the session and its file together. -/
theorem publishCommit_reopens {stored next : StoredDatabase} (inverts : providers.Inverts)
    (reopens : stored.Reopens L providers keys)
    (publishes : publishCommit L providers keys stored commit = .ok next) :
    next.Reopens L providers keys ∧
      next.opened.format = commit.format stored.opened.format := by
  obtain ⟨file, format, bootstrap, publication, invalid, tail⟩ := stored
  obtain ⟨rejected, selects⟩ := reopens
  obtain ⟨_, first, second, firstSlot, secondSlot, chosen, _, selection, choice, reaches, same⟩ :=
    selectPublication_eq_some.1 selects
  simp only [SelectedPublication.mk.injEq] at same
  obtain ⟨rfl, rfl, rfl, -, -⟩ := same
  simp only [publishCommit, require_bind_eq_ok] at publishes
  obtain ⟨room, ⟨-, bounded⟩, publishes⟩ := publishes
  obtain ⟨⟨plaintext, slot⟩, prepared, publishes⟩ := bind_eq_ok.1 publishes
  obtain ⟨isPlaintext, encoded⟩ := prepareExactPublication_eq_ok prepared
  obtain rfl := Except.ok.inj publishes
  obtain ⟨index, opened, valid⟩ := selection.held choice
  obtain ⟨other, otherSlot, otherOpen, otherValid, older⟩ := selection.other choice
  have published := validatePublication_published valid
  have sized := openSlot_length opened
  have generation_lt : chosen.format.generation < 2 ^ 64 := by
    rw [published.format_eq]
    exact readLittleEndian_lt
  have next_lt := nextSlotIndex_lt chosen.format.generation
  have nextValid := validatePublication_next valid sized (by omega) bounded
  have nextSized := patch_length (commit.fields_inside chosen.format.generation sized)
  rw [← isPlaintext] at nextValid nextSized
  have common := published.common.trans reaches
  obtain ⟨length_eq, region⟩ := commit.write_spec common
  have grown : commonRegionBytes ≤ (commit.write file).length := length_eq ▸ commit.common_le
  have slotSized :=
    encodePublicationSlot_length commit.nonce_length (nextSized.trans sized) encoded
  have nextOpened := openSlot_encoded commit.nonce_length (nextSized.trans sized) encoded inverts
    next_lt grown
  obtain ⟨finalLength, sameBootstrap, sameSlot⟩ :=
    TornSlot.unchanged ⟨_, slotSized, rfl⟩ next_lt grown
  refine ⟨selectPublication_newer next_lt ?_ selection.dispatch selection.crypto
    selection.canonical nextOpened nextValid ?_ otherValid ?_ (finalLength.trans length_eq), rfl⟩
  · rw [← selection.bootstrap_read]
    refine readExactAt_congr ?_ (sameBootstrap.trans (region _ _ (by decide)))
    simp only [commonRegionBytes, bootstrapBytes] at *
    omega
  · rw [← otherOpen]
    refine openSlot_congr ?_ (sameSlot.trans (region _ _ ?_)) <;>
      simp only [commonRegionBytes, bootstrapBytes, slotOffset, publicationSlotBytes] at * <;> omega
  · intro before mem
    rw [older before mem]
    rfl

/-- Without encryption a commit inside the capacity profile is published. -/
theorem publishCommit_plain {stored : StoredDatabase}
    (plain : visibleEncryptionSuite stored.opened.bootstrap = .none)
    (room : (stored.opened.format.generation + 1) % 2 ^ 64 ≠ 0)
    (bounded : growthBytes commit.highWaterBytes stored.opened.format.highWaterBytes ≤
        L.maxFileGrowthPerTransaction ∧ commit.highWaterBytes ≤ L.maxDatabaseBytes) :
    ∃ next, publishCommit L providers keys stored commit = .ok next ∧
      next.opened.bootstrap = stored.opened.bootstrap ∧
      next.opened.format = commit.format stored.opened.format := by
  simp only [publishCommit, prepareExactPublication, encodePublicationSlot, plain,
    require_of room, require_of bounded, ok_bind, pure_eq_ok]
  exact ⟨_, rfl, rfl, rfl⟩

/-- After any sequence of commits, to open the file again gives what the session holds. -/
theorem publish_run_reopens (inverts : providers.Inverts) {start finish : StoredDatabase}
    (reopens : start.Reopens L providers keys) (commits : List (ExactCommit L))
    (run : commits.foldlM (publishCommit L providers keys) start = .ok finish) :
    finish.Reopens L providers keys ∧
      finish.opened.format.generation = start.opened.format.generation + commits.length := by
  induction commits generalizing start with
  | nil =>
    cases run
    exact ⟨reopens, rfl⟩
  | cons commit rest ih =>
    rw [List.foldlM_cons, bind_eq_ok] at run
    obtain ⟨next, publishes, run⟩ := run
    obtain ⟨kept, isFormat⟩ := publishCommit_reopens inverts reopens publishes
    obtain ⟨reopened, counted⟩ := ih kept run
    refine ⟨reopened, ?_⟩
    simp only [counted, isFormat, ExactCommit.format, List.length_cons]
    omega

end Publish

/-- A commit of three blocks, with a root in each. -/
def rootsCommit (generation block : Nat) (behind : 16 ≤ block) : ExactCommit .default where
  extents := [block, block + 1, block + 2].map fun index => (index * 4096, List.replicate 4096 1)
  root := ⟨block, 1, 179, generation⟩
  blobRoot := ⟨block + 1, 1, 179, generation⟩
  allocatorRoot := ⟨block + 2, 1, 179, generation⟩
  nextBlock := block + 3
  nonce := List.replicate aeadNonceBytes 0
  nonce_length := zeroNonce_length
  behind_common := behind.trans (Nat.le_add_right _ _)
  extents_inside := by
    change ∀ write : Nat × Bytes, write ∈ _ → 16 * 4096 ≤ write.1 ∧
      write.1 + write.2.length ≤ (block + 3) * 4096
    simp only [List.forall_mem_map, List.forall_mem_cons, List.length_replicate, List.not_mem_nil,
      false_imp_iff, implies_true, and_true]
    omega

/-- A new database without encryption. -/
def newStored : StoredDatabase :=
  let identity := List.replicate 16 7
  ⟨makeInitialUnencryptedCommonRegion .default plainProviders identity 0, initialFormat 0,
    makeUnencryptedBootstrap identity, makeInitialPublicationPlaintext .default 0 identity 0 0
      (unencryptedProfileDigest .default plainProviders), false, 0⟩

/-- A new database and two commits. -/
theorem publish_run_reopens_created : ∃ finish,
    [rootsCommit 2 16 (by decide), rootsCommit 3 19 (by decide)].foldlM
        (publishCommit .default plainProviders ⟨[], [], []⟩) newStored = .ok finish ∧
      finish.Reopens .default plainProviders ⟨[], [], []⟩ ∧
      finish.opened.format.generation = 3 ∧
      finish.opened.format.orderedRoot = encodeExtentReference ⟨19, 1, 179, 3⟩ := by
  have identitySized : (List.replicate 16 (7 : Byte)).length = databaseIdentityBytes :=
    List.length_replicate
  obtain ⟨-, -, suite, -⟩ := makeUnencryptedBootstrap_valid identitySized
  have reopens : newStored.Reopens .default plainProviders ⟨[], [], []⟩ :=
    ⟨false, selectPublication_created identitySized .default plainProviders _ (by decide) rfl⟩
  obtain ⟨next, publishes, sameBootstrap, isNext⟩ := @publishCommit_plain .default plainProviders
    ⟨[], [], []⟩ (rootsCommit 2 16 (by decide)) newStored suite (by decide) (by decide)
  obtain ⟨finish, again, -, isFinish⟩ := @publishCommit_plain .default plainProviders ⟨[], [], []⟩
    (rootsCommit 3 19 (by decide)) next (by rw [sameBootstrap]; exact suite)
    (by rw [isNext]; decide) (by rw [isNext]; decide)
  have run : [rootsCommit 2 16 (by decide), rootsCommit 3 19 (by decide)].foldlM
      (publishCommit .default plainProviders ⟨[], [], []⟩) newStored = .ok finish := by
    rw [List.foldlM_cons, publishes, ok_bind, List.foldlM_cons, again]
    rfl
  obtain ⟨reopened, counted⟩ := publish_run_reopens (fun crypto found => by cases found) reopens _ run
  exact ⟨finish, run, reopened, counted, by rw [isFinish]; rfl⟩

end Miare
