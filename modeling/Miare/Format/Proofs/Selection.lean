import Miare.Format.Publication

/-!
# The publication a file selects

What is known when `selectPublication` accepts a file, and which of the two slots the next commit
writes.
-/

namespace Miare

open Misc

/-! ## Reads and slots -/

/-- A read of a file depends on the bytes it covers and on whether the file has them. -/
theorem readExactAt_congr {file other : Bytes} {offset length : Nat}
    (inside : offset + length ≤ file.length ↔ offset + length ≤ other.length)
    (same : slice file offset length = slice other offset length) :
    readExactAt file offset length = readExactAt other offset length := by
  unfold readExactAt
  simp only [same, inside]

theorem readExactAt_eq_ok {file result : Bytes} {offset length : Nat} :
    readExactAt file offset length = .ok result ↔
      (offset ≤ maxFileOffset ∧ length ≤ maxFileOffset - offset) ∧
        offset + length ≤ file.length ∧ result = slice file offset length := by
  rw [readExactAt, require_bind_eq_ok, require_bind_eq_ok, pure_eq_ok, Except.ok.injEq,
    eq_comm (a := slice file offset length)]

section Slots

variable {L : Limits} {providers : ProviderSet} {keys : SessionKeys} {bootstrap file : Bytes}
  {index : Nat} {plaintext : Bytes} {format : PublicationFormat}

theorem slotOffset_succ (index : Nat) :
    slotOffset (index + 1) = slotOffset index + publicationSlotBytes := by
  unfold slotOffset
  ring

theorem openSlot_congr {other : Bytes}
    (inside : slotOffset (index + 1) ≤ file.length ↔ slotOffset (index + 1) ≤ other.length)
    (same : slice file (slotOffset index) publicationSlotBytes =
      slice other (slotOffset index) publicationSlotBytes) :
    openSlot providers keys bootstrap file index =
      openSlot providers keys bootstrap other index := by
  rw [slotOffset_succ] at inside
  simp only [openSlot, slotOffset_succ, inside, readExactAt_congr inside same]

/-- The plaintext of a slot fills its buffer. -/
theorem openSlot_length
    (opened : openSlot providers keys bootstrap file index = .ok (some plaintext)) :
    plaintext.length = publicationPlaintextBytes := by
  unfold openSlot at opened
  split at opened
  case isFalse => cases opened
  case isTrue _ =>
    rw [bind_eq_ok] at opened
    obtain ⟨slot, read, opened⟩ := opened
    obtain ⟨-, fits, rfl⟩ := readExactAt_eq_ok.1 read
    have sized : (slice (slice file (slotOffset index) publicationSlotBytes)
        publicationEnvelopeBytes publicationPlaintextBytes).length =
          publicationPlaintextBytes := by
      apply slice_length
      rw [slice_length fits]
      decide
    split at opened
    · simp only [checksumSlot] at opened
      split at opened
      · cases opened
        exact sized
      · cases opened
    · rw [bind_eq_ok] at opened
      obtain ⟨crypto, -, opened⟩ := opened
      unfold authenticateSlot at opened
      split at opened
      · rw [crypto.decrypt_length opened, sized]
      · cases opened

/-! ## Publications -/

/-- The fields of the format that a publication describes. -/
def publicationFormat (L : Limits) (bootstrap plaintext : Bytes) : PublicationFormat where
  generation := publicationGeneration plaintext
  highWaterBytes := readLittleEndian 8 plaintext 336 * L.allocationQuantumBytes
  compression := if readLittleEndian 4 plaintext 80 = 0 then .none else .zStd
  encryptionSuite := visibleEncryptionSuite bootstrap
  optionalFeatures := readLittleEndian 8 plaintext 72
  orderedRoot := slice plaintext 240 32
  blobRoot := slice plaintext 272 32
  allocatorRoot := slice plaintext 304 32

/-- What `validatePublication` has checked of the generation, the slot and the boundary. -/
structure Published (L : Limits) (bootstrap : Bytes) (index : Nat) (plaintext : Bytes)
    (format : PublicationFormat) : Prop where
  format_eq : format = publicationFormat L bootstrap plaintext
  generation_pos : 0 < format.generation
  parity : 1 < format.generation → index = format.generation % 2
  predecessor : publicationPredecessor plaintext = format.generation - 1
  common : commonRegionBytes ≤ format.highWaterBytes
  bounded : format.generation = 1 ∧ format.highWaterBytes = commonRegionBytes ∨
    format.highWaterBytes ≤ L.maxDatabaseBytes

/-- The common region is a whole number of blocks. -/
theorem commonBlocks_mul (L : Limits) :
    L.commonBlocks * L.allocationQuantumBytes = commonRegionBytes := by
  obtain ⟨k, power⟩ := L.quantum_single_bit
  have upper := L.quantum_upper
  have small : k ≤ 16 := by
    rw [power] at upper
    by_contra large
    have := Nat.pow_le_pow_right (show 0 < 2 by decide) (show 17 ≤ k by omega)
    omega
  apply Nat.div_mul_cancel
  rw [power]
  exact pow_dvd_pow 2 small

theorem validatePublication_published
    (valid : validatePublication L providers bootstrap index plaintext = .ok format) :
    Published L bootstrap index plaintext format := by
  simp only [validatePublication, require_bind_eq_ok] at valid
  obtain ⟨⟨-, -, -, -, nonzero, -, -⟩, related, -, -, -, -, -, -, -, valid⟩ := valid
  have checked :
      ¬((publicationGeneration plaintext = 1 ∧ (allZero (slice plaintext 240 96) = false ∨
          readLittleEndian 8 plaintext 336 ≠ L.commonBlocks)) ∨
        (1 < publicationGeneration plaintext ∧
          (readLittleEndian 8 plaintext 336 < L.commonBlocks ∨
            L.maxDatabaseBytes / L.allocationQuantumBytes < readLittleEndian 8 plaintext 336))) ∧
      format = publicationFormat L bootstrap plaintext := by
    rw [bind_eq_ok] at valid
    obtain ⟨-, -, valid⟩ := valid
    rw [require_bind_eq_ok, bind_eq_ok] at valid
    obtain ⟨-, digest, -, valid⟩ := valid
    simp only [require_bind_eq_ok] at valid
    obtain ⟨-, -, boundary, -, valid⟩ := valid
    cases valid
    exact ⟨boundary, rfl⟩
  obtain ⟨boundary, rfl⟩ := checked
  have blocks := commonBlocks_mul L
  have lower : L.commonBlocks ≤ readLittleEndian 8 plaintext 336 := by omega
  refine ⟨rfl, Nat.pos_of_ne_zero nonzero, ?_, ?_, ?_, ?_⟩
  · intro later
    simp only [publicationFormat] at later ⊢
    omega
  · simp only [publicationFormat]
    omega
  · simp only [publicationFormat]
    rw [← blocks]
    exact Nat.mul_le_mul_right _ lower
  · simp only [publicationFormat]
    by_cases first : publicationGeneration plaintext = 1
    · left
      rw [← blocks]
      exact ⟨first, by congr 1; omega⟩
    · right
      apply (Nat.le_div_iff_mul_le L.quantum_pos).1
      omega

/-- Publications that differ in the slot index only describe one format. -/
theorem publicationFormat_congr {other : Bytes} (long : 10 ≤ plaintext.length)
    (longOther : 10 ≤ other.length)
    (same : publicationSemantics plaintext = publicationSemantics other) :
    publicationFormat L bootstrap plaintext = publicationFormat L bootstrap other := by
  have tails : plaintext.drop 12 = other.drop 12 := by
    refine (List.append_inj same ?_).2
    simp [long, longOther]
  have slices {offset : Nat} (length : Nat) (behind : 12 ≤ offset) :
      slice plaintext offset length = slice other offset length := by
    rw [slice_drop plaintext length behind, slice_drop other length behind, tails]
  have numbers {offset : Nat} (width : Nat) (behind : 12 ≤ offset) :
      readLittleEndian width plaintext offset = readLittleEndian width other offset :=
    congrArg ofLittleEndian (slices width behind)
  simp [publicationFormat, publicationGeneration, numbers, slices]

end Slots

/-! ## Selection -/

/-- A slot passes its protection check and holds a publication of the format. -/
def SlotHolds (L : Limits) (providers : ProviderSet) (keys : SessionKeys) (bootstrap file : Bytes)
    (index : Nat) (format : PublicationFormat) : Prop :=
  ∃ plaintext, openSlot providers keys bootstrap file index = .ok (some plaintext) ∧
    validatePublication L providers bootstrap index plaintext = .ok format

/-- What the slots of a file hold, once validated. -/
structure Selection (L : Limits) (providers : ProviderSet) (keys : SessionKeys) (file : Bytes)
    (bootstrap : Bytes) (first second : Option Bytes) (firstSlot secondSlot : Option ValidSlot) :
    Prop where
  bootstrap_read : readExactAt file 0 bootstrapBytes = .ok bootstrap
  dispatch : validateVisibleBootstrapDispatch bootstrap = .ok ()
  crypto : providers.requireSuite (visibleEncryptionSuite bootstrap) = .ok ()
  first_open : openSlot providers keys bootstrap file 0 = .ok first
  second_open : openSlot providers keys bootstrap file 1 = .ok second
  some_open : ¬(first = none ∧ second = none)
  canonical : validateCanonicalBootstrap bootstrap = .ok ()
  first_valid : validateSlot L providers bootstrap 0 first = .ok firstSlot
  second_valid : validateSlot L providers bootstrap 1 second = .ok secondSlot

/-- A file is accepted exactly when its slots validate, the choice succeeds and the file reaches the
chosen boundary. -/
theorem selectPublication_eq_some {L : Limits} {providers : ProviderSet} {keys : SessionKeys}
    {file : Bytes} {selected : SelectedPublication} :
    selectPublication L providers keys file = .ok (some selected) ↔
      ∃ bootstrap first second firstSlot secondSlot slot rejected,
        Selection L providers keys file bootstrap first second firstSlot secondSlot ∧
        choosePublication firstSlot secondSlot = .ok (some (slot, rejected)) ∧
        slot.format.highWaterBytes ≤ file.length ∧
        selected = ⟨slot.format, bootstrap, slot.plaintext, rejected,
          file.length - slot.format.highWaterBytes⟩ := by
  constructor
  · intro selects
    simp only [selectPublication, bind_eq_ok] at selects
    obtain ⟨bootstrap, read, ⟨⟩, dispatch, ⟨⟩, crypto, first, openFirst, second, openSecond,
      selects⟩ := selects
    split at selects
    · cases selects
    · next some_open =>
      simp only [bind_eq_ok] at selects
      obtain ⟨⟨⟩, canonical, firstSlot, validFirst, secondSlot, validSecond, chosen, choice,
        selects⟩ := selects
      split at selects
      · cases selects
      · next slot rejected =>
        rw [require_bind_eq_ok] at selects
        obtain ⟨reaches, selects⟩ := selects
        cases selects
        exact ⟨bootstrap, first, second, firstSlot, secondSlot, slot, rejected,
          ⟨read, dispatch, crypto, openFirst, openSecond, some_open, canonical, validFirst,
            validSecond⟩, choice, reaches, rfl⟩
  · rintro ⟨bootstrap, first, second, firstSlot, secondSlot, slot, rejected, selection, choice,
      reaches, rfl⟩
    simp only [selectPublication, selection.bootstrap_read, selection.dispatch, selection.crypto,
      selection.first_open, selection.second_open, ok_bind, if_neg selection.some_open,
      selection.canonical, selection.first_valid, selection.second_valid, choice,
      require_of reaches, pure_eq_ok]

section Choice

variable {L : Limits} {providers : ProviderSet} {keys : SessionKeys} {bootstrap file : Bytes}
  {index : Nat} {plaintext : Bytes} {format : PublicationFormat} {first second : Option Bytes}
  {firstSlot secondSlot : Option ValidSlot} {slot : ValidSlot} {rejected : Bool}

theorem validateSlot_eq_some {opened : Option Bytes} :
    validateSlot L providers bootstrap index opened = .ok (some slot) ↔
      opened = some slot.plaintext ∧
        validatePublication L providers bootstrap index slot.plaintext = .ok slot.format := by
  cases opened with
  | none => simp [validateSlot]
  | some plaintext =>
    simp only [validateSlot, bind_eq_ok, pure_eq_ok, Except.ok.injEq, Option.some.injEq]
    constructor
    · rintro ⟨format, valid, rfl⟩
      exact ⟨rfl, valid⟩
    · rintro ⟨rfl, valid⟩
      exact ⟨_, valid, rfl⟩

theorem validateSlot_eq_none {opened : Option Bytes} :
    validateSlot L providers bootstrap index opened = .ok none ↔ opened = none := by
  cases opened with
  | none => simp [validateSlot]
  | some plaintext => simp [validateSlot, bind_eq_ok]

/-- The ways in which a publication is chosen. -/
theorem choosePublication_cases
    (choice : choosePublication firstSlot secondSlot = .ok (some (slot, rejected))) :
    firstSlot = some slot ∧ secondSlot = none ∨ firstSlot = none ∧ secondSlot = some slot ∨
      (∃ twin, firstSlot = some slot ∧ secondSlot = some twin ∧
        slot.format.generation = twin.format.generation ∧
        publicationSemantics slot.plaintext = publicationSemantics twin.plaintext) ∨
      (∃ older, firstSlot = some older ∧ secondSlot = some slot ∧
        slot.format.generation = older.format.generation + 1) ∨
      ∃ older, firstSlot = some slot ∧ secondSlot = some older ∧
        slot.format.generation = older.format.generation + 1 := by
  cases firstSlot with
  | none =>
    cases secondSlot with
    | none => cases choice
    | some second =>
      cases choice
      exact .inr (.inl ⟨rfl, rfl⟩)
  | some first =>
    cases secondSlot with
    | none =>
      cases choice
      exact .inl ⟨rfl, rfl⟩
    | some second =>
      simp only [choosePublication] at choice
      split at choice
      · next equal =>
        rw [require_bind_eq_ok] at choice
        obtain ⟨same, choice⟩ := choice
        cases choice
        exact .inr (.inr (.inl ⟨second, rfl, rfl, equal, same⟩))
      · rw [require_bind_eq_ok] at choice
        obtain ⟨⟨successor, -⟩, choice⟩ := choice
        split at successor
        · next less =>
          rw [if_pos less] at choice
          cases choice
          exact .inr (.inr (.inr (.inl ⟨first, rfl, rfl, successor⟩)))
        · next less =>
          rw [if_neg less] at choice
          cases choice
          exact .inr (.inr (.inr (.inr ⟨second, rfl, rfl, successor⟩)))

/-- Unless the file has its first generation in slot 0 alone, the slot that the next commit leaves
alone holds the selected publication. -/
theorem Selection.kept
    (selection : Selection L providers keys file bootstrap first second firstSlot secondSlot)
    (choice : choosePublication firstSlot secondSlot = .ok (some (slot, rejected)))
    (exempt : ¬(slot.format.generation = 1 ∧ second = none)) :
    SlotHolds L providers keys bootstrap file (1 - nextSlotIndex slot.format.generation)
      slot.format := by
  -- a publication in its own slot: the parity check names the slot from generation 2 on
  have inFirst (held : firstSlot = some slot) (later : 1 < slot.format.generation) :
      SlotHolds L providers keys bootstrap file (1 - nextSlotIndex slot.format.generation)
        slot.format := by
    obtain ⟨rfl, valid⟩ := validateSlot_eq_some.1 (held ▸ selection.first_valid)
    have parity := (validatePublication_published valid).parity later
    have next : 1 - nextSlotIndex slot.format.generation = 0 := by
      unfold nextSlotIndex
      omega
    rw [next]
    exact ⟨_, selection.first_open, valid⟩
  have inSecond (held : secondSlot = some slot) :
      SlotHolds L providers keys bootstrap file (1 - nextSlotIndex slot.format.generation)
        slot.format := by
    obtain ⟨rfl, valid⟩ := validateSlot_eq_some.1 (held ▸ selection.second_valid)
    have published := validatePublication_published valid
    have next : 1 - nextSlotIndex slot.format.generation = 1 := by
      have := published.generation_pos
      have := published.parity
      unfold nextSlotIndex
      omega
    rw [next]
    exact ⟨_, selection.second_open, valid⟩
  have positive {index : Nat} {opened : Option Bytes} {slot : ValidSlot}
      (valid : validateSlot L providers bootstrap index opened = .ok (some slot)) :
      0 < slot.format.generation :=
    (validatePublication_published (validateSlot_eq_some.1 valid).2).generation_pos
  rcases choosePublication_cases choice with
    ⟨held, missing⟩ | ⟨-, held⟩ | ⟨twin, held, heldTwin, equal, same⟩ | ⟨older, -, held, -⟩ |
      ⟨older, held, heldOlder, successor⟩
  · have none_open := validateSlot_eq_none.1 (missing ▸ selection.second_valid)
    have := positive (held ▸ selection.first_valid)
    exact inFirst held (by by_contra small; exact exempt ⟨by omega, none_open⟩)
  · exact inSecond held
  · -- both slots hold the generation, which the parity check allows for the first one only
    obtain ⟨isFirst, valid⟩ := validateSlot_eq_some.1 (held ▸ selection.first_valid)
    obtain ⟨isTwin, validTwin⟩ := validateSlot_eq_some.1 (heldTwin ▸ selection.second_valid)
    have published := validatePublication_published valid
    have publishedTwin := validatePublication_published validTwin
    have one : slot.format.generation = 1 := by
      have := published.generation_pos
      have := published.parity
      have := publishedTwin.parity
      omega
    have formats : slot.format = twin.format := by
      rw [published.format_eq, publishedTwin.format_eq]
      apply publicationFormat_congr _ _ same
      · rw [openSlot_length (isFirst ▸ selection.first_open)]
        decide
      · rw [openSlot_length (isTwin ▸ selection.second_open)]
        decide
    rw [one]
    exact ⟨twin.plaintext, isTwin ▸ selection.second_open, formats ▸ validTwin⟩
  · exact inSecond held
  · have := positive (heldOlder ▸ selection.second_valid)
    exact inFirst held (by omega)

/-- A file whose other slot is lost selects what the remaining one holds. -/
theorem selectPublication_single (index_lt : index < 2)
    (read : readExactAt file 0 bootstrapBytes = .ok bootstrap)
    (dispatch : validateVisibleBootstrapDispatch bootstrap = .ok ())
    (crypto : providers.requireSuite (visibleEncryptionSuite bootstrap) = .ok ())
    (canonical : validateCanonicalBootstrap bootstrap = .ok ())
    (held : SlotHolds L providers keys bootstrap file index format)
    (lost : openSlot providers keys bootstrap file (1 - index) = .ok none)
    (reaches : format.highWaterBytes ≤ file.length) :
    ∃ selected, selectPublication L providers keys file = .ok (some selected) ∧
      selected.format = format := by
  obtain ⟨plaintext, opened, valid⟩ := held
  have validated : validateSlot L providers bootstrap index (some plaintext) =
      .ok (some ⟨plaintext, format⟩) := validateSlot_eq_some.2 ⟨rfl, valid⟩
  interval_cases index
  · refine ⟨_, selectPublication_eq_some.2 ⟨bootstrap, some plaintext, none,
      some ⟨plaintext, format⟩, none, ⟨plaintext, format⟩, true, ?_, rfl, reaches, rfl⟩, rfl⟩
    exact ⟨read, dispatch, crypto, opened, lost, by simp, canonical, validated, rfl⟩
  · refine ⟨_, selectPublication_eq_some.2 ⟨bootstrap, none, some plaintext,
      none, some ⟨plaintext, format⟩, ⟨plaintext, format⟩, true, ?_, rfl, reaches, rfl⟩, rfl⟩
    exact ⟨read, dispatch, crypto, lost, opened, by simp, canonical, rfl, validated⟩

end Choice

end Miare
