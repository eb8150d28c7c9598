import Miare.Format.Proofs.Creation

/-!
# The slot of the next commit

A commit of generation `g + 1` overwrites the slot of its parity.  It must not be the only slot with
generation `g`: a torn write would leave nothing to select.
-/

namespace Miare

open Misc

/-- A slot passes its protection check and carries the generation. -/
def CarriesGeneration (providers : ProviderSet) (keys : SessionKeys) (file : Bytes)
    (index generation : Nat) : Prop :=
  ∃ plaintext, openSlot providers keys (slice file 0 bootstrapBytes) file index =
    .ok (some plaintext) ∧ publicationGeneration plaintext = generation

/-- The slot is the only one of the two that carries the generation. -/
def OnlyCarrier (providers : ProviderSet) (keys : SessionKeys) (file : Bytes)
    (index generation : Nat) : Prop :=
  CarriesGeneration providers keys file index generation ∧
    ¬CarriesGeneration providers keys file (1 - index) generation

/-- A write of a slot that reached the file in part or with other bytes. -/
def TornSlot (file torn : Bytes) (index : Nat) : Prop :=
  ∃ piece, piece.length = publicationSlotBytes ∧ torn = splice file (slotOffset index) piece

/-- The slot that the next commit writes is not the only one with the selected generation, and a
torn write that fails its protection check leaves the selected publication. -/
def SparesSelected (L : Limits) (providers : ProviderSet) (keys : SessionKeys) (file : Bytes)
    (selected : SelectedPublication) : Prop :=
  let next := nextSlotIndex selected.format.generation
  ¬OnlyCarrier providers keys file next selected.format.generation ∧
    ∀ torn, TornSlot file torn next →
      openSlot providers keys (slice torn 0 bootstrapBytes) torn next = .ok none →
      ∃ again, selectPublication L providers keys torn = .ok (some again) ∧
        again.format = selected.format

section Torn

variable {file torn : Bytes} {index : Nat}

theorem nextSlotIndex_lt (generation : Nat) : nextSlotIndex generation < 2 :=
  Nat.mod_lt _ (by decide)

/-- A torn slot leaves the bootstrap and the other slot as they are. -/
theorem TornSlot.unchanged (tears : TornSlot file torn index) (index_lt : index < 2)
    (common : commonRegionBytes ≤ file.length) :
    torn.length = file.length ∧
      slice torn 0 bootstrapBytes = slice file 0 bootstrapBytes ∧
      slice torn (slotOffset (1 - index)) publicationSlotBytes =
        slice file (slotOffset (1 - index)) publicationSlotBytes := by
  obtain ⟨piece, sized, rfl⟩ := tears
  simp only [commonRegionBytes, publicationSlotBytes] at common sized
  refine ⟨?_, ?_, ?_⟩
  · apply splice_length
    simp only [slotOffset, bootstrapBytes, publicationSlotBytes]
    omega
  · apply slice_splice_before <;> simp only [slotOffset, bootstrapBytes, publicationSlotBytes] <;>
      omega
  · interval_cases index
    · apply slice_splice_behind <;>
        simp only [slotOffset, bootstrapBytes, publicationSlotBytes] <;> omega
    · apply slice_splice_before <;>
        simp only [slotOffset, bootstrapBytes, publicationSlotBytes] <;> omega

end Torn

/-- The next commit spares the selected publication unless the file has its first generation and
slot 1 fails its protection check: both slots of a new file carry generation 1, and generation 2
goes to slot 0. -/
theorem nextSlot_spares_iff (L : Limits) (providers : ProviderSet) (keys : SessionKeys)
    (file : Bytes) (selected : SelectedPublication)
    (selects : selectPublication L providers keys file = .ok (some selected)) :
    SparesSelected L providers keys file selected ↔
      ¬(selected.format.generation = 1 ∧
        openSlot providers keys (slice file 0 bootstrapBytes) file 1 = .ok none) := by
  obtain ⟨bootstrap, first, second, firstSlot, secondSlot, slot, rejected, selection, choice,
    reaches, rfl⟩ := selectPublication_eq_some.1 selects
  obtain ⟨representable, present, isBootstrap⟩ := readExactAt_eq_ok.1 selection.bootstrap_read
  have isSecond : openSlot providers keys bootstrap file 1 = .ok none ↔ second = none := by
    rw [selection.second_open]
    simp
  have carrier {index : Nat}
      (held : SlotHolds L providers keys bootstrap file index slot.format) :
      CarriesGeneration providers keys file index slot.format.generation := by
    obtain ⟨plaintext, opened, valid⟩ := held
    refine ⟨plaintext, isBootstrap ▸ opened, ?_⟩
    rw [(validatePublication_published valid).format_eq]
    rfl
  rw [← isBootstrap, isSecond]
  unfold SparesSelected
  dsimp only
  constructor
  · rintro ⟨spared, -⟩ ⟨one, rfl⟩
    apply spared
    -- slot 1 holds nothing, so the chosen publication is in slot 0
    have missing : secondSlot = none := by
      have valid := selection.second_valid
      simp only [validateSlot, Except.ok.injEq] at valid
      exact valid.symm
    have held : firstSlot = some slot := by
      rcases choosePublication_cases choice with h | h | h | h | h <;> simp_all
    obtain ⟨rfl, valid⟩ := validateSlot_eq_some.1 (held ▸ selection.first_valid)
    have carries := carrier ⟨_, selection.first_open, valid⟩
    have next : nextSlotIndex slot.format.generation = 0 := by rw [one, nextSlotIndex]
    rw [next]
    refine ⟨carries, ?_⟩
    rintro ⟨plaintext, opened, -⟩
    rw [← isBootstrap] at opened
    exact absurd (selection.second_open.symm.trans opened) (by simp)
  · intro exempt
    have held := selection.kept choice exempt
    have next_lt := nextSlotIndex_lt slot.format.generation
    refine ⟨fun only => only.2 (carrier held), ?_⟩
    intro torn tears lost
    obtain ⟨plaintext, opened, valid⟩ := held
    have common := (validatePublication_published valid).common
    obtain ⟨length_eq, sameBootstrap, sameSlot⟩ := tears.unchanged next_lt (by omega)
    have other : 1 - (1 - nextSlotIndex slot.format.generation) =
        nextSlotIndex slot.format.generation := by omega
    refine selectPublication_single (by omega) ?_ selection.dispatch selection.crypto
      selection.canonical ⟨plaintext, ?_, valid⟩ ?_ (by omega)
    · rw [readExactAt_congr (by rw [length_eq]) sameBootstrap]
      exact selection.bootstrap_read
    · rw [openSlot_congr (by rw [length_eq]) sameSlot]
      exact opened
    · rw [other, isBootstrap, ← sameBootstrap]
      exact lost

/-- A new database: both slots carry generation 1, and the commit of generation 2 spares slot 1. -/
theorem nextSlot_spares_created :
    let providers : ProviderSet :=
      ⟨none, none, fun outputBytes _ => List.replicate outputBytes 0, by simp⟩
    let keys : SessionKeys := ⟨[], [], []⟩
    let file := makeInitialUnencryptedCommonRegion .default providers (List.replicate 16 7) 0
    ∃ selected, selectPublication .default providers keys file = .ok (some selected) ∧
      SparesSelected .default providers keys file selected := by
  intro providers keys file
  have identitySized : (List.replicate 16 (7 : Byte)).length = databaseIdentityBytes := by simp; rfl
  have selects := selectPublication_created identitySized .default providers keys
    (show 0 ≤ 1 by decide) rfl
  obtain ⟨length_eq, front, slots⟩ := commonRegion_reads identitySized .default providers 0
  refine ⟨_, selects, (nextSlot_spares_iff _ _ _ _ _ selects).2 ?_⟩
  rintro ⟨-, lost⟩
  have opened := openSlot_created identitySized keys (show 1 < 2 by decide) length_eq.ge
    (slots 1 (by decide))
  rw [front] at lost
  exact absurd (lost.symm.trans opened) (by simp)

/-- A new database without encryption whose slot 1 was cleared: it opens, slot 0 is the only one
with its generation, the next commit writes slot 0, and when that write is lost nothing can be
selected. -/
theorem clearedSlot_overwrites (L : Limits) (providers : ProviderSet) (keys : SessionKeys)
    {identity : Bytes} (identitySized : identity.length = databaseIdentityBytes) :
    let created := makeInitialUnencryptedCommonRegion L providers identity 0
    let file := splice created (slotOffset 1) (List.replicate publicationSlotBytes 0)
    let torn := splice file (slotOffset 0) (List.replicate publicationSlotBytes 0)
    ∃ selected, selectPublication L providers keys file = .ok (some selected) ∧
      selected.format.generation = 1 ∧
      openSlot providers keys (slice file 0 bootstrapBytes) file 1 = .ok none ∧
      OnlyCarrier providers keys file (nextSlotIndex selected.format.generation)
        selected.format.generation ∧
      TornSlot file torn (nextSlotIndex selected.format.generation) ∧
      selectPublication L providers keys torn = .ok none := by
  intro created file torn
  obtain ⟨length_eq, front, slots⟩ := commonRegion_reads identitySized L providers 0
  obtain ⟨dispatch, canonical, suite, -⟩ := makeUnencryptedBootstrap_valid identitySized
  have cleared : (List.replicate publicationSlotBytes (0 : Byte)).length = publicationSlotBytes :=
    List.length_replicate
  have tearsFirst : TornSlot created file 1 := ⟨_, cleared, rfl⟩
  have tearsSecond : TornSlot file torn 0 := ⟨_, cleared, rfl⟩
  obtain ⟨fileLength, fileFront, fileSlot⟩ := tearsFirst.unchanged (by decide) length_eq.ge
  have fileCommon : commonRegionBytes ≤ file.length := by rw [fileLength, length_eq]
  obtain ⟨tornLength, tornFront, tornSlot⟩ := tearsSecond.unchanged (by decide) fileCommon
  have tornCommon : commonRegionBytes ≤ torn.length := by rw [tornLength]; exact fileCommon
  have here {bytes : Bytes} {index : Nat} (common : commonRegionBytes ≤ bytes.length)
      (index_lt : index < 2) :
      slice (splice bytes (slotOffset index) (List.replicate publicationSlotBytes 0))
        (slotOffset index) publicationSlotBytes = List.replicate publicationSlotBytes 0 := by
    apply slice_splice_here _ cleared.symm
    simp only [commonRegionBytes] at common
    simp only [slotOffset, bootstrapBytes, publicationSlotBytes]
    omega
  have isFront : slice file 0 bootstrapBytes = makeUnencryptedBootstrap identity :=
    fileFront.trans front
  -- slot 0 still holds the first publication, slot 1 holds nothing
  have opened := openSlot_created identitySized keys (show 0 < 2 by decide) fileCommon
    (fileSlot.trans (slots 0 (by decide)))
  have lost : openSlot providers keys (makeUnencryptedBootstrap identity) file 1 = .ok none :=
    openSlot_cleared identitySized (by decide) fileCommon (here length_eq.ge (by decide))
  have valid := validatePublication_initial (L := L) providers identitySized (show 0 < 2 by decide)
    (show 0 ≤ 1 by decide) rfl
  have read {bytes : Bytes} (common : commonRegionBytes ≤ bytes.length)
      (isBootstrap : slice bytes 0 bootstrapBytes = makeUnencryptedBootstrap identity) :
      readExactAt bytes 0 bootstrapBytes = .ok (makeUnencryptedBootstrap identity) :=
    readExactAt_eq_ok.2 ⟨by decide, Nat.le_trans (by decide) common, isBootstrap.symm⟩
  obtain ⟨selected, selects, isFormat⟩ := selectPublication_single (show 0 < 2 by decide)
    (read fileCommon isFront) dispatch (by rw [suite]; rfl) canonical ⟨_, opened, valid⟩ lost
    (by rw [fileLength, length_eq]; exact Nat.le_refl _)
  have one : selected.format.generation = 1 := by rw [isFormat]; rfl
  refine ⟨selected, selects, one, by rw [isFront]; exact lost, ?_, ?_, ?_⟩
  · rw [one]
    refine ⟨⟨_, by rw [isFront]; exact opened, ?_⟩, ?_⟩
    · have := (validatePublication_published valid).format_eq
      exact (congrArg (fun format : PublicationFormat => format.generation) this).symm
    · rintro ⟨plaintext, carried, -⟩
      rw [isFront] at carried
      exact absurd (lost.symm.trans carried) (by simp)
  · rw [one]
    exact tearsSecond
  · have lostFirst : openSlot providers keys (makeUnencryptedBootstrap identity) torn 0 = .ok none :=
      openSlot_cleared identitySized (by decide) tornCommon (here fileCommon (by decide))
    have lostSecond : openSlot providers keys (makeUnencryptedBootstrap identity) torn 1 =
        .ok none := by
      rw [openSlot_congr (by rw [tornLength]) tornSlot]
      exact lost
    simp [selectPublication, read tornCommon (tornFront.trans isFront), dispatch, suite,
      ProviderSet.requireSuite, lostFirst, lostSecond]

/-- The default profile, without providers. -/
theorem nextSlot_overwrites_only_publication :
    let providers : ProviderSet :=
      ⟨none, none, fun outputBytes _ => List.replicate outputBytes 0, by simp⟩
    let keys : SessionKeys := ⟨[], [], []⟩
    let created := makeInitialUnencryptedCommonRegion .default providers (List.replicate 16 7) 0
    let file := splice created (slotOffset 1) (List.replicate publicationSlotBytes 0)
    let torn := splice file (slotOffset 0) (List.replicate publicationSlotBytes 0)
    ∃ selected, selectPublication .default providers keys file = .ok (some selected) ∧
      selected.format.generation = 1 ∧
      openSlot providers keys (slice file 0 bootstrapBytes) file 1 = .ok none ∧
      OnlyCarrier providers keys file (nextSlotIndex selected.format.generation)
        selected.format.generation ∧
      TornSlot file torn (nextSlotIndex selected.format.generation) ∧
      selectPublication .default providers keys torn = .ok none :=
  clearedSlot_overwrites .default _ _ (by simp; rfl)

end Miare
