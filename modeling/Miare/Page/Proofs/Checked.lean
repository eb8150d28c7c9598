import Miare.Page.Checked
import Miare.Page.Proofs.Keys
import Miare.Tree.Proofs.Store

/-!
# Page parsing stays inside its buffers

On every payload of a page the parsers on machine words agree with the loaders of the model, which
have no other way to stop than their errors.  So no access leaves a buffer and no word wraps.
-/

namespace Miare

open Misc

variable {payload : Bytes}

/-! ## Entries as parts of the payload -/

theorem readField_slice {width offset length inner : Nat} (inside : inner + width ≤ length)
    (within : offset + length ≤ payload.length) :
    readField width (slice payload offset length) inner =
      .ok (readLittleEndian width payload (offset + inner)) := by
  rw [readField_of (by rw [slice_length within]; exact inside), readLittleEndian,
    slice_slice inside]
  rfl

theorem view_slice {offset length inner count : Nat} (inside : inner + count ≤ length)
    (within : offset + length ≤ payload.length) :
    view (slice payload offset length) inner count = .ok (slice payload (offset + inner) count) := by
  rw [view_of (by rw [slice_length within]; exact inside), slice_slice inside]

/-! ## Header and regions -/

theorem checkedHeader_eq (long : pageLayoutBytes ≤ payload.length) :
    checkedHeader payload = .ok (readPageHeader payload) := by
  unfold pageLayoutBytes at long
  unfold checkedHeader
  simp (disch := omega) only [readWord_of, readBytes_of, subspan_of, ok_bind]
  rfl

/-- The lengths and offsets of a header are 32-bit words. -/
theorem readPageHeader_words (payload : Bytes) :
    (readPageHeader payload).prefixLength < 2 ^ 32 ∧ (readPageHeader payload).entryCount < 2 ^ 32 ∧
      (readPageHeader payload).slotsOffset < 2 ^ 32 :=
  ⟨readLittleEndian_lt, readLittleEndian_lt, readLittleEndian_lt⟩

/-- The regions of a page follow each other, and what is not used is zero. -/
structure PageHeader.Regions (header : PageHeader) (keyLimit : Option Nat) (payload : Bytes) :
    Prop where
  keys : ∀ size ∈ keyLimit, header.prefixLength ≤ size
  slots : header.slotsOffset = pageLayoutBytes + header.prefixLength
  entries : header.entriesOffset = header.slotsOffset + header.entryCount * 8
  used : header.entriesOffset ≤ header.usedLength ∧ header.usedLength ≤ payload.length
  unused : allZero (payload.drop header.usedLength) = true

/-- The shared operands of a check that needs them all. -/
theorem checkedRegions_agrees {γ δ : Type} {S : γ → δ → Prop} {error : LoadError}
    {keyLimit : Option Nat} {whole : Prop} [Decidable whole] {next : Unit → Checked LoadError γ}
    {after : Unit → Except LoadError δ}
    (needed : whole → (readPageHeader payload).Regions keyLimit payload)
    (rest : (readPageHeader payload).Regions keyLimit payload →
      Agrees S (next ()) (require error whole >>= after)) :
    Agrees S (checkedRegions error keyLimit (readPageHeader payload) payload >>= next)
      (require error whole >>= after) := by
  obtain ⟨prefixWord, countWord, slotsWord⟩ := readPageHeader_words payload
  generalize readPageHeader payload = header at *
  unfold checkedRegions
  simp only [bind_assoc]
  refine .check_part (fun accepted => (needed accepted).keys) fun keys => ?_
  rw [addWord_of (by unfold pageLayoutBytes; omega), ok_bind]
  refine .check_part (fun accepted => (needed accepted).slots) fun slots => ?_
  rw [mulWord_of (by omega), ok_bind, addWord_of (by omega), ok_bind]
  refine .check_part (fun accepted => (needed accepted).entries) fun entries => ?_
  refine .check_part (fun accepted => (needed accepted).used) fun used => ?_
  have region : slice payload header.usedLength (payload.length - header.usedLength) =
      payload.drop header.usedLength := by
    rw [slice, ← List.length_drop, List.take_length]
  rw [readBytes_of ⟨used.2, le_rfl⟩, ok_bind, region]
  exact .check_part (fun accepted => (needed accepted).unused) fun unused =>
    rest ⟨keys, slots, entries, used, unused⟩

/-- The frame of a tree page. -/
theorem checkedFrame_agrees {T : TreeRole} {kind expectedLevel : Nat} {γ δ : Type}
    {S : γ → δ → Prop} {next : PageHeader → Checked LoadError γ} {after : Unit → Except LoadError δ}
    (long : pageLayoutBytes ≤ payload.length)
    (rest : (readPageHeader payload).Matches T kind expectedLevel →
      (readPageHeader payload).Regions T.keySize payload →
      Agrees S (next (readPageHeader payload)) (after ())) :
    Agrees S (checkedFrame T kind expectedLevel payload >>= next) (do
      require (.corrupt (T.subject ++ " page header is invalid"))
        ((readPageHeader payload).Matches T kind expectedLevel)
      require (.corrupt (T.subject ++ " page bounds are invalid"))
        ((readPageHeader payload).Bounded T payload) >>= after) := by
  unfold checkedFrame
  rw [checkedHeader_eq long]
  simp only [bind_assoc, ok_bind]
  refine .check Iff.rfl fun accepted => ?_
  refine .check_part (fun bounded => bounded.1) fun filled => ?_
  have regions : (readPageHeader payload).Bounded T payload →
      (readPageHeader payload).Regions T.keySize payload := by
    rintro ⟨-, keys, slots, entries, above, inside, unused, -⟩
    exact ⟨keys, slots, entries, ⟨above, inside⟩, unused⟩
  refine checkedRegions_agrees regions fun found => ?_
  refine .check ⟨fun childless => ?_, fun bounded => bounded.2.2.2.2.2.2.2⟩ fun _ =>
    rest accepted found
  exact ⟨filled, found.keys, found.slots, found.entries, found.used.1, found.used.2, found.unused,
    childless⟩

/-! ## Slots -/

theorem checkedSlot_eq {slotsOffset index : Nat} (inside : slotsOffset + index * 8 + 8 ≤ payload.length)
    (small : payload.length < 2 ^ 32) :
    checkedSlot payload slotsOffset index =
      .ok (readLittleEndian 4 payload (slotsOffset + index * 8),
        readLittleEndian 4 payload (slotsOffset + index * 8 + 4)) := by
  unfold checkedSlot
  rw [mulWord_of (by omega), ok_bind, addWord_of (by omega), ok_bind, readWord_of (by omega),
    ok_bind, addWord_of (by omega), ok_bind, readWord_of (by omega), ok_bind]
  rfl

/-- The loop over the slots, when a turn agrees with the turn of the model on the entry that it is
given. -/
theorem checkedSlots_agrees {σ τ : Type} {R : σ → τ → Prop} {slotError : String}
    {minimumLength usedLength slotsOffset : Nat}
    {step : σ → Nat → Nat → Checked LoadError σ} {follow : τ → Bytes → Except LoadError τ}
    (small : payload.length < 2 ^ 32) (within : usedLength ≤ payload.length)
    (each : ∀ state other entryOffset entryLength, R state other → minimumLength ≤ entryLength →
      entryOffset + entryLength ≤ usedLength →
      Agrees R (step state entryOffset entryLength)
        (follow other (slice payload entryOffset entryLength)))
    (index : Nat) {remaining expectedEntry : Nat}
    (slots : slotsOffset + (index + remaining) * 8 ≤ usedLength) {state : σ} {other : τ}
    (related : R state other) :
    Agrees (fun left right => R left.1 right.1 ∧ left.2 = right.2)
      (checkedSlots slotError minimumLength payload usedLength slotsOffset step remaining index
        expectedEntry state)
      (walkSlots slotError minimumLength payload usedLength follow remaining
        (slotsOffset + index * 8) expectedEntry other) := by
  induction remaining generalizing index expectedEntry state other with
  | zero => exact ⟨related, rfl⟩
  | succ remaining ih =>
    have slot : slotsOffset + index * 8 + 8 ≤ payload.length := by omega
    rw [checkedSlots, walkSlots, checkedSlot_eq slot small, ok_bind, readField_of (by omega), ok_bind,
      readField_of (by omega), ok_bind]
    generalize readLittleEndian 4 payload (slotsOffset + index * 8) = entryOffset
    generalize readLittleEndian 4 payload (slotsOffset + index * 8 + 4) = entryLength
    refine .check_part (fun accepted => ⟨accepted.1, accepted.2.1, accepted.2.2.1⟩) fun begins => ?_
    obtain ⟨rfl, long, above⟩ := begins
    rw [subWord_of above, ok_bind]
    refine .check ⟨fun room => ⟨rfl, long, above, room⟩, fun accepted => accepted.2.2.2⟩ fun fits => ?_
    have inside : entryOffset + entryLength ≤ usedLength := by omega
    rw [view_of (by omega), ok_bind]
    refine (each _ _ _ _ related long inside).bind fun next after _ further => ?_
    rw [addWord_of (by omega), ok_bind]
    have tail := @ih (index + 1) (entryOffset + entryLength) (by omega) next after further
    rwa [show slotsOffset + (index + 1) * 8 = slotsOffset + index * 8 + 8 by omega] at tail

/-! ## The ordered tree -/

section Ordered

variable {L : Limits} {format : OpenedFormat} {store : ExtentStore} {shared : Bytes}
  {entryOffset entryLength : Nat}

theorem checkedOrderedKey_agrees {fixedLength : Nat} {previous : Option Bytes}
    (inside : entryOffset + entryLength ≤ payload.length) (small : payload.length < 2 ^ 32)
    (fixed : 4 ≤ fixedLength) (long : fixedLength ≤ entryLength) :
    Agrees (fun left right => left = right ∧ left.2 ≤ entryLength - fixedLength)
      (checkedOrderedKey L shared fixedLength previous payload entryOffset entryLength)
      (decodeOrderedKey L shared fixedLength previous
        (slice payload entryOffset entryLength)) := by
  unfold checkedOrderedKey decodeOrderedKey
  rw [readWord_of (by omega), ok_bind, subWord_of long, ok_bind, readField_slice (by omega) inside,
    ok_bind, slice_length inside, Nat.add_zero]
  generalize readLittleEndian 4 payload entryOffset = suffixLength
  refine .check Iff.rfl fun fits => ?_
  rw [addWord_of (by omega), ok_bind, subspan_of (by omega), ok_bind, view_slice (by omega) inside,
    ok_bind]
  exact .check Iff.rfl fun _ => ⟨rfl, fits⟩

/-- The first of eight bytes as a number. -/
theorem mark_eq {offset : Nat} (inside : offset + 8 ≤ payload.length) :
    ∃ byte : Byte, slice payload offset 8 = byte :: slice payload (offset + 1) 7 ∧
      readLittleEndian 1 payload offset = byte.val := by
  have cut := slice_split payload offset 1 7
  have one : (slice payload offset 1).length = 1 := slice_length (by omega)
  obtain ⟨byte, single⟩ := List.length_eq_one_iff.1 one
  refine ⟨byte, ?_, ?_⟩
  · rw [cut, single]
    rfl
  · rw [readLittleEndian, single]
    simp [ofLittleEndian]

theorem checkedLeafEntry_agrees {previous : Option Bytes} (bounded : L.maxValueBytes < 2 ^ 63)
    (inside : entryOffset + entryLength ≤ payload.length) (small : payload.length < 2 ^ 32)
    (long : 20 ≤ entryLength) :
    Agrees Eq (checkedLeafEntry L format store shared previous payload entryOffset entryLength)
      (decodeLeafEntry L format store shared previous (slice payload entryOffset entryLength)) := by
  refine (checkedOrderedKey_agrees inside small (by decide) long).bind ?_
  rintro ⟨key, suffixLength⟩ _ - ⟨rfl, fits⟩
  dsimp only at fits ⊢
  rw [addWord_of (by omega), ok_bind, addWord_of (by omega), ok_bind, readWord_of (by omega), ok_bind,
    view_slice (by omega) inside, ok_bind]
  rw [show entryOffset + (4 + suffixLength) = entryOffset + 4 + suffixLength by omega]
  have room : entryOffset + 4 + suffixLength + 8 ≤ payload.length := by omega
  obtain ⟨byte, isBytes, isMark⟩ := mark_eq room
  rw [isBytes, isMark]
  generalize place : entryOffset + 4 + suffixLength = representation at *
  dsimp only [List.headD_cons, List.tail_cons]
  have zero : byte.val = 0 ↔ byte = 0 := Fin.val_eq_zero_iff
  have one : byte.val = 1 ↔ byte = 1 :=
    ⟨fun same => Fin.ext same, fun same => congrArg Fin.val same⟩
  refine .check_part (fun accepted => by rw [zero, one]; exact accepted.1) fun known => ?_
  rw [zero, one] at known
  rw [addWord_of (by omega), ok_bind, addWord_of (by omega), ok_bind, readBytes_of (by omega), ok_bind,
    show representation + 8 - (representation + 1) = 7 by omega]
  refine .check ⟨fun padding => ⟨known, padding⟩, fun accepted => accepted.2⟩ fun _ => ?_
  rw [readWord_of (by omega), ok_bind, readField_slice (by omega) inside, ok_bind,
    slice_length inside,
    show entryOffset + (4 + suffixLength + 8) = representation + 8 by omega]
  generalize readLittleEndian 8 payload (representation + 8) = valueLength
  simp only [one]
  refine .check_part (fun accepted => ⟨accepted.1, accepted.2.1⟩) fun lengths => ?_
  have value : (if byte = 1 then 32 else valueLength) < 2 ^ 63 := by
    split <;> omega
  rw [addWord_of (by omega), ok_bind, addWord_of (by omega), ok_bind]
  refine .check ⟨fun whole => ⟨lengths.1, lengths.2, whole⟩, fun accepted => accepted.2.2⟩
    fun accepted => ?_
  have whole := accepted.2.2
  have tail : entryOffset + (4 + suffixLength + 16) = representation + 16 := by omega
  by_cases overflow : byte = 1
  · simp only [overflow, if_true] at whole ⊢
    rw [addWord_of (by omega), ok_bind, subspan_of (by omega), ok_bind, view_slice (by omega) inside,
      ok_bind, tail]
    refine (Agrees.settled _).bind ?_
    rintro value _ - rfl
    rfl
  · simp only [overflow, if_false] at whole ⊢
    rw [addWord_of (by omega), ok_bind, subspan_of (by omega), ok_bind, view_slice (by omega) inside,
      ok_bind, tail]
    rfl

theorem checkedLeafStep_agrees {state : List MutableTreeValue × OrderedLoad}
    (bounded : L.maxValueBytes < 2 ^ 63) (inside : entryOffset + entryLength ≤ payload.length)
    (small : payload.length < 2 ^ 32) (long : 20 ≤ entryLength) :
    Agrees Eq (checkedLeafStep L format store shared payload state entryOffset entryLength)
      (orderedLeafStep L format store shared state (slice payload entryOffset entryLength)) := by
  refine (checkedLeafEntry_agrees bounded inside small long).bind ?_
  rintro item _ - rfl
  refine (Agrees.settled _).bind ?_
  rintro load _ - rfl
  rfl

theorem checkedSeparatorStep_agrees {items : List (Bytes × ExtentReference)}
    (inside : entryOffset + entryLength ≤ payload.length) (small : payload.length < 2 ^ 32)
    (long : 36 ≤ entryLength) :
    Agrees Eq (checkedSeparatorStep L shared payload items entryOffset entryLength)
      (collectStep (fun items => decodeSeparator L shared (previousKey Prod.fst items)) items
        (slice payload entryOffset entryLength)) := by
  unfold checkedSeparatorStep collectStep decodeSeparator
  simp only [bind_assoc]
  refine (checkedOrderedKey_agrees inside small (by decide) long).bind ?_
  rintro ⟨key, suffixLength⟩ _ - ⟨rfl, fits⟩
  rw [addWord_of (by omega), ok_bind, addWord_of (by omega), ok_bind, subspan_of (by omega), ok_bind,
    view_slice (by omega) inside, ok_bind]
  rw [show entryOffset + (4 + suffixLength) = entryOffset + 4 + suffixLength by omega]
  rfl

/-- What the loader of the ordered tree computes from a payload. -/
def orderedPage (L : Limits) (format : OpenedFormat) (store : ExtentStore) (kind expectedLevel : Nat)
    (state : OrderedLoad) (payload : Bytes) : Except LoadError OrderedPage := do
  let header := readPageHeader payload
  require (.corrupt (orderedRole.subject ++ " page header is invalid"))
    (header.Matches orderedRole kind expectedLevel)
  require (.corrupt (orderedRole.subject ++ " page bounds are invalid"))
    (header.Bounded orderedRole payload)
  if header.type = 1 then
    let ((values, state), stop) ← walkPage orderedRole 20 payload header
      (orderedLeafStep L format store (sharedPrefix payload header)) ([], state)
    require (.corrupt "ordered page image is noncanonical")
      (stop = header.usedLength ∧ leafSharedLength values = header.prefixLength)
    pure (.leaf values state)
  else
    let children ← pageChildren L payload header
    pure (.inner children)

theorem parseOrderedPage_agrees {kind expectedLevel : Nat} {state : OrderedLoad}
    (bounded : L.maxValueBytes < 2 ^ 63) (long : pageLayoutBytes ≤ payload.length)
    (small : payload.length < 2 ^ 32) :
    Agrees Eq (parseOrderedPage L format store kind expectedLevel state payload)
      (orderedPage L format store kind expectedLevel state payload) := by
  unfold parseOrderedPage orderedPage
  refine checkedFrame_agrees (T := orderedRole) long fun _ regions => ?_
  generalize readPageHeader payload = header at *
  have within := regions.used.2
  have region := regions.slots
  have entries := regions.entries
  have above := regions.used.1
  rw [subspan_of (by omega), ok_bind]
  unfold pageChildren walkPage sharedPrefix
  split
  · refine (checkedSlots_agrees (R := Eq) small within ?_ 0 (by omega) rfl).bind ?_
    · rintro state _ entryOffset entryLength rfl long inside
      exact checkedLeafStep_agrees bounded (by omega) small long
    · rintro ⟨⟨values, load⟩, stop⟩ ⟨_, _⟩ - ⟨rfl, rfl⟩
      exact .check Iff.rfl fun _ => rfl
  · rw [bind_assoc]
    refine (checkedSlots_agrees (R := Eq) small within ?_ 0 (by omega) rfl).bind ?_
    · rintro state _ entryOffset entryLength rfl long inside
      exact checkedSeparatorStep_agrees (by omega) small long
    · rintro ⟨separators, stop⟩ ⟨_, _⟩ - ⟨rfl, rfl⟩
      rw [bind_assoc]
      exact .check Iff.rfl fun _ => rfl

end Ordered

/-! ## The prefix found so far -/

/-- `canonicalPrefixLength` behind some keys, which are the first bytes of arrays. -/
def scannedLength (size : Nat) (arrays : List Bytes) : Nat :=
  if arrays = [] then size else sharedPrefixLength (arrays.map (List.take size))

theorem scannedLength_cons (size : Nat) (first : Bytes) (rest : List Bytes) :
    scannedLength size (first :: rest) =
      sharedPrefixLength (first.take size :: rest.map (List.take size)) :=
  if_neg (List.cons_ne_nil _ _)

theorem scannedLength_le {size : Nat} {arrays : List Bytes} : scannedLength size arrays ≤ size := by
  cases arrays with
  | nil => exact Nat.le_refl size
  | cons first rest =>
    rw [scannedLength_cons]
    have bound := (le_sharedPrefixLength.1 (Nat.le_refl
      (sharedPrefixLength (first.take size :: rest.map (List.take size))))).1
    rw [List.length_take] at bound
    omega

/-- One more key shortens the prefix to what it shares with the first. -/
theorem sharedPrefixLength_concat (first key : Bytes) (rest : List Bytes) :
    sharedPrefixLength (first :: (rest ++ [key])) =
      min (sharedPrefixLength (first :: rest)) (commonPrefixLength first key) := by
  rw [sharedPrefixLength, List.foldl_append, List.foldl_cons, List.foldl_nil, ← sharedPrefixLength,
    commonPrefixLength_take]
  omega

theorem checkedCommonPrefix_eq {size : Nat} {arrays : List Bytes} {array : Bytes}
    (sizes : ∀ other ∈ arrays, size ≤ other.length) (long : size ≤ array.length) :
    checkedCommonPrefix arrays.head? array (scannedLength size arrays) =
      .ok (scannedLength size (arrays ++ [array])) := by
  cases arrays with
  | nil =>
    have single : scannedLength size [array] = size := by
      rw [scannedLength_cons, sharedPrefixLength, List.map_nil, List.foldl_nil, List.length_take]
      omega
    rw [List.nil_append, single]
    rfl
  | cons first rest =>
    have short : scannedLength size (first :: rest) ≤ size := scannedLength_le
    have firstLong := sizes first List.mem_cons_self
    have same : commonPrefixLength (slice first 0 (scannedLength size (first :: rest)))
        (slice array 0 (scannedLength size (first :: rest))) =
          scannedLength size (first :: rest ++ [array]) := by
      rw [List.cons_append, scannedLength_cons size first (rest ++ [array]), List.map_append,
        List.map_singleton, sharedPrefixLength_concat, ← scannedLength_cons, commonPrefixLength_take,
        slice, slice, List.drop_zero, List.drop_zero, commonPrefixLength_take]
      omega
    rw [List.head?_cons]
    unfold checkedCommonPrefix
    dsimp only
    rw [subspan_of (by omega), ok_bind, subspan_of (by omega), ok_bind, same]
    rfl

/-! ## Fixed-key trees -/

section Fixed

variable {L : Limits} {format : OpenedFormat} {T : TreeRole} {size : Nat} {shared : Bytes}
  {entryOffset entryLength : Nat}

/-- The keys of a tree have one size; ordinals are read as words. -/
structure TreeRole.Sized (T : TreeRole) (size : Nat) : Prop where
  isSize : T.keySize = some size
  isSubject : T.subject = "fixed-key"
  short : size ≤ 16
  ordinals : T.role = 3 → 8 ≤ size

theorem catalogRole_sized : catalogRole.Sized 16 := 
  ⟨rfl, rfl, Nat.le_refl _, fun same => by cases same⟩

theorem chunkIndexRole_sized (owner : Bytes) : (chunkIndexRole owner).Sized 8 :=
  ⟨rfl, rfl, by decide, fun _ => Nat.le_refl _⟩

/-- The state of the loop and the entries of the model. -/
structure FixedScan.Follows (size : Nat) (scan : FixedScan) (items : List FixedLeafEntry) :
    Prop where
  items_eq : scan.items = items
  sizes : ∀ item ∈ items, item.key.length = size
  canonical : scan.canonicalPrefixLength = scannedLength size (items.map FixedLeafEntry.key)

theorem checkedKeyOrder_agrees {γ δ : Type} {S : γ → δ → Prop} {previous : Option Bytes}
    {key : Bytes} {next : Unit → Checked LoadError γ} {after : Unit → Except LoadError δ}
    (sized : T.Sized size) (sizes : ∀ before ∈ previous, before.length = size)
    (isSize : key.length = size) (rest : Agrees S (next ()) (after ())) :
    Agrees S (checkedKeyOrder T.role previous key >>= next)
      (require (.corrupt "fixed-key page keys are not canonical")
        (∀ before ∈ previous, fixedTreeKeyLess T.role before key) >>= after) := by
  cases previous with
  | none =>
    rw [require_of (by simp), ok_bind]
    exact rest
  | some before =>
    have less : checkedKeyLess T.role before key = .ok (fixedTreeKeyLess T.role before key) := by
      unfold checkedKeyLess fixedTreeKeyLess
      split
      · rename_i ordinal
        have wide := sized.ordinals ordinal
        have isBefore := sizes before rfl
        rw [readWord_of (by omega), ok_bind, readWord_of (by omega), ok_bind]
        rfl
      · rfl
    unfold checkedKeyOrder
    dsimp only
    rw [less, ok_bind]
    exact .check (by simp) fun _ => rest

/-- One entry of the model, with the check of a leaf. -/
def fixedEntry (L : Limits) (format : OpenedFormat) (T : TreeRole) (leaf : Bool) (shared : Bytes)
    (items : List FixedLeafEntry) (entry : Bytes) : Except LoadError FixedLeafEntry :=
  if leaf then decodeFixedLeafEntry L format T shared (previousKey FixedLeafEntry.key items) entry
  else decodeFixedEntry T shared (previousKey FixedLeafEntry.key items) entry

theorem FixedScan.Follows.nil : FixedScan.Follows size { items := [], canonicalPrefixLength := size } [] :=
  ⟨rfl, fun _ member => absurd member List.not_mem_nil, rfl⟩

theorem FixedScan.Follows.concat {items : List FixedLeafEntry} {item : FixedLeafEntry}
    (sizes : ∀ other ∈ items, other.key.length = size) (isSize : item.key.length = size) :
    FixedScan.Follows size
      { items := items ++ [item]
        canonicalPrefixLength := scannedLength size (items.map FixedLeafEntry.key ++ [item.key]) }
      (items ++ [item]) := by
  refine ⟨rfl, fun other member => ?_, by rw [List.map_append, List.map_singleton]⟩
  rcases List.mem_append.1 member with before | last
  · exact sizes other before
  · rw [List.mem_singleton.1 last]
    exact isSize

theorem checkedFixedStep_agrees {leaf : Bool} {scan : FixedScan} {items : List FixedLeafEntry}
    (sized : T.Sized size) (sharedShort : shared.length ≤ size)
    (inside : entryOffset + entryLength ≤ payload.length) (small : payload.length < 2 ^ 32)
    (long : 36 ≤ entryLength) (follows : scan.Follows size items) :
    Agrees (FixedScan.Follows size)
      (checkedFixedStep L format T leaf shared payload scan entryOffset entryLength)
      (collectStep (fixedEntry L format T leaf shared) items
        (slice payload entryOffset entryLength)) := by
  obtain ⟨isItems, sizes, isCanonical⟩ := follows
  have short := sized.short
  have model : fixedEntry L format T leaf shared items (slice payload entryOffset entryLength) =
      (do
        let item ← decodeFixedEntry T shared (previousKey FixedLeafEntry.key items)
          (slice payload entryOffset entryLength)
        if leaf then validateExtentReference L format item.reference
        pure item) := by
    cases leaf with
    | true => rfl
    | false => exact (bind_pure _).symm
  unfold checkedFixedStep collectStep
  rw [model, isItems, isCanonical]
  unfold decodeFixedEntry
  simp only [bind_assoc]
  rw [readWord_of (by omega), ok_bind, readField_slice (by omega) inside, ok_bind,
    slice_length inside, Nat.add_zero]
  have word : readLittleEndian 4 payload entryOffset < 2 ^ 32 := readLittleEndian_lt
  generalize readLittleEndian 4 payload entryOffset = suffixLength at *
  rw [addWord_of (by omega), ok_bind]
  refine .check_part (fun accepted => accepted.1) fun whole => ?_
  rw [addWord_of (by omega), ok_bind]
  refine .check ⟨fun fits => ⟨whole, fits⟩, fun accepted => accepted.2⟩ fun accepted => ?_
  have isSize : shared.length + suffixLength = size := by
    rw [sized.isSize] at accepted
    exact Option.some.inj accepted.2
  rw [addWord_of (by omega), ok_bind, subspan_of (by omega), ok_bind, view_slice (by omega) inside,
    ok_bind]
  have keySize : (shared ++ slice payload (entryOffset + 4) suffixLength).length = size := by
    rw [List.length_append, slice_length (by omega), isSize]
  generalize shared ++ slice payload (entryOffset + 4) suffixLength = key at *
  have previous : ∀ before ∈ previousKey FixedLeafEntry.key items, before.length = size := by
    intro before member
    obtain ⟨item, last, rfl⟩ := Option.map_eq_some_iff.1 member
    exact sizes item (List.mem_of_getLast? last)
  refine checkedKeyOrder_agrees sized previous keySize ?_
  have arrays : ∀ other ∈ items.map FixedLeafEntry.key, size ≤ other.length := by
    intro other member
    obtain ⟨item, among, rfl⟩ := List.mem_map.1 member
    exact (sizes item among).ge
  rw [← List.head?_map, checkedCommonPrefix_eq arrays keySize.ge, ok_bind, addWord_of (by omega),
    ok_bind, addWord_of (by omega), ok_bind, subspan_of (by omega), ok_bind,
    view_slice (by omega) inside, ok_bind,
    show entryOffset + (4 + suffixLength) = entryOffset + 4 + suffixLength by omega]
  refine .check Iff.rfl fun _ => ?_
  cases leaf with
  | true =>
    rw [if_pos rfl, pure_bind, if_pos rfl, bind_assoc]
    refine (Agrees.settled _).bind fun _ _ _ _ => ?_
    exact .concat sizes keySize
  | false => exact .concat sizes keySize

theorem scannedLength_eq {keys : List Bytes} (filled : keys ≠ [])
    (sizes : ∀ key ∈ keys, key.length = size) :
    scannedLength size keys = sharedPrefixLength keys := by
  have whole : keys.map (List.take size) = keys := by
    rw [List.map_congr_left fun key member => List.take_of_length_le (sizes key member).le,
      List.map_id']
  rw [scannedLength, if_neg filled, whole]

/-- The entries of a page in the model. -/
def fixedEntries (L : Limits) (format : OpenedFormat) (T : TreeRole) (leaf : Bool)
    (header : PageHeader) (payload : Bytes) : Except LoadError (List FixedLeafEntry) := do
  let (entries, stop) ← walkPage T 36 payload header
    (collectStep (fixedEntry L format T leaf (sharedPrefix payload header))) []
  require (.corrupt "fixed-key page image is noncanonical") (fixedImageOk header entries stop)
  pure entries

theorem checkedFixedEntries_agrees {leaf : Bool} {header : PageHeader} (sized : T.Sized size)
    (regions : header.Regions T.keySize payload) (small : payload.length < 2 ^ 32) :
    Agrees Eq (checkedFixedEntries L format T leaf header (sharedPrefix payload header) payload)
      (fixedEntries L format T leaf header payload) := by
  have slots := regions.slots
  have entries := regions.entries
  obtain ⟨above, within⟩ := regions.used
  unfold checkedFixedEntries fixedEntries walkPage
  rw [sized.isSubject]
  by_cases empty : header.entryCount = 0
  · rw [empty]
    exact .check Iff.rfl fun _ => rfl
  rw [if_neg empty, sized.isSize, Option.getD_some]
  have sharedShort : (sharedPrefix payload header).length ≤ size := by
    rw [sharedPrefix, slice_length (by omega)]
    exact regions.keys size sized.isSize
  refine (checkedSlots_agrees small within ?_ 0 (by omega) FixedScan.Follows.nil).bind ?_
  · intro scan items entryOffset entryLength follows long inside
    exact checkedFixedStep_agrees sized sharedShort (by omega) small long follows
  rintro ⟨scan, stop⟩ ⟨items, _⟩ walked ⟨follows, rfl⟩
  have count := walkSlots_length walked
  rw [List.length_nil, Nat.zero_add] at count
  have filled : items.map FixedLeafEntry.key ≠ [] := by
    intro none
    rw [List.map_eq_nil_iff.1 none] at count
    exact empty count.symm
  have sizes : ∀ key ∈ items.map FixedLeafEntry.key, key.length = size := by
    intro key member
    obtain ⟨item, among, rfl⟩ := List.mem_map.1 member
    exact follows.sizes item among
  dsimp only
  rw [follows.items_eq, follows.canonical, scannedLength_eq filled sizes]
  exact .check Iff.rfl fun _ => rfl

/-- What the loader of a fixed-key tree computes from a payload. -/
def fixedPage (L : Limits) (format : OpenedFormat) (T : TreeRole) (kind expectedLevel : Nat)
    (payload : Bytes) : Except LoadError FixedPage := do
  let header := readPageHeader payload
  require (.corrupt (T.subject ++ " page header is invalid")) (header.Matches T kind expectedLevel)
  require (.corrupt (T.subject ++ " page bounds are invalid")) (header.Bounded T payload)
  if header.type = 1 then
    let entries ← fixedEntries L format T true header payload
    pure (.leaf entries)
  else
    let leftmost := decodeExtentReference header.leftmostChild
    require (.corrupt "fixed-key internal page has a null child") (leftmost.null = false)
    let separators ← fixedEntries L format T false header payload
    pure (.inner (([], leftmost) :: separators.map fun item => (item.key, item.reference)))

theorem parseFixedTreePage_agrees {kind expectedLevel : Nat} (sized : T.Sized size)
    (long : pageLayoutBytes ≤ payload.length) (small : payload.length < 2 ^ 32) :
    Agrees Eq (parseFixedTreePage L format T kind expectedLevel payload)
      (fixedPage L format T kind expectedLevel payload) := by
  unfold parseFixedTreePage fixedPage
  refine checkedFrame_agrees long fun _ regions => ?_
  generalize readPageHeader payload = header at *
  have slots := regions.slots
  have entries := regions.entries
  obtain ⟨above, within⟩ := regions.used
  rw [subspan_of (by omega), ok_bind, ← sharedPrefix]
  split
  · refine (checkedFixedEntries_agrees sized regions small).bind ?_
    rintro entries _ - rfl
    rfl
  · refine .check Iff.rfl fun _ => (checkedFixedEntries_agrees sized regions small).bind ?_
    rintro separators _ - rfl
    rfl

end Fixed

/-! ## The loaders -/

section Loaders

variable {L : Limits} {format : OpenedFormat} {store : ExtentStore} {T : TreeRole}
  {reference : ExtentReference}

/-- A loader reads the payload and goes on with the parsing. -/
theorem openTreePage_bind {γ : Type} {expectedLevel : Nat}
    {next : Bytes × PageHeader → Except LoadError γ} {parse : Nat × Bytes → Except LoadError γ}
    (parses : ∀ kind payload, parse (kind, payload) = do
      require (.corrupt (T.subject ++ " page header is invalid"))
        ((readPageHeader payload).Matches T kind expectedLevel)
      require (.corrupt (T.subject ++ " page bounds are invalid"))
        ((readPageHeader payload).Bounded T payload)
      next (payload, readPageHeader payload)) :
    openTreePage L format store T expectedLevel reference >>= next =
      readTreePage L format store T expectedLevel reference >>= parse := by
  unfold openTreePage
  simp only [bind_assoc, pure_bind]
  exact congrArg _ (funext fun page => (parses page.1 page.2).symm)

/-- What follows a header check may use the header. -/
theorem require_bind_congr {γ : Type} {error : LoadError} {condition : Prop} [Decidable condition]
    {next other : Unit → Except LoadError γ} (same : condition → next () = other ()) :
    (require error condition >>= next) = require error condition >>= other := by
  by_cases holds : condition
  · rw [require_of holds, ok_bind, ok_bind, same holds]
  · rw [require, if_neg holds]
    rfl

theorem PageHeader.Matches.leaf {header : PageHeader} {kind : Nat}
    (accepted : header.Matches T kind 0) : header.type = 1 := by
  obtain ⟨-, -, -, -, -, -, isLevel, leaf, -, -⟩ := accepted
  exact leaf.2 isLevel

theorem PageHeader.Matches.inner {header : PageHeader} {kind level : Nat}
    (accepted : header.Matches T kind (level + 1)) : ¬header.type = 1 := by
  obtain ⟨-, -, -, -, -, -, isLevel, leaf, -, -⟩ := accepted
  intro isLeaf
  rw [leaf.1 isLeaf] at isLevel
  exact Nat.succ_ne_zero level isLevel.symm

theorem loadOrderedLeaf_eq (state : OrderedLoad) :
    (loadOrderedLeaf L format store reference state >>= fun loaded =>
      pure (OrderedPage.leaf loaded.1 loaded.2)) =
    (readTreePage L format store orderedRole 0 reference >>= fun page =>
      orderedPage L format store page.1 0 { state with reachable := state.reachable ++ [reference] }
        page.2) := by
  unfold loadOrderedLeaf
  rw [bind_assoc]
  apply openTreePage_bind
  intro kind payload
  refine require_bind_congr fun accepted => require_bind_congr fun _ => ?_
  rw [if_pos accepted.leaf]
  simp only [bind_assoc, pure_bind]

theorem orderedChildren_eq (level : Nat) (state : OrderedLoad) :
    (orderedChildren L format store (level + 1) reference >>= fun children =>
      pure (OrderedPage.inner children)) =
    (readTreePage L format store orderedRole (level + 1) reference >>= fun page =>
      orderedPage L format store page.1 (level + 1) state page.2) := by
  unfold orderedChildren
  rw [bind_assoc]
  apply openTreePage_bind
  intro kind payload
  refine require_bind_congr fun accepted => require_bind_congr fun _ => ?_
  rw [if_neg accepted.inner]

theorem fixedLeafEntries_eq :
    (fixedLeafEntries L format store T reference >>= fun entries => pure (FixedPage.leaf entries)) =
    (readTreePage L format store T 0 reference >>= fun page =>
      fixedPage L format T page.1 0 page.2) := by
  unfold fixedLeafEntries
  rw [bind_assoc]
  apply openTreePage_bind
  intro kind payload
  unfold fixedPage fixedEntries fixedEntry
  refine require_bind_congr fun accepted => require_bind_congr fun _ => ?_
  rw [if_pos accepted.leaf]
  simp only [bind_assoc, pure_bind, if_true]

theorem fixedChildren_eq (level : Nat) :
    (fixedChildren L format store T (level + 1) reference >>= fun children =>
      pure (FixedPage.inner children)) =
    (readTreePage L format store T (level + 1) reference >>= fun page =>
      fixedPage L format T page.1 (level + 1) page.2) := by
  unfold fixedChildren
  rw [bind_assoc]
  apply openTreePage_bind
  intro kind payload
  unfold fixedPage fixedEntries fixedEntry
  refine require_bind_congr fun accepted => require_bind_congr fun _ => ?_
  rw [if_neg accepted.inner]
  simp only [bind_assoc, pure_bind, Bool.false_eq_true, if_false]

end Loaders

end Miare
