import Miare.Page.Parse
import Miare.Misc.Keyed

/-!
# The page frame: what was encoded is read back
-/

namespace Miare

open Misc

/-! ## References -/

/-- The fields of a reference are `std::uint64_t`. -/
def ExtentReference.Fits (reference : ExtentReference) : Prop :=
  reference.blockIndex < 2 ^ 64 ∧ reference.blockCount < 2 ^ 64 ∧
    reference.encodedLength < 2 ^ 64 ∧ reference.creationGeneration < 2 ^ 64

theorem eq_default_of_null {reference : ExtentReference} (null : reference.null = true) :
    reference = {} := by
  obtain ⟨index, count, length, generation⟩ := reference
  simp only [ExtentReference.null, Bool.and_eq_true, beq_iff_eq] at null
  obtain ⟨⟨⟨rfl, rfl⟩, rfl⟩, rfl⟩ := null
  rfl

@[simp] theorem encodeExtentReference_length (reference : ExtentReference) :
    (encodeExtentReference reference).length = 32 := by
  simp [encodeExtentReference]

theorem decodeExtentReference_encode {reference : ExtentReference} (fits : reference.Fits) :
    decodeExtentReference (encodeExtentReference reference) = reference := by
  obtain ⟨index, count, length, generation⟩ := fits
  have width : (256 : Nat) ^ 8 = 2 ^ 64 := by norm_num
  simp only [decodeExtentReference, readLittleEndian, encodeExtentReference, List.append_assoc]
  rw [slice_append_left (by simp), slice_append_right (by simp), slice_append_left (by simp),
    slice_append_right (by simp), slice_append_right (by simp), slice_append_left (by simp),
    slice_append_right (by simp), slice_append_right (by simp), slice_append_right (by simp)]
  simp only [toLittleEndian_length, Nat.sub_self, Nat.reduceSub]
  have whole (value : Nat) (small : value < 2 ^ 64) :
      ofLittleEndian (slice (toLittleEndian 8 value) 0 8) = value := by
    have all := slice_all (toLittleEndian 8 value)
    rw [toLittleEndian_length] at all
    rw [all, ofLittleEndian_toLittleEndian (width ▸ small)]
  rw [whole _ index, whole _ count, whole _ length, whole _ generation]

theorem decodeExtentReference_fits (bytes : Bytes) : (decodeExtentReference bytes).Fits := by
  have width : (256 : Nat) ^ 8 = 2 ^ 64 := by norm_num
  have below (offset : Nat) : readLittleEndian 8 bytes offset < 2 ^ 64 :=
    width ▸ readLittleEndian_lt
  exact ⟨below 0, below 8, below 16, below 24⟩

/-! ## The header -/

/-- The header that `encodePage` writes. -/
def encodedHeader (type role level : Nat) (leftmostChild shared : Bytes) (entries : List Bytes) :
    PageHeader where
  magic := pageMagic
  version := 1
  type := type
  headerLength := pageLayoutBytes
  role := role
  level := level
  entryCount := entries.length
  prefixLength := shared.length
  slotsOffset := pageLayoutBytes + shared.length
  entriesOffset := pageLayoutBytes + shared.length + entries.length * 8
  usedLength := pageUsedLength shared.length entries
  flags := 0
  leftmostChild := leftmostChild
  reserved := List.replicate 16 0

theorem noChild_length : noChild.length = 32 := rfl

theorem encodePageHeader_length (type role level sharedLength : Nat) (entries : List Bytes)
    {leftmostChild : Bytes} (child : leftmostChild.length = 32) :
    (encodePageHeader type role level leftmostChild sharedLength entries).length = 96 := by
  simp [encodePageHeader, pageMagic, child]

theorem readPageHeader_encodePage {L : Limits} {type role level : Nat}
    {leftmostChild shared : Bytes} {entries : List Bytes} (child : leftmostChild.length = 32)
    (typeFits : type < 2 ^ 16) (roleFits : role < 2 ^ 32) (levelFits : level < 2 ^ 32)
    (used : pageUsedLength shared.length entries < 2 ^ 32) :
    readPageHeader (encodePage L type role level leftmostChild shared entries) =
      encodedHeader type role level leftmostChild shared entries := by
  have magic : pageMagic.length = 8 := rfl
  have four {value : Nat} (small : value < 2 ^ 32) :
      ofLittleEndian (toLittleEndian 4 value) = value :=
    ofLittleEndian_toLittleEndian (by norm_num; exact small)
  have two {value : Nat} (small : value < 2 ^ 16) :
      ofLittleEndian (toLittleEndian 2 value) = value :=
    ofLittleEndian_toLittleEndian (by norm_num; exact small)
  have bounds : entries.length < 2 ^ 32 ∧ shared.length < 2 ^ 32 ∧
      pageLayoutBytes + shared.length < 2 ^ 32 ∧
      pageLayoutBytes + shared.length + entries.length * 8 < 2 ^ 32 := by
    unfold pageUsedLength at used
    omega
  have whole (width value : Nat) : slice (toLittleEndian width value) 0 width =
      toLittleEndian width value := by
    have all := slice_all (toLittleEndian width value)
    rwa [toLittleEndian_length] at all
  have wholeMagic : slice pageMagic 0 8 = pageMagic := rfl
  have wholeChild : slice leftmostChild 0 32 = leftmostChild := by
    rw [← child]
    exact slice_all _
  have wholeReserved : slice (List.replicate 16 (0 : Byte)) 0 16 = List.replicate 16 0 := rfl
  simp [readPageHeader, readLittleEndian, encodedHeader, encodePage, encodePageHeader,
    List.append_assoc, slice_append_right, slice_append_left, magic, child, whole, wholeMagic,
    wholeChild, wholeReserved, four bounds.1, four bounds.2.1, four bounds.2.2.1,
    four bounds.2.2.2, four used, four roleFits, four levelFits, two typeFits,
    two (show 1 < 2 ^ 16 by norm_num), four (show pageLayoutBytes < 2 ^ 32 by decide),
    four (show 0 < 2 ^ 32 by norm_num), -List.reduceReplicate]

theorem encodeSlots_length (position : Nat) (entries : List Bytes) :
    (encodeSlots position entries).length = entries.length * 8 := by
  induction entries generalizing position with
  | nil => rfl
  | cons entry rest ih =>
    simp only [encodeSlots, List.length_append, toLittleEndian_length, ih, List.length_cons]
    omega

theorem flatten_length (entries : List Bytes) : entries.flatten.length = entriesLength entries := by
  simp [entriesLength]

theorem length_le_entriesLength {entries : List Bytes} {entry : Bytes} (member : entry ∈ entries) :
    entry.length ≤ entriesLength entries :=
  List.le_sum_of_mem (List.mem_map_of_mem member)

theorem encodePage_length {L : Limits} {type role level : Nat} {leftmostChild shared : Bytes}
    {entries : List Bytes} (child : leftmostChild.length = 32)
    (used : pageUsedLength shared.length entries ≤ L.pagePayloadBytes) :
    (encodePage L type role level leftmostChild shared entries).length = L.pagePayloadBytes := by
  have header := encodePageHeader_length type role level shared.length entries child
  simp only [encodePage, List.length_append, header, encodeSlots_length, flatten_length,
    List.length_replicate]
  unfold pageUsedLength pageLayoutBytes at *
  omega

/-- The regions of a page behind its header. -/
theorem encodePage_regions {L : Limits} {type role level : Nat} {leftmostChild shared : Bytes}
    {entries : List Bytes} (child : leftmostChild.length = 32) :
    slice (encodePage L type role level leftmostChild shared entries) pageLayoutBytes
        shared.length = shared ∧
      slice (encodePage L type role level leftmostChild shared entries)
        (pageLayoutBytes + shared.length) (entries.length * 8) =
          encodeSlots (pageLayoutBytes + shared.length + entries.length * 8) entries ∧
      slice (encodePage L type role level leftmostChild shared entries)
        (pageLayoutBytes + shared.length + entries.length * 8) (entriesLength entries) =
          entries.flatten ∧
      (encodePage L type role level leftmostChild shared entries).drop
        (pageUsedLength shared.length entries) =
          List.replicate (L.pagePayloadBytes - pageUsedLength shared.length entries) 0 := by
  have header := encodePageHeader_length type role level shared.length entries child
  have slots := encodeSlots_length (pageLayoutBytes + shared.length + entries.length * 8) entries
  refine ⟨?_, ?_, ?_, ?_⟩
  · simp only [encodePage, List.append_assoc]
    exact slice_append_here header.symm rfl
  · simp only [encodePage, List.append_assoc]
    rw [← List.append_assoc]
    exact slice_append_here (by simp [header, pageLayoutBytes]) slots.symm
  · simp only [encodePage, List.append_assoc]
    rw [← List.append_assoc, ← List.append_assoc]
    exact slice_append_here (by simp [header, pageLayoutBytes, encodeSlots_length, Nat.add_assoc])
      (flatten_length entries).symm
  · unfold encodePage
    rw [List.drop_left']
    simp only [List.length_append, header, encodeSlots_length, flatten_length, pageUsedLength,
      pageLayoutBytes]

/-! ## The slots -/

theorem view_of {bytes : Bytes} {offset length : Nat} (inside : offset + length ≤ bytes.length) :
    view bytes offset length = .ok (slice bytes offset length) :=
  if_pos inside

theorem view_eq_ok {bytes result : Bytes} {offset length : Nat} :
    view bytes offset length = .ok result ↔
      offset + length ≤ bytes.length ∧ slice bytes offset length = result := by
  unfold view
  split <;> simp_all

theorem readField_of {width offset : Nat} {bytes : Bytes}
    (inside : offset + width ≤ bytes.length) :
    readField width bytes offset = .ok (readLittleEndian width bytes offset) := by
  rw [readField, view_of inside]
  rfl

theorem readField_eq_ok {width offset value : Nat} {bytes : Bytes} :
    readField width bytes offset = .ok value ↔
      offset + width ≤ bytes.length ∧ readLittleEndian width bytes offset = value := by
  unfold readField readLittleEndian
  rw [bind_eq_ok]
  constructor
  · rintro ⟨field, viewed, same⟩
    obtain ⟨inside, rfl⟩ := view_eq_ok.1 viewed
    exact ⟨inside, Except.ok.inj same⟩
  · rintro ⟨inside, rfl⟩
    exact ⟨_, view_of inside, rfl⟩

/-- A walk over slots that name the given entries back to back is a fold over these entries. -/
theorem walkSlots_entries {σ : Type} {slotError : String} {minimumLength usedLength : Nat}
    {payload : Bytes} {step : σ → Bytes → Except LoadError σ} {entries : List Bytes}
    {slot position : Nat} {state : σ}
    (slots : slice payload slot (entries.length * 8) = encodeSlots position entries)
    (bodies : slice payload position (entriesLength entries) = entries.flatten)
    (slotsInside : slot + entries.length * 8 ≤ payload.length)
    (inside : position + entriesLength entries ≤ usedLength)
    (usedInside : usedLength ≤ payload.length) (small : usedLength < 2 ^ 32)
    (long : ∀ entry ∈ entries, minimumLength ≤ entry.length) :
    walkSlots slotError minimumLength payload usedLength step entries.length slot position state =
      (do
        let last ← entries.foldlM step state
        pure (last, position + entriesLength entries)) := by
  induction entries generalizing slot position state with
  | nil => rfl
  | cons entry rest ih =>
    have total : entriesLength (entry :: rest) = entry.length + entriesLength rest := by
      simp [entriesLength]
    rw [total] at inside bodies
    rw [List.length_cons] at slots slotsInside
    have lengths : (rest.length + 1) * 8 = 4 + (4 + rest.length * 8) := by omega
    rw [lengths, encodeSlots, List.append_assoc] at slots
    -- the slot holds the position and the length of the entry
    obtain ⟨offsetBytes, slots⟩ := slice_eq_append slots (toLittleEndian_length 4 position)
    obtain ⟨lengthBytes, slots⟩ := slice_eq_append slots (toLittleEndian_length 4 entry.length)
    rw [List.flatten_cons] at bodies
    obtain ⟨body, bodies⟩ := slice_eq_append bodies rfl
    have four {value : Nat} (fits : value < 2 ^ 32) :
        ofLittleEndian (toLittleEndian 4 value) = value :=
      ofLittleEndian_toLittleEndian (by norm_num; exact fits)
    have offsetField : readField 4 payload slot = .ok position := by
      rw [readField_of (by omega), readLittleEndian, offsetBytes, four (by omega)]
    have lengthField : readField 4 payload (slot + 4) = .ok entry.length := by
      rw [readField_of (by omega), readLittleEndian, lengthBytes, four (by omega)]
    have accepted : position = position ∧ minimumLength ≤ entry.length ∧ position ≤ usedLength ∧
        entry.length ≤ usedLength - position :=
      ⟨rfl, long entry List.mem_cons_self, by omega, by omega⟩
    have tail (next : σ) :
        walkSlots slotError minimumLength payload usedLength step rest.length (slot + 8)
            (position + entry.length) next =
          (do
            let last ← rest.foldlM step next
            pure (last, position + entry.length + entriesLength rest)) :=
      ih slots bodies (by omega) (by omega)
        fun other member => long other (List.mem_cons_of_mem _ member)
    rw [List.length_cons, walkSlots, offsetField, ok_bind, lengthField, ok_bind,
      require_of accepted, ok_bind, view_of (by omega), body, ok_bind, List.foldlM_cons,
      bind_assoc, total, ← Nat.add_assoc]
    simp only [tail]

/-! ## Walks that collect items -/

/-- An entry that a slot names and the loop accepts. -/
structure SlotEntry (minimumLength : Nat) (payload : Bytes) (usedLength slot position : Nat)
    (length : Nat) (entry : Bytes) : Prop where
  offset : readField 4 payload slot = .ok position
  sized : readField 4 payload (slot + 4) = .ok length
  accepted : position = position ∧ minimumLength ≤ length ∧ position ≤ usedLength ∧
    length ≤ usedLength - position
  viewed : view payload position length = .ok entry

section Walks

variable {σ τ : Type} {slotError : String} {minimumLength usedLength : Nat} {payload : Bytes}
  {step : σ → Bytes → Except LoadError σ} {count slot position stop : Nat} {state last : σ}

/-- One turn of the loop. -/
theorem walkSlots_succ {result : σ × Nat} :
    walkSlots slotError minimumLength payload usedLength step (count + 1) slot position state =
        .ok result ↔
      ∃ length entry next,
        SlotEntry minimumLength payload usedLength slot position length entry ∧
        step state entry = .ok next ∧
        walkSlots slotError minimumLength payload usedLength step count (slot + 8)
          (position + length) next = .ok result := by
  rw [walkSlots]
  constructor
  · intro walked
    obtain ⟨entryOffset, offset, walked⟩ := bind_eq_ok.1 walked
    obtain ⟨entryLength, length, walked⟩ := bind_eq_ok.1 walked
    obtain ⟨⟨rfl, accepted⟩, walked⟩ := require_bind_eq_ok.1 walked
    obtain ⟨entry, viewed, walked⟩ := bind_eq_ok.1 walked
    obtain ⟨next, stepped, walked⟩ := bind_eq_ok.1 walked
    exact ⟨entryLength, entry, next, ⟨offset, length, ⟨rfl, accepted⟩, viewed⟩, stepped, walked⟩
  · rintro ⟨length, entry, next, named, stepped, walked⟩
    rw [named.offset, ok_bind, named.sized, ok_bind, require_of named.accepted, ok_bind,
      named.viewed, ok_bind, stepped, ok_bind, walked]

/-- Two walks over one page whose steps go together. -/
theorem walkSlots_simulate (follow : τ → Bytes → Except LoadError τ) {R : σ → τ → Prop}
    (together : ∀ state other entry next, R state other → step state entry = .ok next →
      ∃ after, follow other entry = .ok after ∧ R next after) {other : τ} (related : R state other)
    (walked : walkSlots slotError minimumLength payload usedLength step count slot position state =
      .ok (last, stop)) :
    ∃ final, walkSlots slotError minimumLength payload usedLength follow count slot position
      other = .ok (final, stop) ∧ R last final := by
  induction count generalizing slot position state other with
  | zero =>
    cases walked
    exact ⟨other, rfl, related⟩
  | succ count ih =>
    obtain ⟨length, entry, next, named, stepped, walked⟩ := walkSlots_succ.1 walked
    obtain ⟨after, followed, related⟩ := together state other entry next related stepped
    obtain ⟨final, rest, related⟩ := ih related walked
    exact ⟨final, walkSlots_succ.2 ⟨length, entry, after, named, followed, rest⟩, related⟩

/-- A property that every step keeps holds at the end of a walk. -/
theorem walkSlots_invariant {P : σ → Prop}
    (keeps : ∀ state entry next, P state → step state entry = .ok next → P next) (before : P state)
    (walked : walkSlots slotError minimumLength payload usedLength step count slot position state =
      .ok (last, stop)) : P last := by
  have together : ∀ state (other : Unit) entry next, P state → step state entry = .ok next →
      ∃ after, (.ok () : Except LoadError Unit) = .ok after ∧ P next :=
    fun state _ entry next holds stepped => ⟨(), rfl, keeps state entry next holds stepped⟩
  obtain ⟨-, -, holds⟩ := @walkSlots_simulate _ _ _ _ _ _ _ _ _ _ _ _ _ (fun _ _ => .ok ())
    (fun state _ => P state) together () before walked
  exact holds

end Walks

theorem collectStep_eq_ok {α : Type} {decode : List α → Bytes → Except LoadError α}
    {items next : List α} {entry : Bytes} :
    collectStep decode items entry = .ok next ↔
      ∃ item, decode items entry = .ok item ∧ next = items ++ [item] := by
  unfold collectStep
  rw [bind_eq_ok]
  constructor
  · rintro ⟨item, decoded, rest⟩
    exact ⟨item, decoded, (Except.ok.inj rest).symm⟩
  · rintro ⟨item, decoded, rfl⟩
    exact ⟨item, decoded, rfl⟩

theorem walkSlots_length {α : Type} {slotError : String} {minimumLength usedLength : Nat}
    {payload : Bytes} {decode : List α → Bytes → Except LoadError α}
    {count slot position stop : Nat} {items last : List α}
    (walked : walkSlots slotError minimumLength payload usedLength (collectStep decode) count slot
      position items = .ok (last, stop)) : last.length = items.length + count := by
  induction count generalizing slot position items with
  | zero =>
    cases walked
    rfl
  | succ count ih =>
    obtain ⟨_, entry, next, -, stepped, walked⟩ := walkSlots_succ.1 walked
    obtain ⟨item, -, rfl⟩ := collectStep_eq_ok.1 stepped
    rw [ih walked, List.length_append, List.length_singleton]
    omega

theorem foldlM_collectStep_length {α : Type} {decode : List α → Bytes → Except LoadError α}
    {entries : List Bytes} {items last : List α}
    (folded : entries.foldlM (collectStep decode) items = .ok last) :
    last.length = items.length + entries.length := by
  induction entries generalizing items with
  | nil =>
    cases folded
    rfl
  | cons entry rest ih =>
    obtain ⟨next, stepped, folded⟩ := bind_eq_ok.1 folded
    obtain ⟨item, -, rfl⟩ := collectStep_eq_ok.1 stepped
    rw [ih folded, List.length_append, List.length_singleton, List.length_cons]
    omega

/-- Items whose encodings decode one after the other. -/
theorem foldlM_collectStep {α β : Type} (decode : List β → Bytes → Except LoadError β)
    (encode : α → Bytes) (read : α → β) {front : List β} {items : List α}
    (decodes : ∀ left item right, items = left ++ item :: right →
      decode (front ++ left.map read) (encode item) = .ok (read item)) :
    (items.map encode).foldlM (collectStep decode) front = .ok (front ++ items.map read) := by
  induction items generalizing front with
  | nil => simp
  | cons item rest ih =>
    have first : collectStep decode front (encode item) = .ok (front ++ [read item]) :=
      collectStep_eq_ok.2 ⟨read item, by simpa using decodes [] item rest rfl, rfl⟩
    rw [List.map_cons, List.foldlM_cons, first, ok_bind, ih]
    · simp
    · intro left other right same
      have := decodes (item :: left) other right (by rw [same]; rfl)
      simpa using this

/-! ## Whole pages -/

section Pages

variable {L : Limits} {T : TreeRole} {type level : Nat} {leftmostChild shared : Bytes}
  {entries : List Bytes}

theorem pagePayloadBytes_lower (L : Limits) : 16208 ≤ L.pagePayloadBytes := by
  unfold Limits.pagePayloadBytes extentLayoutBytes authenticationTagBytes
  omega

theorem pagePayloadBytes_lt (L : Limits) : L.pagePayloadBytes < 2 ^ 32 := by
  have := L.quantum_upper
  unfold Limits.pagePayloadBytes
  omega

theorem encodedHeader_matches {kind : Nat} (known : type = 1 ∨ type = 2)
    (kinds : kind = if type = 1 then T.leafKind else T.internalKind)
    (leaf : type = 1 ↔ level = 0) :
    (encodedHeader type T.role level leftmostChild shared entries).Matches T kind level :=
  ⟨rfl, rfl, known, kinds, rfl, rfl, rfl, leaf, rfl, rfl⟩

theorem encodedHeader_bounded {role : Nat} (child : leftmostChild.length = 32)
    (filled : type = 1 → entries ≠ []) (sized : ∀ size ∈ T.keySize, shared.length ≤ size)
    (childless : type = 1 → leftmostChild = noChild)
    (used : pageUsedLength shared.length entries ≤ L.pagePayloadBytes) :
    (encodedHeader type role level leftmostChild shared entries).Bounded T
      (encodePage L type role level leftmostChild shared entries) := by
  refine ⟨?_, sized, rfl, rfl, ?_, ?_, ?_, ?_⟩
  · rintro ⟨leaf, none⟩
    exact filled leaf (List.eq_nil_of_length_eq_zero none)
  · exact Nat.le_add_right _ _
  · rw [encodePage_length child used]
    exact used
  · change allZero ((encodePage L type role level leftmostChild shared entries).drop
      (pageUsedLength shared.length entries)) = true
    rw [(encodePage_regions child).2.2.2]
    simp [allZero]
  · intro leaf
    change allZero leftmostChild = true
    rw [childless leaf]
    decide

theorem sharedPrefix_encodePage {role : Nat} (child : leftmostChild.length = 32) :
    sharedPrefix (encodePage L type role level leftmostChild shared entries)
      (encodedHeader type role level leftmostChild shared entries) = shared :=
  (encodePage_regions child).1

theorem walkPage_encodePage {σ : Type} {role minimumLength : Nat}
    {step : σ → Bytes → Except LoadError σ} {state : σ} (child : leftmostChild.length = 32)
    (used : pageUsedLength shared.length entries ≤ L.pagePayloadBytes)
    (long : ∀ entry ∈ entries, minimumLength ≤ entry.length) :
    walkPage T minimumLength (encodePage L type role level leftmostChild shared entries)
        (encodedHeader type role level leftmostChild shared entries) step state =
      (do
        let last ← entries.foldlM step state
        pure (last, pageUsedLength shared.length entries)) := by
  obtain ⟨-, slots, bodies, -⟩ : _ ∧ _ ∧ _ ∧ _ :=
    encodePage_regions child
  have length : (encodePage L type role level leftmostChild shared entries).length =
      L.pagePayloadBytes := encodePage_length child used
  have small := pagePayloadBytes_lt L
  have slotsInside : pageLayoutBytes + shared.length + entries.length * 8 ≤
      (encodePage L type role level leftmostChild shared entries).length := by
    rw [length]
    unfold pageUsedLength at used
    omega
  exact walkSlots_entries slots bodies slotsInside (Nat.le_refl _) (by rw [length]; exact used)
    (Nat.lt_of_le_of_lt used small) long

/-- A page of items whose keys are in the order `r` is read back item by item. -/
theorem walkPage_items {α β : Type} {role minimumLength : Nat} (r : Bytes → Bytes → Prop)
    (encode : α → Bytes) (read : α → β) (key : β → Bytes)
    (decode : Option Bytes → Bytes → Except LoadError β) {items : List α}
    (child : leftmostChild.length = 32)
    (used : pageUsedLength shared.length (items.map encode) ≤ L.pagePayloadBytes)
    (long : ∀ item ∈ items, minimumLength ≤ (encode item).length)
    (ordered : (items.map read).Pairwise fun a b => r (key a) (key b))
    (decodes : ∀ item ∈ items, ∀ previous, (∀ before ∈ previous, r before (key (read item))) →
      decode previous (encode item) = .ok (read item)) :
    walkPage T minimumLength
        (encodePage L type role level leftmostChild shared (items.map encode))
        (encodedHeader type role level leftmostChild shared (items.map encode))
        (collectStep fun items => decode (previousKey key items)) [] =
      .ok (items.map read, pageUsedLength shared.length (items.map encode)) := by
  rw [walkPage_encodePage child used (by simpa using long),
    foldlM_collectStep (fun items => decode (previousKey key items)) encode read]
  · rfl
  · intro left item right parts
    refine decodes item (by simp [parts]) _ fun before isPrevious => ?_
    obtain ⟨last, isLast, rfl⟩ := Option.mem_map.1 isPrevious
    rw [parts, List.map_append, List.pairwise_append] at ordered
    exact ordered.2.2 last (List.mem_of_mem_getLast? isLast) _ List.mem_cons_self

end Pages

end Miare
