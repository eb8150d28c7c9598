import Miare.Page.Proofs.Keys

/-!
# The page frame has one representation

A page that passes the checks of the frame is the encoding of the entries that its slots name.
-/

namespace Miare

open Misc

/-- The entries that slots name. -/
def slotEntries (payload : Bytes) : (count slot : Nat) → List Bytes
  | 0, _ => []
  | count + 1, slot =>
    slice payload (readLittleEndian 4 payload slot) (readLittleEndian 4 payload (slot + 4)) ::
      slotEntries payload count (slot + 8)

/-- The entries of a page. -/
def pageEntries (payload : Bytes) : List Bytes :=
  slotEntries payload (readPageHeader payload).entryCount (readPageHeader payload).slotsOffset

theorem slotEntries_length (payload : Bytes) (count slot : Nat) :
    (slotEntries payload count slot).length = count := by
  induction count generalizing slot with
  | zero => rfl
  | succ count ih => rw [slotEntries, List.length_cons, ih]

/-- Slots that name their entries back to back. -/
structure NamedEntries (payload : Bytes) (count slot position stop : Nat) : Prop where
  slots : slice payload slot (count * 8) = encodeSlots position (slotEntries payload count slot)
  entries : slice payload position (entriesLength (slotEntries payload count slot)) =
    (slotEntries payload count slot).flatten
  stop_eq : stop = position + entriesLength (slotEntries payload count slot)

theorem NamedEntries.cons {payload : Bytes} {count slot position length stop : Nat}
    (slotInside : slot + 8 ≤ payload.length)
    (offset : readLittleEndian 4 payload slot = position)
    (sized : readLittleEndian 4 payload (slot + 4) = length)
    (entryInside : position + length ≤ payload.length)
    (rest : NamedEntries payload count (slot + 8) (position + length) stop) :
    NamedEntries payload (count + 1) slot position stop := by
  have body : slotEntries payload (count + 1) slot =
      slice payload position length :: slotEntries payload count (slot + 8) := by
    rw [slotEntries, offset, sized]
  have here : (slice payload position length).length = length := slice_length entryInside
  have total : entriesLength (slotEntries payload (count + 1) slot) =
      length + entriesLength (slotEntries payload count (slot + 8)) := by
    rw [body]
    simp [entriesLength, here]
  refine ⟨?_, ?_, ?_⟩
  · have widths : (count + 1) * 8 = 4 + (4 + count * 8) := by omega
    have first : slice payload slot 4 = toLittleEndian 4 position := by
      rw [← offset, toLittleEndian_read (by omega)]
    have second : slice payload (slot + 4) 4 = toLittleEndian 4 length := by
      rw [← sized, toLittleEndian_read (by omega)]
    rw [body, encodeSlots, here, ← rest.slots, widths, slice_split, slice_split, first, second,
      List.append_assoc]
  · rw [total, slice_split, rest.entries, body, List.flatten_cons]
  · rw [rest.stop_eq, total, Nat.add_assoc]

/-- A walk that succeeds is a fold over entries that lie back to back. -/
theorem walkSlots_named {σ : Type} {slotError : String} {minimumLength usedLength : Nat}
    {payload : Bytes} {step : σ → Bytes → Except LoadError σ}
    {count slot position stop : Nat} {state last : σ}
    (walked : walkSlots slotError minimumLength payload usedLength step count slot position state =
      .ok (last, stop)) :
    NamedEntries payload count slot position stop ∧
      (slotEntries payload count slot).foldlM step state = .ok last := by
  induction count generalizing slot position state with
  | zero =>
    cases walked
    refine ⟨⟨?_, ?_, rfl⟩, rfl⟩ <;> simp [slice, slotEntries, encodeSlots, entriesLength]
  | succ count ih =>
    obtain ⟨_, entry, next, named, stepped, walked⟩ := walkSlots_succ.1 walked
    obtain ⟨entryInside, rfl⟩ := view_eq_ok.1 named.viewed
    obtain ⟨-, offset⟩ := readField_eq_ok.1 named.offset
    obtain ⟨slotInside, length⟩ := readField_eq_ok.1 named.sized
    obtain ⟨rest, folded⟩ := ih walked
    refine ⟨rest.cons (by omega) offset length entryInside, ?_⟩
    rw [slotEntries, offset, length, List.foldlM_cons, stepped, ok_bind, folded]

/-- A page has no other entries than those it was encoded from. -/
theorem pageEntries_encodePage {L : Limits} {type role level : Nat} {leftmostChild shared : Bytes}
    {entries : List Bytes} (child : leftmostChild.length = 32) (typeFits : type < 2 ^ 16)
    (roleFits : role < 2 ^ 32) (levelFits : level < 2 ^ 32)
    (used : pageUsedLength shared.length entries ≤ L.pagePayloadBytes) :
    pageEntries (encodePage L type role level leftmostChild shared entries) = entries := by
  have small := pagePayloadBytes_lt L
  have length := @encodePage_length L type role level leftmostChild shared entries child used
  obtain ⟨-, slots, bodies, -⟩ := @encodePage_regions L type role level leftmostChild shared
    entries child
  let gather : List Bytes → Bytes → Except LoadError (List Bytes) :=
    collectStep fun _ entry => .ok entry
  have gathered (entries : List Bytes) : entries.foldlM gather [] = .ok entries := by
    have all := @foldlM_collectStep Bytes Bytes (fun _ entry => .ok entry) id id [] entries
      fun _ _ _ _ => rfl
    rwa [List.map_id, List.nil_append] at all
  have walked := @walkSlots_entries _ "" 0 _ _ gather entries _ _ [] slots bodies
    (by unfold pageUsedLength at used; omega) (Nat.le_refl _) (by rw [length]; exact used)
    (by unfold pageUsedLength at used; omega) (fun _ _ => Nat.zero_le _)
  rw [gathered, ok_bind] at walked
  have named := (walkSlots_named walked).2
  rw [gathered] at named
  rw [pageEntries, readPageHeader_encodePage child typeFits roleFits levelFits (by omega)]
  exact Except.ok.inj named

/-- Entries that decode to items are the encodings of these items. -/
theorem foldlM_collectStep_exact {α : Type} {decode : List α → Bytes → Except LoadError α}
    {entries : List Bytes} {front last : List α} {Q : α → Prop} (encode : α → Bytes)
    (exact_ : ∀ items, ∀ entry ∈ entries, ∀ item, decode items entry = .ok item →
      entry = encode item ∧ Q item)
    (folded : entries.foldlM (collectStep decode) front = .ok last) :
    ∃ items, last = front ++ items ∧ entries = items.map encode ∧ ∀ item ∈ items, Q item := by
  induction entries generalizing front with
  | nil =>
    cases folded
    exact ⟨[], by simp, rfl, by simp⟩
  | cons entry rest ih =>
    rw [List.foldlM_cons] at folded
    obtain ⟨next, stepped, folded⟩ := bind_eq_ok.1 folded
    obtain ⟨item, decoded, rfl⟩ := collectStep_eq_ok.1 stepped
    obtain ⟨items, rfl, same, all⟩ := ih
      (fun items other member => exact_ items other (List.mem_cons_of_mem _ member)) folded
    obtain ⟨isEntry, good⟩ := exact_ _ entry List.mem_cons_self item decoded
    refine ⟨item :: items, by simp, ?_, List.forall_mem_cons.2 ⟨good, all⟩⟩
    rw [List.map_cons, ← same, ← isEntry]

/-! ## References -/

/-- A reference that was decoded is encoded in the same bytes. -/
theorem encodeExtentReference_decode {bytes : Bytes} (sized : bytes.length = 32) :
    encodeExtentReference (decodeExtentReference bytes) = bytes := by
  have pieces := slice_eq_fields bytes 0 [8, 8, 8, 8]
  have whole := slice_all bytes
  rw [sized] at whole
  simp only [encodeExtentReference, decodeExtentReference]
  rw [toLittleEndian_read (by omega), toLittleEndian_read (by omega),
    toLittleEndian_read (by omega), toLittleEndian_read (by omega)]
  simpa [fields, whole] using pieces.symm

/-! ## The header -/

/-- The fields of a header, in the order of the page. -/
def PageHeader.image (header : PageHeader) : Bytes :=
  header.magic ++ (toLittleEndian 2 header.version ++ (toLittleEndian 2 header.type ++
    (toLittleEndian 4 header.headerLength ++ (toLittleEndian 4 header.role ++
    (toLittleEndian 4 header.level ++ (toLittleEndian 4 header.entryCount ++
    (toLittleEndian 4 header.prefixLength ++ (toLittleEndian 4 header.slotsOffset ++
    (toLittleEndian 4 header.entriesOffset ++ (toLittleEndian 4 header.usedLength ++
    (toLittleEndian 4 header.flags ++ (header.leftmostChild ++ header.reserved))))))))))))

theorem readPageHeader_image {payload : Bytes} (long : pageLayoutBytes ≤ payload.length) :
    (readPageHeader payload).image = slice payload 0 pageLayoutBytes := by
  have read {width offset : Nat} (inside : offset + width ≤ pageLayoutBytes) :
      toLittleEndian width (readLittleEndian width payload offset) = slice payload offset width :=
    toLittleEndian_read (inside.trans long)
  have pieces := slice_eq_fields payload 0 [8, 2, 2, 4, 4, 4, 4, 4, 4, 4, 4, 4, 32, 16]
  simp only [PageHeader.image, readPageHeader]
  rw [read (by decide), read (by decide), read (by decide), read (by decide), read (by decide),
    read (by decide), read (by decide), read (by decide), read (by decide), read (by decide),
    read (by decide)]
  simpa [fields, pageLayoutBytes] using pieces.symm

theorem allZero_replicate (count : Nat) : allZero (List.replicate count 0) = true := by
  simp [allZero]

theorem eq_replicate_of_allZero {bytes : Bytes} (zero : allZero bytes = true) :
    bytes = List.replicate bytes.length 0 :=
  List.eq_replicate_iff.2 ⟨rfl, fun byte member => by simpa using List.all_eq_true.1 zero byte member⟩

/-! ## Whole pages -/

/-- The prefix of a page whose keys begin with it. -/
theorem take_eq_shared {shared : Bytes} {keys : List Bytes} {length : Nat}
    (sized : shared.length = length) (all : ∀ key ∈ keys, ∃ suffix, key = shared ++ suffix)
    (none : keys = [] → length = 0) : (keys.headD []).take length = shared := by
  cases keys with
  | nil =>
    rw [none rfl] at sized ⊢
    rw [List.eq_nil_of_length_eq_zero sized, List.take_zero]
  | cons first rest =>
    obtain ⟨suffix, rfl⟩ := all first List.mem_cons_self
    rw [List.headD_cons, List.take_left' sized]

section Pages

variable {L : Limits} {T : TreeRole} {kind level : Nat} {payload : Bytes} {header : PageHeader}

/-- The used length of a page that is filled up to it. -/
theorem PageHeader.Bounded.used {entries : List Bytes} (bounded : header.Bounded T payload)
    (count : entries.length = header.entryCount)
    (stop : header.usedLength = header.entriesOffset + entriesLength entries) :
    header.usedLength = pageUsedLength header.prefixLength entries := by
  obtain ⟨-, -, slotsOffset, entriesOffset, -⟩ := bounded
  rw [pageUsedLength, count, stop, entriesOffset, slotsOffset]

/-- A header that passes the checks is the one that `encodePage` writes. -/
theorem PageHeader.Matches.image_eq {entries : List Bytes} (accepted : header.Matches T kind level)
    (bounded : header.Bounded T payload) (reserved : header.reserved.length = 16)
    (count : entries.length = header.entryCount)
    (stop : header.usedLength = header.entriesOffset + entriesLength entries) :
    header.image = encodePageHeader header.type T.role level header.leftmostChild
      header.prefixLength entries := by
  have used := bounded.used count stop
  obtain ⟨magic, version, -, -, headerLength, role, leveled, -, flags, zero⟩ := accepted
  obtain ⟨-, -, slotsOffset, entriesOffset, -⟩ := bounded
  have zeros := eq_replicate_of_allZero zero
  rw [reserved] at zeros
  rw [PageHeader.image, encodePageHeader, zeros, magic, version, headerLength, role, leveled, flags,
    used, entriesOffset, slotsOffset, count]
  simp only [List.append_assoc]

/-- A page whose header passes the checks and whose slots name entries up to its used length is
the encoding of these entries. -/
theorem eq_encodePage (sized : payload.length = L.pagePayloadBytes)
    (is : readPageHeader payload = header) (accepted : header.Matches T kind level)
    (bounded : header.Bounded T payload)
    (named : NamedEntries payload header.entryCount header.slotsOffset header.entriesOffset
      header.usedLength) :
    payload = encodePage L header.type T.role level header.leftmostChild
      (sharedPrefix payload header)
      (slotEntries payload header.entryCount header.slotsOffset) := by
  have lower := pagePayloadBytes_lower L
  have read : header.image = slice payload 0 pageLayoutBytes := by
    rw [← is]
    exact readPageHeader_image (by unfold pageLayoutBytes; omega)
  have reserved : header.reserved.length = 16 := is ▸ slice_length (by omega)
  have count := slotEntries_length payload header.entryCount header.slotsOffset
  obtain ⟨slots, bodies, stop⟩ := named
  generalize slotEntries payload header.entryCount header.slotsOffset = entries at *
  have image := accepted.image_eq bounded reserved count stop
  have used := bounded.used count stop
  obtain ⟨-, -, slotsOffset, entriesOffset, above, inside, unused, -⟩ := bounded
  have tail := eq_replicate_of_allZero unused
  rw [List.length_drop, sized, used] at tail
  have shared : (sharedPrefix payload header).length = header.prefixLength :=
    slice_length (by omega)
  -- the regions of the page follow each other
  have regions := slice_eq_fields payload 0 [pageLayoutBytes, header.prefixLength,
    header.entryCount * 8, entriesLength entries]
  have total : [pageLayoutBytes, header.prefixLength, header.entryCount * 8,
      entriesLength entries].sum = header.usedLength := by
    simp only [List.sum_cons, List.sum_nil]
    omega
  rw [total] at regions
  simp only [fields, List.flatten_cons, List.flatten_nil, List.append_nil, Nat.zero_add] at regions
  rw [← read, image, ← slotsOffset, ← entriesOffset, slots, bodies] at regions
  have whole : payload = slice payload 0 header.usedLength ++ payload.drop header.usedLength := by
    simp [slice]
  rw [regions, used, tail] at whole
  rw [encodePage, shared, count, ← slotsOffset, ← entriesOffset]
  simpa only [sharedPrefix, List.append_assoc] using whole

/-- A page of separator entries is the one that `encodeInternalPage` makes of the children. -/
theorem encodeInternalPage_of_entries {role : Nat} {leftmost : PreparedTreeNode}
    {rest : List PreparedTreeNode} {shared : Bytes}
    (sized : shared.length = sharedPrefixLength (separators (leftmost :: rest)))
    (begins : ∀ node ∈ rest, ∃ suffix, node.minimumKey = shared ++ suffix)
    (used : pageUsedLength shared.length (rest.map (encodeSeparator shared.length)) ≤
      L.pagePayloadBytes)
    (isPage : payload = encodePage L 2 role (leftmost.level + 1)
      (encodeExtentReference leftmost.reference) shared
      (rest.map (encodeSeparator shared.length))) :
    encodeInternalPage L role (leftmost :: rest) = some payload := by
  have isShared : ((separators (leftmost :: rest)).headD []).take
      (sharedPrefixLength (separators (leftmost :: rest))) = shared := by
    refine take_eq_shared sized ?_ ?_
    · intro key member
      obtain ⟨node, inRest, rfl⟩ := List.mem_map.1 member
      exact begins node inRest
    · intro none
      rw [none]
      rfl
  have room : ¬L.pagePayloadBytes < internalUsedLength (leftmost :: rest) := by
    rw [← internalUsedLength_eq, ← sized]
    exact Nat.not_lt_of_le used
  rw [encodeInternalPage, if_neg room, isShared, ← sized, isPage]

end Pages

end Miare
