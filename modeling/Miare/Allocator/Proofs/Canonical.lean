import Miare.Allocator.Load
import Miare.Page.Proofs.Canonical
import Miare.Tree.Proofs.Store

/-!
# Representations of allocator pages

A page of an allocator index that is accepted is the encoding of the runs, or the children, that
were read from it.
-/

namespace Miare

open Misc

/-! ## The slots -/

/-- An entry of a page with keys of one length. -/
def SizedEntry (tailLength suffixLength : Nat) (entry : Bytes) : Prop :=
  entry.length = 4 + tailLength + suffixLength ∧ slice entry 0 4 = toLittleEndian 4 suffixLength

theorem walkAllocatorSlots_named {σ : Type} {subject : String}
    {tailLength suffixLength usedLength : Nat} {payload : Bytes}
    {step : σ → Bytes → Except LoadError σ} {count slot position stop : Nat} {state last : σ}
    (walked : walkAllocatorSlots subject tailLength suffixLength payload usedLength step count slot
      position state = .ok (last, stop)) :
    NamedEntries payload count slot position stop ∧
      (slotEntries payload count slot).foldlM step state = .ok last ∧
      ∀ entry ∈ slotEntries payload count slot, SizedEntry tailLength suffixLength entry := by
  induction count generalizing slot position state with
  | zero =>
    cases walked
    refine ⟨⟨?_, ?_, rfl⟩, rfl, ?_⟩ <;> simp [slice, slotEntries, encodeSlots, entriesLength]
  | succ count ih =>
    rw [walkAllocatorSlots] at walked
    obtain ⟨entryOffset, offset, walked⟩ := bind_eq_ok.1 walked
    obtain ⟨entryLength, length, walked⟩ := bind_eq_ok.1 walked
    obtain ⟨-, walked⟩ := require_bind_eq_ok.1 walked
    obtain ⟨suffix, suffixRead, walked⟩ := bind_eq_ok.1 walked
    obtain ⟨⟨rfl, isSuffix, isLength, -⟩, walked⟩ := require_bind_eq_ok.1 walked
    obtain ⟨entry, viewed, walked⟩ := bind_eq_ok.1 walked
    obtain ⟨entryInside, isEntry⟩ := view_eq_ok.1 viewed
    obtain ⟨next, stepped, walked⟩ := bind_eq_ok.1 walked
    obtain ⟨-, offset⟩ := readField_eq_ok.1 offset
    obtain ⟨slotInside, length⟩ := readField_eq_ok.1 length
    obtain ⟨suffixInside, suffixRead⟩ := readField_eq_ok.1 suffixRead
    obtain ⟨rest, folded, sized⟩ := ih walked
    have body : slotEntries payload (count + 1) slot =
        entry :: slotEntries payload count (slot + 8) := by
      rw [slotEntries, offset, length, isEntry]
    refine ⟨rest.cons (by omega) offset length entryInside, ?_, ?_⟩
    · rw [body, List.foldlM_cons, stepped, ok_bind, folded]
    · rw [body]
      refine List.forall_mem_cons.2 ⟨⟨?_, ?_⟩, sized⟩
      · rw [← isEntry, slice_length entryInside, isLength, isSuffix]
      · rw [← isEntry, slice_slice (by omega), Nat.add_zero, ← toLittleEndian_read suffixInside,
          suffixRead, isSuffix]

/-- Behind the suffix length, an entry is its key suffix and its tail. -/
theorem SizedEntry.eq_append {tailLength suffixLength : Nat} {entry : Bytes}
    (sized : SizedEntry tailLength suffixLength entry) :
    entry = toLittleEndian 4 suffixLength ++
      (slice entry 4 suffixLength ++ slice entry (4 + suffixLength) tailLength) := by
  obtain ⟨length, front⟩ := sized
  have pieces := slice_eq_fields entry 0 [4, suffixLength, tailLength]
  have whole : [4, suffixLength, tailLength].sum = entry.length := by
    simp only [List.sum_cons, List.sum_nil]
    omega
  rw [whole, slice_all] at pieces
  simp only [fields, List.flatten_cons, List.flatten_nil, List.append_nil, Nat.zero_add] at pieces
  rw [front] at pieces
  exact pieces

/-! ## Entries -/

theorem allocatorRunKey_runOfKey {retired : Bool} {key : Bytes} {count : Nat}
    (sized : key.length = allocatorKeyLength retired) :
    allocatorRunKey retired (runOfKey retired key count) = key := by
  have whole := slice_all key
  cases retired with
  | false =>
    have eight : key.length = 8 := sized
    rw [eight] at whole
    simp only [allocatorRunKey, runOfKey, Bool.false_eq_true, if_false]
    rw [toLittleEndian_read (by omega), whole]
  | true =>
    have sixteen : key.length = 16 := sized
    have cut := slice_split key 0 8 8
    rw [sixteen] at whole
    simp only [allocatorRunKey, runOfKey, if_true]
    rw [toLittleEndian_read (by omega), toLittleEndian_read (by omega)]
    exact cut.symm.trans whole

/-- The bytes of a run follow from it. -/
theorem decodeAllocatorRun_exact {retired : Bool} {shared entry : Bytes}
    {runs : List (Bytes × ExtentRun)} {item : Bytes × ExtentRun}
    (short : shared.length ≤ allocatorKeyLength retired)
    (sized : SizedEntry 8 (allocatorKeyLength retired - shared.length) entry)
    (decoded : decodeAllocatorRun retired shared runs entry = .ok item) :
    entry = encodeAllocatorEntry retired shared.length item.2 ∧
      allocatorRunKey retired item.2 = item.1 ∧ ∃ suffix, item.1 = shared ++ suffix := by
  obtain ⟨suffix, viewed, decoded⟩ := bind_eq_ok.1 decoded
  obtain ⟨blockCount, read, decoded⟩ := bind_eq_ok.1 decoded
  obtain ⟨-, decoded⟩ := require_bind_eq_ok.1 decoded
  cases decoded
  obtain ⟨inside, isSuffix⟩ := view_eq_ok.1 viewed
  obtain ⟨countInside, isCount⟩ := readField_eq_ok.1 read
  have length : suffix.length = allocatorKeyLength retired - shared.length :=
    isSuffix ▸ slice_length inside
  have key : allocatorRunKey retired (runOfKey retired (shared ++ suffix) blockCount) =
      shared ++ suffix := allocatorRunKey_runOfKey (by rw [List.length_append]; omega)
  refine ⟨?_, key, suffix, rfl⟩
  have parts := sized.eq_append
  rw [isSuffix, ← toLittleEndian_read countInside, isCount] at parts
  rw [encodeAllocatorEntry, key, List.drop_left, List.append_assoc]
  exact parts

/-- The bytes of a separator entry follow from it. -/
theorem decodeAllocatorChild_exact {retired : Bool} {shared entry : Bytes}
    {children : List (Bytes × ExtentReference)} {item : Bytes × ExtentReference} (level : Nat)
    (sized : SizedEntry 32 (allocatorKeyLength retired - shared.length) entry)
    (decoded : decodeAllocatorChild retired shared children entry = .ok item) :
    entry = encodeSeparator shared.length ⟨item.2, item.1, level⟩ ∧
      ∃ suffix, item.1 = shared ++ suffix := by
  obtain ⟨suffix, viewed, decoded⟩ := bind_eq_ok.1 decoded
  obtain ⟨bytes, childViewed, decoded⟩ := bind_eq_ok.1 decoded
  obtain ⟨-, decoded⟩ := require_bind_eq_ok.1 decoded
  cases decoded
  obtain ⟨inside, isSuffix⟩ := view_eq_ok.1 viewed
  obtain ⟨childInside, isChild⟩ := view_eq_ok.1 childViewed
  have length : suffix.length = allocatorKeyLength retired - shared.length :=
    isSuffix ▸ slice_length inside
  have parts := sized.eq_append
  rw [isSuffix, isChild] at parts
  have width : (shared ++ suffix).length - shared.length =
      allocatorKeyLength retired - shared.length := by
    rw [List.length_append]
    omega
  refine ⟨?_, suffix, rfl⟩
  rw [encodeSeparator, encodeExtentReference_decode (isChild ▸ slice_length childInside)]
  simp only [width, List.drop_left, List.append_assoc]
  exact parts

/-! ## Whole pages -/

section Pages

variable {L : Limits} {retired : Bool} {payload : Bytes} {type : Nat}

/-- The frame of an index page, with the role whose checks it passes. -/
def allocatorRole (retired : Bool) : TreeRole where
  role := allocatorIndexRole retired
  internalKind := allocatorInternalKind retired
  leafKind := allocatorLeafKind retired
  keySize := some (allocatorKeyLength retired)
  subject := "allocator index"
  tooDeep := "allocator index level is invalid"

/-- An accepted page whose slots were walked to the end is the encoding of its entries. -/
theorem allocatorPage_encodes {σ : Type} {subject : String} {tailLength : Nat}
    {step : σ → Bytes → Except LoadError σ} {state last : σ} {header : PageHeader}
    (sized : payload.length = L.pagePayloadBytes) (is : readPageHeader payload = header)
    (accepted : header.AllocatorMatches retired type) (known : type = 1 ∨ type = 2)
    (leaf : type = 1 ↔ header.level = 0)
    (bounded : header.AllocatorBounded retired payload)
    (filled : type = 1 → header.entryCount ≠ 0 ∧ allZero header.leftmostChild = true)
    (walked : walkAllocatorSlots subject tailLength
      (allocatorKeyLength retired - header.prefixLength) payload header.usedLength step
      header.entryCount header.slotsOffset header.entriesOffset state =
        .ok (last, header.usedLength)) :
    payload = encodePage L type (allocatorIndexRole retired) header.level header.leftmostChild
        (sharedPrefix payload header) (pageEntries payload) ∧
      (pageEntries payload).foldlM step state = .ok last ∧
      pageUsedLength header.prefixLength (pageEntries payload) ≤ L.pagePayloadBytes ∧
      (sharedPrefix payload header).length = header.prefixLength ∧
      ∀ entry ∈ pageEntries payload,
        SizedEntry tailLength (allocatorKeyLength retired - header.prefixLength) entry := by
  obtain ⟨named, folded, entries⟩ := walkAllocatorSlots_named walked
  obtain ⟨magic, version, isType, headerLength, role, flags, reserved⟩ := accepted
  obtain ⟨short, slotsOffset, entriesOffset, above, inside, unused⟩ := bounded
  have matches_ : header.Matches (allocatorRole retired)
      (if header.type = 1 then (allocatorRole retired).leafKind
        else (allocatorRole retired).internalKind) header.level :=
    ⟨magic, version, isType ▸ known, rfl, headerLength, role, rfl, isType ▸ leaf, flags, reserved⟩
  have fits : header.Bounded (allocatorRole retired) payload := by
    refine ⟨fun ⟨isLeaf, empty⟩ => (filled (isType ▸ isLeaf)).1 empty, ?_, slotsOffset, entriesOffset,
      above, inside, unused, fun isLeaf => (filled (isType ▸ isLeaf)).2⟩
    rintro size ⟨⟩
    exact short
  have same : pageEntries payload = slotEntries payload header.entryCount header.slotsOffset := by
    rw [pageEntries, is]
  have page := eq_encodePage sized is matches_ fits named
  have used := fits.used (slotEntries_length _ _ _) named.stop_eq
  rw [same, ← isType]
  refine ⟨page, folded, ?_, slice_length (by omega), entries⟩
  rw [← used, ← sized]
  exact inside

theorem entriesLength_sized {tailLength suffixLength : Nat} {entries : List Bytes}
    (sized : ∀ entry ∈ entries, SizedEntry tailLength suffixLength entry) :
    entriesLength entries = entries.length * (4 + tailLength + suffixLength) := by
  induction entries with
  | nil => simp [entriesLength]
  | cons entry rest ih =>
    obtain ⟨first, others⟩ := List.forall_mem_cons.1 sized
    have tail := ih others
    unfold entriesLength at tail ⊢
    rw [List.map_cons, List.sum_cons, tail, first.1, List.length_cons]
    ring

/-- A leaf has one representation. -/
theorem decodeAllocatorIndexLeaf_canonical {runs : List ExtentRun}
    (sized : payload.length = L.pagePayloadBytes)
    (decoded : decodeAllocatorIndexLeaf retired payload = .ok runs) :
    encodeAllocatorIndexLeaf L retired runs = some payload := by
  obtain ⟨⟨accepted, level, childless⟩, decoded⟩ := require_bind_eq_ok.1 decoded
  obtain ⟨⟨count, bounded⟩, decoded⟩ := require_bind_eq_ok.1 decoded
  obtain ⟨⟨items, stop⟩, walked, decoded⟩ := bind_eq_ok.1 decoded
  obtain ⟨⟨isStop, common⟩, decoded⟩ := require_bind_eq_ok.1 decoded
  obtain rfl : items.map Prod.snd = runs := Except.ok.inj decoded
  generalize is : readPageHeader payload = header at *
  rw [isStop] at walked
  obtain ⟨isPage, folded, used, prefixSized, entriesSized⟩ := allocatorPage_encodes sized is accepted
    (Or.inl rfl) (iff_of_true rfl level) bounded (fun _ => ⟨count, childless⟩) walked
  have short : (sharedPrefix payload header).length ≤ allocatorKeyLength retired :=
    prefixSized ▸ bounded.1
  rw [← prefixSized] at entriesSized
  obtain ⟨_, same, entries, good⟩ := foldlM_collectStep_exact
    (Q := fun item => allocatorRunKey retired item.2 = item.1 ∧
      ∃ suffix, item.1 = sharedPrefix payload header ++ suffix)
    (fun item => encodeAllocatorEntry retired (sharedPrefix payload header).length item.2)
    (fun _ entry member item decoded =>
      decodeAllocatorRun_exact short (entriesSized entry member) decoded) folded
  rw [List.nil_append] at same
  subst same
  have keys : (items.map Prod.snd).map (allocatorRunKey retired) = items.map Prod.fst := by
    rw [List.map_map]
    exact List.map_congr_left fun item member => (good item member).1
  have shared : ((items.map Prod.fst).headD []).take (sharedPrefixLength (items.map Prod.fst)) =
      sharedPrefix payload header := by
    refine take_eq_shared (prefixSized.trans common.symm) ?_ ?_
    · intro key member
      obtain ⟨item, inItems, rfl⟩ := List.mem_map.1 member
      exact (good item inItems).2
    · intro none
      rw [none]
      rfl
  have length : (pageEntries payload).length = items.length := by rw [entries, List.length_map]
  have number : (pageEntries payload).length = header.entryCount := by
    rw [pageEntries, slotEntries_length, is]
  have room : ¬(items.map Prod.snd = [] ∨
      L.pagePayloadBytes < allocatorIndexUsedLength retired (items.map Prod.snd)) := by
    rintro (none | large)
    · rw [List.map_eq_nil_iff] at none
      rw [none] at length
      exact count (number.symm.trans length)
    · unfold allocatorIndexUsedLength at large
      unfold pageUsedLength at used
      rw [entriesLength_sized entriesSized, prefixSized, length] at used
      rw [keys, common, List.length_map] at large
      have widths : 12 + allocatorKeyLength retired - header.prefixLength =
          4 + 8 + (allocatorKeyLength retired - header.prefixLength) := by
        omega
      dsimp only at large
      rw [widths] at large
      exact absurd used (Nat.not_le_of_lt large)
  have lower := pagePayloadBytes_lower L
  have child : header.leftmostChild = noChild := by
    have zeros := eq_replicate_of_allZero childless
    rw [← is, readPageHeader, slice_length (by omega)] at zeros
    exact is ▸ zeros
  rw [encodeAllocatorIndexLeaf, if_neg room, keys, shared, common, ← prefixSized, List.map_map]
  rw [entries, child, level] at isPage
  exact congrArg some isPage.symm

/-- An internal page has one representation. -/
theorem allocatorChildren_canonical {leftmost : PreparedTreeNode} {rest : List PreparedTreeNode}
    (sized : payload.length = L.pagePayloadBytes)
    (level : (readPageHeader payload).level = leftmost.level + 1)
    (decoded : allocatorChildren retired payload =
      .ok (([], leftmost.reference) :: rest.map PreparedTreeNode.entry)) :
    encodeInternalPage L (allocatorIndexRole retired) (leftmost :: rest) = some payload := by
  obtain ⟨⟨accepted, -, bounded⟩, decoded⟩ := require_bind_eq_ok.1 decoded
  obtain ⟨⟨items, stop⟩, walked, decoded⟩ := bind_eq_ok.1 decoded
  obtain ⟨⟨isStop, common⟩, decoded⟩ := require_bind_eq_ok.1 decoded
  obtain ⟨isChild, isRest⟩ := List.cons.inj (Except.ok.inj decoded)
  have isChild : decodeExtentReference (readPageHeader payload).leftmostChild =
    leftmost.reference := congrArg Prod.snd isChild
  generalize is : readPageHeader payload = header at *
  rw [isStop, isRest] at walked
  rw [isRest] at common
  obtain ⟨isPage, folded, used, prefixSized, entriesSized⟩ := allocatorPage_encodes sized is accepted
    (Or.inr rfl) (by simp [level]) bounded (by simp) walked
  rw [← prefixSized] at entriesSized
  obtain ⟨_, same, entries, begins⟩ := foldlM_collectStep_exact
    (Q := fun item => ∃ suffix, item.1 = sharedPrefix payload header ++ suffix)
    (fun item => encodeSeparator (sharedPrefix payload header).length ⟨item.2, item.1, 0⟩)
    (fun _ entry member item decoded =>
      decodeAllocatorChild_exact 0 (entriesSized entry member) decoded) folded
  rw [List.nil_append] at same
  subst same
  have child : encodeExtentReference leftmost.reference = header.leftmostChild := by
    have lower := pagePayloadBytes_lower L
    rw [← isChild, ← is]
    exact encodeExtentReference_decode (slice_length (by omega))
  rw [List.map_map] at entries common
  change _ = rest.map (encodeSeparator (sharedPrefix payload header).length) at entries
  rw [entries, ← child, level] at isPage
  refine encodeInternalPage_of_entries (prefixSized.trans common.symm) ?_ ?_ isPage
  · intro node member
    exact begins node.entry (List.mem_map_of_mem member)
  · rw [← entries, prefixSized]
    exact used

end Pages

end Miare
