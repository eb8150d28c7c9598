import Miare.Allocator.Proofs.Canonical

/-!
# Reading back the pages of an allocator index

The pages of `encodeAllocatorIndexLeaf` and of `encodeInternalPage` are accepted with the runs, or
the children, they were made from.  An index compares each run with the one before, so this needs
runs that follow one another.
-/

namespace Miare

open Misc

variable {L : Limits} {retired : Bool}

/-- A run that an index can have. -/
structure ExtentRun.Stored (retired : Bool) (run : ExtentRun) : Prop where
  start : run.start < 2 ^ 64
  count : run.count < 2 ^ 64
  blocks : run.count ≠ 0
  generation : run.retirementGeneration < 2 ^ 64
  free : retired = false → run.retirementGeneration = 0

/-! ## The slots -/

/-- The two page loops differ in what they ask of an entry. -/
theorem walkAllocatorSlots_sized {σ : Type} {subject slotError : String}
    {tailLength suffixLength minimumLength usedLength : Nat} {payload : Bytes}
    {step : σ → Bytes → Except LoadError σ} {count slot position : Nat} {state : σ}
    {result : σ × Nat} (small : suffixLength < 2 ^ 32)
    (sized : ∀ entry ∈ slotEntries payload count slot, SizedEntry tailLength suffixLength entry)
    (walked : walkSlots slotError minimumLength payload usedLength step count slot position state =
      .ok result) :
    walkAllocatorSlots subject tailLength suffixLength payload usedLength step count slot position
      state = .ok result := by
  induction count generalizing slot position state with
  | zero => exact walked
  | succ count ih =>
    obtain ⟨entryLength, entry, next, ⟨offset, length, ⟨-, -, inside, room⟩, viewed⟩, stepped,
      walked⟩ := walkSlots_succ.1 walked
    obtain ⟨entryInside, isEntry⟩ := view_eq_ok.1 viewed
    have isOffset := (readField_eq_ok.1 offset).2
    have isLength := (readField_eq_ok.1 length).2
    rw [slotEntries, isOffset, isLength, isEntry] at sized
    obtain ⟨⟨total, front⟩, others⟩ := List.forall_mem_cons.1 sized
    have lengths : entryLength = 4 + tailLength + suffixLength := by
      rw [← total, ← isEntry, slice_length entryInside]
    have suffix : readField 4 payload position = .ok suffixLength := by
      rw [← isEntry, slice_slice (by omega), Nat.add_zero] at front
      rw [readField_of (by omega), readLittleEndian, front, ofLittleEndian_four small]
    rw [walkAllocatorSlots, offset, ok_bind, length, ok_bind, require_of (by omega), ok_bind, suffix,
      ok_bind, require_of ⟨rfl, rfl, lengths, room⟩, ok_bind, viewed, ok_bind, stepped, ok_bind]
    exact ih others walked

/-- A page of entries that decode one after the other is read back item by item. -/
theorem walkAllocatorSlots_encode {α β : Type} {subject : String}
    {type role level tailLength suffixLength : Nat} {leftmostChild shared : Bytes}
    {items : List α} (encode : α → Bytes) (read : α → β)
    (decode : List β → Bytes → Except LoadError β) (child : leftmostChild.length = 32)
    (typeFits : type < 2 ^ 16) (roleFits : role < 2 ^ 32) (levelFits : level < 2 ^ 32)
    (used : pageUsedLength shared.length (items.map encode) ≤ L.pagePayloadBytes)
    (small : suffixLength < 2 ^ 32)
    (sized : ∀ item ∈ items, SizedEntry tailLength suffixLength (encode item))
    (decodes : ∀ left item right, items = left ++ item :: right →
      decode (left.map read) (encode item) = .ok (read item)) :
    let header := encodedHeader type role level leftmostChild shared (items.map encode)
    walkAllocatorSlots subject tailLength suffixLength
        (encodePage L type role level leftmostChild shared (items.map encode)) header.usedLength
        (collectStep decode) header.entryCount header.slotsOffset header.entriesOffset [] =
      .ok (items.map read, header.usedLength) := by
  intro header
  have entries := pageEntries_encodePage child typeFits roleFits levelFits used
  rw [pageEntries, readPageHeader_encodePage child typeFits roleFits levelFits
    (Nat.lt_of_le_of_lt used (pagePayloadBytes_lt L))] at entries
  refine walkAllocatorSlots_sized small (fun entry member => ?_)
    (@walkPage_encodePage L (allocatorRole false) type level leftmostChild shared _ _ role 0
      (collectStep decode) [] child used (fun _ _ => Nat.zero_le _) |>.trans ?_)
  · change entry ∈ slotEntries _ (encodedHeader type role level leftmostChild shared _).entryCount
      (encodedHeader type role level leftmostChild shared _).slotsOffset at member
    rw [entries] at member
    obtain ⟨item, inItems, rfl⟩ := List.mem_map.1 member
    exact sized item inItems
  · rw [foldlM_collectStep decode encode read (by simpa using decodes)]
    rfl

/-! ## Entries -/

theorem allocatorRunKey_length (retired : Bool) (run : ExtentRun) :
    (allocatorRunKey retired run).length = allocatorKeyLength retired := by
  cases retired <;> simp [allocatorRunKey, allocatorKeyLength]

theorem runOfKey_allocatorRunKey {run : ExtentRun} (stored : run.Stored retired) :
    runOfKey retired (allocatorRunKey retired run) run.count = run := by
  obtain ⟨start, -, -, generation, free⟩ := stored
  cases retired with
  | false =>
    have whole := @readLittleEndian_here 8 0 run.start [] [] rfl (by norm_num; exact start)
    simp only [List.nil_append, List.append_nil] at whole
    simp only [runOfKey, allocatorRunKey, Bool.false_eq_true, if_false, whole]
    rw [← free rfl]
  | true =>
    have first := @readLittleEndian_here 8 0 run.retirementGeneration [] (toLittleEndian 8 run.start)
      rfl (by norm_num; exact generation)
    have second := @readLittleEndian_here 8 8 run.start (toLittleEndian 8 run.retirementGeneration)
      [] (by simp) (by norm_num; exact start)
    simp only [List.nil_append, List.append_nil] at first second
    simp only [runOfKey, allocatorRunKey, if_true, first, second]

/-- The parts of an entry with a key of known length. -/
theorem sizedEntry_parts (suffix tail : Bytes) :
    let entry := toLittleEndian 4 suffix.length ++ suffix ++ tail
    SizedEntry tail.length suffix.length entry ∧ view entry 4 suffix.length = .ok suffix ∧
      view entry (4 + suffix.length) tail.length = .ok tail := by
  intro entry
  have total : entry.length = 4 + tail.length + suffix.length := by
    simp only [entry, List.length_append, toLittleEndian_length]
    omega
  have parts : entry = toLittleEndian 4 suffix.length ++ (suffix ++ tail) := List.append_assoc _ _ _
  refine ⟨⟨total, ?_⟩, ?_, ?_⟩
  · rw [parts, slice_append_left (by simp)]
    have all := slice_all (toLittleEndian 4 suffix.length)
    rwa [toLittleEndian_length] at all
  · rw [view_of (by omega), parts, slice_append_here (by simp) rfl]
  · rw [view_of (by omega), slice_append_right (by simp)]
    simpa using slice_all tail

section Entries

variable {shared : Bytes}

theorem encodeAllocatorEntry_parts (run : ExtentRun) :
    SizedEntry 8 (allocatorKeyLength retired - shared.length)
        (encodeAllocatorEntry retired shared.length run) ∧
      view (encodeAllocatorEntry retired shared.length run) 4
        (allocatorKeyLength retired - shared.length) =
          .ok ((allocatorRunKey retired run).drop shared.length) ∧
      view (encodeAllocatorEntry retired shared.length run)
        (4 + (allocatorKeyLength retired - shared.length)) 8 = .ok (toLittleEndian 8 run.count) := by
  have parts := sizedEntry_parts ((allocatorRunKey retired run).drop shared.length)
    (toLittleEndian 8 run.count)
  rwa [List.length_drop, allocatorRunKey_length, toLittleEndian_length] at parts

theorem decodeAllocatorRun_encode {items : List (Bytes × ExtentRun)} {run : ExtentRun}
    (stored : run.Stored retired)
    (whole : allocatorRunKey retired run = shared ++ (allocatorRunKey retired run).drop shared.length)
    (follows : ∀ last ∈ items.getLast?, last.2.follows run) :
    decodeAllocatorRun retired shared items (encodeAllocatorEntry retired shared.length run) =
      .ok (allocatorRunKey retired run, run) := by
  obtain ⟨-, body, tail⟩ := @encodeAllocatorEntry_parts retired shared run
  have count : readField 8 (encodeAllocatorEntry retired shared.length run)
      (4 + (allocatorKeyLength retired - shared.length)) = .ok run.count := by
    rw [readField, tail, ok_bind, ofLittleEndian_eight stored.count]
    rfl
  rw [decodeAllocatorRun]
  dsimp only
  rw [body, ok_bind, count, ok_bind, ← whole, runOfKey_allocatorRunKey stored,
    require_of ⟨stored.blocks, follows⟩, ok_bind]
  rfl

theorem encodeSeparator_parts {node : PreparedTreeNode}
    (keySize : node.minimumKey.length = allocatorKeyLength retired) :
    SizedEntry 32 (allocatorKeyLength retired - shared.length)
        (encodeSeparator shared.length node) ∧
      view (encodeSeparator shared.length node) 4 (allocatorKeyLength retired - shared.length) =
        .ok (node.minimumKey.drop shared.length) ∧
      view (encodeSeparator shared.length node)
        (4 + (allocatorKeyLength retired - shared.length)) 32 =
          .ok (encodeExtentReference node.reference) := by
  have parts := sizedEntry_parts (node.minimumKey.drop shared.length)
    (encodeExtentReference node.reference)
  rw [List.length_drop, encodeExtentReference_length, keySize] at parts
  rwa [encodeSeparator, keySize]

theorem decodeAllocatorChild_encode {items : List (Bytes × ExtentReference)}
    {node : PreparedTreeNode} (keySize : node.minimumKey.length = allocatorKeyLength retired)
    (fits : node.reference.Fits) (present : node.reference.null = false)
    (whole : node.minimumKey = shared ++ node.minimumKey.drop shared.length) :
    decodeAllocatorChild retired shared items (encodeSeparator shared.length node) =
      .ok node.entry := by
  obtain ⟨-, body, tail⟩ := @encodeSeparator_parts retired shared node keySize
  rw [decodeAllocatorChild]
  dsimp only
  rw [body, ok_bind, tail, ok_bind, decodeExtentReference_encode fits, require_of present, ok_bind,
    ← whole]
  rfl

end Entries

/-! ## Whole pages -/

section Pages

variable {type level : Nat} {leftmostChild shared payload : Bytes} {entries : List Bytes}

theorem encodedHeader_allocatorMatches :
    (encodedHeader type (allocatorIndexRole retired) level leftmostChild shared
      entries).AllocatorMatches retired type :=
  ⟨rfl, rfl, rfl, rfl, rfl, rfl, rfl⟩

theorem encodedHeader_allocatorBounded {role : Nat} (child : leftmostChild.length = 32)
    (short : shared.length ≤ allocatorKeyLength retired)
    (used : pageUsedLength shared.length entries ≤ L.pagePayloadBytes) :
    (encodedHeader type role level leftmostChild shared entries).AllocatorBounded retired
      (encodePage L type role level leftmostChild shared entries) := by
  refine ⟨short, rfl, rfl, Nat.le_add_right _ _, ?_, ?_⟩
  · rw [encodePage_length child used]
    exact used
  · change allZero ((encodePage L type role level leftmostChild shared entries).drop
      (pageUsedLength shared.length entries)) = true
    rw [(encodePage_regions child).2.2.2]
    exact allZero_replicate _

/-- What the encoder makes of a leaf. -/
theorem encodeAllocatorIndexLeaf_eq_some {runs : List ExtentRun}
    (encoded : encodeAllocatorIndexLeaf L retired runs = some payload) :
    runs ≠ [] ∧ ∃ shared,
      PageItems L (allocatorRunKey retired) (encodeAllocatorEntry retired) runs shared ∧
        payload = encodePage L 1 (allocatorIndexRole retired) 0 noChild shared
          (runs.map (encodeAllocatorEntry retired shared.length)) := by
  unfold encodeAllocatorIndexLeaf at encoded
  split at encoded
  · cases encoded
  rename_i room
  rw [not_or, Nat.not_lt] at room
  obtain ⟨nonempty, room⟩ := room
  obtain ⟨some, isRun⟩ := List.exists_mem_of_ne_nil _ nonempty
  have short := (key_split _ (List.mem_map_of_mem (f := allocatorRunKey retired) isRun)).1
  rw [allocatorRunKey_length] at short
  have used (shared : Bytes) (short : shared.length ≤ allocatorKeyLength retired) :
      pageUsedLength shared.length (runs.map (encodeAllocatorEntry retired shared.length)) =
        pageLayoutBytes + shared.length + runs.length * 8 +
          runs.length * (12 + allocatorKeyLength retired - shared.length) := by
    rw [pageUsedLength, entriesLength_sized fun entry member => by
      obtain ⟨run, -, rfl⟩ := List.mem_map.1 member
      exact (encodeAllocatorEntry_parts run).1, List.length_map,
      show 12 + allocatorKeyLength retired - shared.length =
        4 + 8 + (allocatorKeyLength retired - shared.length) by omega]
  have sized := headD_take_length (runs.map (allocatorRunKey retired))
  rw [← sized] at short
  rw [allocatorIndexUsedLength, ← sized, ← used _ short, sized] at room
  have page : PageItems L (allocatorRunKey retired) (encodeAllocatorEntry retired) runs _ :=
    .of_room room
  refine ⟨nonempty, _, page, ?_⟩
  rw [page.sized]
  exact (Option.some.inj encoded).symm

theorem allocatorIndexRole_lt (retired : Bool) : allocatorIndexRole retired < 2 ^ 32 := by
  cases retired <;> decide

theorem allocatorKeyLength_lt (retired : Bool) : allocatorKeyLength retired < 2 ^ 32 := by
  cases retired <;> decide

/-- What the loader finds in the page of a leaf. -/
theorem decodeAllocatorIndexLeaf_encode {runs : List ExtentRun}
    (encoded : encodeAllocatorIndexLeaf L retired runs = some payload)
    (stored : ∀ run ∈ runs, run.Stored retired) (chain : runs.IsChain ExtentRun.follows) :
    payload.length = L.pagePayloadBytes ∧ (readPageHeader payload).level = 0 ∧
      decodeAllocatorIndexLeaf retired payload = .ok runs := by
  obtain ⟨nonempty, shared, items, rfl⟩ := encodeAllocatorIndexLeaf_eq_some encoded
  have short := items.short fun run _ => allocatorRunKey_length retired run
  have used := items.used
  have keyFits := allocatorKeyLength_lt retired
  have walked := @walkAllocatorSlots_encode L _ _ "allocator index" 1 (allocatorIndexRole retired) 0 8
    (allocatorKeyLength retired - shared.length) noChild shared runs
    (encodeAllocatorEntry retired shared.length) (fun run => (allocatorRunKey retired run, run))
    (decodeAllocatorRun retired shared) noChild_length (by decide) (allocatorIndexRole_lt retired)
    (by decide) used (by omega) (fun run _ => (encodeAllocatorEntry_parts run).1) (by
      intro left run right parts
      have member : run ∈ runs := by simp [parts]
      refine decodeAllocatorRun_encode (stored run member) (items.split run member).2 ?_
      intro last isLast
      rw [List.getLast?_map, Option.mem_map] at isLast
      obtain ⟨before, isBefore, rfl⟩ := isLast
      rw [parts, List.isChain_append] at chain
      exact chain.2.2 before isBefore run rfl)
  have isHeader := @readPageHeader_encodePage L 1 (allocatorIndexRole retired) 0 noChild shared
    (runs.map (encodeAllocatorEntry retired shared.length)) noChild_length (by decide)
    (allocatorIndexRole_lt retired) (by decide) items.used_lt
  refine ⟨encodePage_length noChild_length used, congrArg PageHeader.level isHeader, ?_⟩
  rw [decodeAllocatorIndexLeaf]
  rw [isHeader, require_of ⟨encodedHeader_allocatorMatches, rfl,
      (by decide : allZero noChild = true)⟩, ok_bind, require_of ⟨by simpa [encodedHeader] using nonempty,
        encodedHeader_allocatorBounded noChild_length short used⟩, ok_bind,
    sharedPrefix_encodePage noChild_length]
  change (walkAllocatorSlots _ _ (allocatorKeyLength retired - shared.length) _ _ _ _ _ _ _ >>= _) = _
  rw [walked, ok_bind]
  dsimp only
  rw [require_of ⟨rfl, by rw [List.map_map]; exact items.sized.symm⟩, ok_bind, List.map_map]
  exact congrArg Except.ok (List.map_id runs)

/-- What the loader finds in an internal page. -/
theorem allocatorChildren_encode {leftmost : PreparedTreeNode} {rest : List PreparedTreeNode}
    (encoded : encodeInternalPage L (allocatorIndexRole retired) (leftmost :: rest) = some payload)
    (shallow : leftmost.level + 1 < 2 ^ 32)
    (keySizes : ∀ node ∈ rest, node.minimumKey.length = allocatorKeyLength retired)
    (fits : ∀ node ∈ leftmost :: rest, node.reference.Fits ∧ node.reference.null = false) :
    payload.length = L.pagePayloadBytes ∧ (readPageHeader payload).level = leftmost.level + 1 ∧
      allocatorChildren retired payload =
        .ok (([], leftmost.reference) :: rest.map PreparedTreeNode.entry) := by
  obtain ⟨shared, items, rfl⟩ := encodeInternalPage_eq_some encoded
  have short := items.short keySizes
  have used := items.used
  have child : decodeExtentReference (encodeExtentReference leftmost.reference) =
      leftmost.reference := decodeExtentReference_encode (fits leftmost List.mem_cons_self).1
  have keyFits := allocatorKeyLength_lt retired
  have walked := @walkAllocatorSlots_encode L _ _ "allocator internal" 2 (allocatorIndexRole retired)
    (leftmost.level + 1) 32 (allocatorKeyLength retired - shared.length)
    (encodeExtentReference leftmost.reference) shared rest (encodeSeparator shared.length)
    PreparedTreeNode.entry (decodeAllocatorChild retired shared) (encodeExtentReference_length _)
    (by decide) (allocatorIndexRole_lt retired) shallow used (by omega)
    (fun node member => (encodeSeparator_parts (keySizes node member)).1) (by
      intro left node right parts
      have member : node ∈ rest := by simp [parts]
      obtain ⟨reference, present⟩ := fits node (List.mem_cons_of_mem _ member)
      exact decodeAllocatorChild_encode (keySizes node member) reference present
        (items.split node member).2)
  have isHeader := @readPageHeader_encodePage L 2 (allocatorIndexRole retired) (leftmost.level + 1)
    (encodeExtentReference leftmost.reference) shared (rest.map (encodeSeparator shared.length))
    (encodeExtentReference_length _) (by decide) (allocatorIndexRole_lt retired) shallow
    items.used_lt
  refine ⟨encodePage_length (encodeExtentReference_length _) used,
    congrArg PageHeader.level isHeader, ?_⟩
  rw [allocatorChildren]
  rw [isHeader]
  have present : (decodeExtentReference (encodeExtentReference leftmost.reference)).null = false := by
    rw [child]
    exact (fits leftmost List.mem_cons_self).2
  rw [require_of ⟨encodedHeader_allocatorMatches, present,
      encodedHeader_allocatorBounded (encodeExtentReference_length _) short used⟩, ok_bind,
    sharedPrefix_encodePage (encodeExtentReference_length _)]
  change (walkAllocatorSlots _ _ (allocatorKeyLength retired - shared.length) _ _ _ _ _ _ _ >>= _) = _
  rw [walked, ok_bind]
  dsimp only
  rw [require_of ⟨rfl, by rw [List.map_map]; exact items.sized.symm⟩, ok_bind]
  exact congrArg (fun child => Except.ok (([], child) :: rest.map PreparedTreeNode.entry)) child

end Pages

end Miare
