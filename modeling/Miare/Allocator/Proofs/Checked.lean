import Miare.Allocator.Proofs.Canonical
import Miare.Page.Proofs.Checked
import Miare.Tree.Proofs.LoadOrdered

/-!
# Allocator pages on machine words

The parsers of the allocator indexes agree with the model, as those of the trees do; hence no parser
of pages leaves its buffers.
-/

namespace Miare

open Misc

variable {payload : Bytes}

/-! ## Slots -/

/-- Where an entry begins, in the model. -/
theorem checkedLeafRoom_agrees {usedLength entryOffset : Nat} :
    Agrees (fun _ _ => entryOffset + 4 ≤ usedLength) (checkedLeafRoom usedLength entryOffset)
      (require (.corrupt ("allocator index" ++ " entry is out of bounds"))
        (entryOffset ≤ usedLength ∧ entryOffset + 4 ≤ usedLength)) := by
  rw [← bind_pure (require _ _)]
  refine .check_part (fun accepted => accepted.1) fun above => ?_
  rw [subWord_of above, ok_bind, ← bind_pure (check _ _)]
  exact .check (by omega) fun fits => fits.2

theorem checkedInnerRoom_agrees {usedLength entryOffset : Nat} (small : usedLength < 2 ^ 31) :
    Agrees (fun _ _ => entryOffset + 4 ≤ usedLength) (checkedInnerRoom usedLength entryOffset)
      (require (.corrupt ("allocator internal" ++ " entry is out of bounds"))
        (entryOffset ≤ usedLength ∧ entryOffset + 4 ≤ usedLength)) := by
  rw [← bind_pure (require _ _)]
  refine .check_part (fun accepted => accepted.1) fun above => ?_
  rw [addWord_of (by omega), ok_bind, ← bind_pure (check _ _)]
  exact .check (by omega) fun fits => fits.2

/-- The loop over the slots, as `checkedSlots_agrees`.  The length of every entry is known. -/
theorem checkedAllocatorSlots_agrees {σ τ : Type} {R : σ → τ → Prop} {subject : String}
    {begins : Nat → Nat → Checked LoadError Unit} {tailLength keyLength : Nat} {header : PageHeader}
    {step : σ → Nat → Nat → Checked LoadError σ} {follow : τ → Bytes → Except LoadError τ}
    (small : payload.length < 2 ^ 31) (within : header.usedLength ≤ payload.length)
    (short : header.prefixLength ≤ keyLength) (sizes : tailLength ≤ 32 ∧ keyLength ≤ 16)
    (begin : ∀ entryOffset,
      Agrees (fun _ _ => entryOffset + 4 ≤ header.usedLength) (begins header.usedLength entryOffset)
        (require (.corrupt (subject ++ " entry is out of bounds"))
          (entryOffset ≤ header.usedLength ∧ entryOffset + 4 ≤ header.usedLength)))
    (each : ∀ state other entryOffset, R state other →
      entryOffset + (4 + tailLength + (keyLength - header.prefixLength)) ≤ header.usedLength →
      Agrees R (step state entryOffset (keyLength - header.prefixLength))
        (follow other (slice payload entryOffset
          (4 + tailLength + (keyLength - header.prefixLength)))))
    (index : Nat) {remaining expectedEntry : Nat}
    (slots : header.slotsOffset + (index + remaining) * 8 ≤ header.usedLength) {state : σ}
    {other : τ} (related : R state other) :
    Agrees (fun left right => R left.1 right.1 ∧ left.2 = right.2)
      (checkedAllocatorSlots subject begins tailLength keyLength payload header step remaining index
        expectedEntry state)
      (walkAllocatorSlots subject tailLength (keyLength - header.prefixLength) payload
        header.usedLength follow remaining (header.slotsOffset + index * 8) expectedEntry other) := by
  induction remaining generalizing index expectedEntry state other with
  | zero => exact ⟨related, rfl⟩
  | succ remaining ih =>
    have slot : header.slotsOffset + index * 8 + 8 ≤ payload.length := by omega
    rw [checkedAllocatorSlots, walkAllocatorSlots, checkedSlot_eq slot (by omega), ok_bind,
      readField_of (by omega), ok_bind, readField_of (by omega), ok_bind]
    generalize readLittleEndian 4 payload (header.slotsOffset + index * 8) = entryOffset
    generalize readLittleEndian 4 payload (header.slotsOffset + index * 8 + 4) = entryLength
    refine (begin entryOffset).bind fun _ _ _ room => ?_
    rw [readWord_of (by omega), ok_bind, readField_of (by omega), ok_bind]
    generalize readLittleEndian 4 payload entryOffset = suffixLength
    refine .check_part (fun accepted => accepted.1) fun isEntry => ?_
    rw [subWord_of short, ok_bind]
    refine .check_part (fun accepted => accepted.2.1) fun isSuffix => ?_
    rw [addWord_of (by omega), ok_bind]
    refine .check_part (fun accepted => accepted.2.2.1) fun isLength => ?_
    rw [subWord_of (by omega), ok_bind]
    refine .check ⟨fun fits => ⟨isEntry, isSuffix, isLength, fits⟩, fun accepted => accepted.2.2.2⟩
      fun accepted => ?_
    subst isEntry isSuffix isLength
    rw [view_of (by omega), ok_bind]
    refine (each _ _ _ related (by omega)).bind fun next after _ further => ?_
    rw [addWord_of (by omega), ok_bind]
    have tail := @ih (index + 1) (entryOffset + (4 + tailLength + (keyLength - header.prefixLength)))
      (by omega) next after further
    rwa [show header.slotsOffset + (index + 1) * 8 = header.slotsOffset + index * 8 + 8 by omega]
      at tail

/-! ## Keys -/

/-- The array of a key begins with the key. -/
theorem checkedAllocatorKey_eq {shared : Bytes} {entryOffset suffixLength : Nat}
    (short : shared.length + suffixLength ≤ allocatorKeyBytes)
    (inside : entryOffset + 4 + suffixLength ≤ payload.length) (small : payload.length < 2 ^ 31) :
    ∃ array : Bytes, checkedAllocatorKey shared payload entryOffset suffixLength = .ok array ∧
      array.length = allocatorKeyBytes ∧
      array.take (shared.length + suffixLength) =
        shared ++ slice payload (entryOffset + 4) suffixLength := by
  have suffixSize : (slice payload (entryOffset + 4) suffixLength).length = suffixLength :=
    slice_length inside
  have zeros : (List.replicate allocatorKeyBytes (0 : Byte)).length = allocatorKeyBytes :=
    List.length_replicate
  have first : (splice (List.replicate allocatorKeyBytes (0 : Byte)) 0 shared).length =
      allocatorKeyBytes := by
    rw [splice_length (by omega), zeros]
  refine ⟨splice (splice (List.replicate allocatorKeyBytes 0) 0 shared) shared.length
    (slice payload (entryOffset + 4) suffixLength), ?_, ?_, ?_⟩
  · unfold checkedAllocatorKey
    rw [copyInto_of (by omega), ok_bind, addWord_of (by omega), ok_bind, addWord_of (by omega),
      ok_bind, readBytes_of (by omega), ok_bind, Nat.add_sub_cancel_left]
    exact copyInto_of (by omega)
  · rw [splice_length (by omega), first]
  · have front : (splice (List.replicate allocatorKeyBytes (0 : Byte)) 0 shared).take shared.length =
        shared := by
      rw [splice, List.take_zero, List.nil_append, List.take_left]
    rw [splice, front]
    exact List.take_left' (by rw [List.length_append, suffixSize])

/-- The state of a loop and the items of the model. -/
structure AllocatorScan.Follows {α : Type} (size : Nat) (scan : AllocatorScan α)
    (items : List (Bytes × α)) : Prop where
  items_eq : items = scan.items.map fun item => (item.1.take size, item.2)
  sizes : ∀ item ∈ scan.items, item.1.length = allocatorKeyBytes
  canonical : scan.canonicalPrefix = scannedLength size (scan.items.map Prod.fst)

theorem AllocatorScan.Follows.nil {α : Type} {size : Nat} :
    AllocatorScan.Follows size ({ items := [], canonicalPrefix := size } : AllocatorScan α) [] :=
  ⟨rfl, fun _ member => absurd member List.not_mem_nil, rfl⟩

theorem AllocatorScan.Follows.concat {α : Type} {size : Nat} {scan : AllocatorScan α}
    {items : List (Bytes × α)} {array : Bytes} {value : α} (follows : scan.Follows size items)
    (isArray : array.length = allocatorKeyBytes) :
    AllocatorScan.Follows size
      { items := scan.items ++ [(array, value)]
        canonicalPrefix := scannedLength size (scan.items.map Prod.fst ++ [array]) }
      (items ++ [(array.take size, value)]) := by
  refine ⟨by simp [follows.items_eq], ?_, by simp⟩
  intro item member
  rcases List.mem_append.1 member with before | last
  · exact follows.sizes item before
  · rw [List.mem_singleton.1 last]
    exact isArray

theorem scannedLength_concat_le {size : Nat} {arrays : List Bytes} {array : Bytes} :
    scannedLength size (arrays ++ [array]) ≤ scannedLength size arrays := by
  cases arrays with
  | nil => exact scannedLength_le
  | cons first rest =>
    rw [List.cons_append, scannedLength_cons, scannedLength_cons, List.map_append,
      List.map_singleton, sharedPrefixLength_concat]
    exact Nat.min_le_left _ _

theorem checkedCanonicalPrefix_eq {α : Type} {size : Nat} {scan : AllocatorScan α}
    {items : List (Bytes × α)} {array : Bytes} (follows : scan.Follows size items)
    (short : size ≤ allocatorKeyBytes) (isArray : array.length = allocatorKeyBytes) :
    checkedCanonicalPrefix scan array =
      .ok (scannedLength size (scan.items.map Prod.fst ++ [array])) := by
  have arrays : ∀ other ∈ scan.items.map Prod.fst, size ≤ other.length := by
    intro other member
    obtain ⟨item, among, rfl⟩ := List.mem_map.1 member
    rw [follows.sizes item among]
    exact short
  unfold checkedCanonicalPrefix
  rw [follows.canonical, ← List.head?_map, checkedCommonPrefix_eq arrays (isArray ▸ short), ok_bind,
    Nat.min_eq_right scannedLength_concat_le]
  rfl

theorem allocatorKeyLength_le (retired : Bool) :
    8 ≤ allocatorKeyLength retired ∧ allocatorKeyLength retired ≤ allocatorKeyBytes := by
  cases retired <;> decide

/-! ## Entries -/

section Entries

variable {retired : Bool} {shared : Bytes} {entryOffset : Nat}

/-- The words of a key are read from its array. -/
theorem readWord_key {array : Bytes} {count : Nat} (isArray : array.length = allocatorKeyBytes) :
    (if retired then readWord 8 array 0 else pure 0 : Checked LoadError Nat) =
        .ok (runOfKey retired (array.take (allocatorKeyLength retired)) count).retirementGeneration ∧
      (readWord 8 array (if retired then 8 else 0) : Checked LoadError Nat) =
        .ok (runOfKey retired (array.take (allocatorKeyLength retired)) count).start := by
  have sixteen : array.length = 16 := isArray
  cases retired with
  | true =>
    have whole : array.take (allocatorKeyLength true) = array :=
      List.take_of_length_le (by rw [sixteen]; decide)
    rw [whole]
    exact ⟨readWord_of (by omega), readWord_of (by simp [sixteen])⟩
  | false =>
    have word : readLittleEndian 8 (array.take (allocatorKeyLength false)) 0 =
        readLittleEndian 8 array 0 := by
      rw [readLittleEndian, slice_take (by decide), ← readLittleEndian]
    refine ⟨rfl, ?_⟩
    rw [if_neg (by decide), readWord_of (by omega)]
    exact congrArg Except.ok word.symm

theorem checkedRunStep_agrees {scan : AllocatorScan ExtentRun} {items : List (Bytes × ExtentRun)}
    (short : shared.length ≤ allocatorKeyLength retired)
    (inside : entryOffset + (4 + 8 + (allocatorKeyLength retired - shared.length)) ≤ payload.length)
    (small : payload.length < 2 ^ 31)
    (follows : scan.Follows (allocatorKeyLength retired) items) :
    Agrees (AllocatorScan.Follows (allocatorKeyLength retired))
      (checkedRunStep retired shared payload scan entryOffset
        (allocatorKeyLength retired - shared.length))
      (collectStep (decodeAllocatorRun retired shared) items
        (slice payload entryOffset (4 + 8 + (allocatorKeyLength retired - shared.length)))) := by
  have keyShort := (allocatorKeyLength_le retired).2
  unfold checkedRunStep collectStep decodeAllocatorRun
  simp only [bind_assoc]
  obtain ⟨array, isKey, isArray, begins⟩ := @checkedAllocatorKey_eq payload shared entryOffset
    (allocatorKeyLength retired - shared.length) (by omega) (by omega) small
  rw [Nat.add_sub_cancel' short] at begins
  rw [isKey, ok_bind, view_slice (by omega) inside, ok_bind, readField_slice (by omega) inside,
    ok_bind, ← begins, show entryOffset + (4 + (allocatorKeyLength retired - shared.length)) =
      entryOffset + 4 + (allocatorKeyLength retired - shared.length) by omega]
  have words := @readWord_key retired array (readLittleEndian 8 payload
    (entryOffset + 4 + (allocatorKeyLength retired - shared.length))) isArray
  rw [words.1, ok_bind, words.2, ok_bind, addWord_of (by omega), ok_bind, addWord_of (by omega),
    ok_bind, readWord_of (by omega), ok_bind]
  generalize readLittleEndian 8 payload
    (entryOffset + 4 + (allocatorKeyLength retired - shared.length)) = count
  have same : (count ≠ 0 ∧ ∀ last ∈ scan.items.getLast?, last.2.follows
      (runOfKey retired (array.take (allocatorKeyLength retired)) count)) ↔
        (count ≠ 0 ∧ ∀ last ∈ items.getLast?, last.2.follows
          (runOfKey retired (array.take (allocatorKeyLength retired)) count)) := by
    rw [follows.items_eq, List.getLast?_map]
    cases scan.items.getLast? with
    | none => simp
    | some item => simp
  refine .check same fun _ => ?_
  rw [checkedCanonicalPrefix_eq follows keyShort isArray, ok_bind, pure_bind]
  exact follows.concat isArray

theorem checkedChildStep_agrees {scan : AllocatorScan ExtentReference}
    {items : List (Bytes × ExtentReference)} (short : shared.length ≤ allocatorKeyLength retired)
    (inside : entryOffset + (4 + 32 + (allocatorKeyLength retired - shared.length)) ≤ payload.length)
    (small : payload.length < 2 ^ 31)
    (follows : scan.Follows (allocatorKeyLength retired) items) :
    Agrees (AllocatorScan.Follows (allocatorKeyLength retired))
      (checkedChildStep shared payload scan entryOffset (allocatorKeyLength retired - shared.length))
      (collectStep (decodeAllocatorChild retired shared) items
        (slice payload entryOffset (4 + 32 + (allocatorKeyLength retired - shared.length)))) := by
  have keyShort := (allocatorKeyLength_le retired).2
  unfold checkedChildStep collectStep decodeAllocatorChild
  simp only [bind_assoc]
  obtain ⟨array, isKey, isArray, begins⟩ := @checkedAllocatorKey_eq payload shared entryOffset
    (allocatorKeyLength retired - shared.length) (by omega) (by omega) small
  rw [Nat.add_sub_cancel' short] at begins
  rw [isKey, ok_bind, view_slice (by omega) inside, ok_bind, view_slice (by omega) inside, ok_bind,
    ← begins, addWord_of (by omega), ok_bind, addWord_of (by omega), ok_bind, subspan_of (by omega),
    ok_bind, show entryOffset + (4 + (allocatorKeyLength retired - shared.length)) =
      entryOffset + 4 + (allocatorKeyLength retired - shared.length) by omega]
  refine .check Iff.rfl fun _ => ?_
  rw [checkedCanonicalPrefix_eq follows keyShort isArray, ok_bind, pure_bind]
  exact follows.concat isArray

end Entries

/-! ## Pages -/

theorem walkAllocatorSlots_length {α : Type} {subject : String} {tailLength suffixLength : Nat}
    {usedLength count slot position stop : Nat} {decode : List α → Bytes → Except LoadError α}
    {items last : List α}
    (walked : walkAllocatorSlots subject tailLength suffixLength payload usedLength
      (collectStep decode) count slot position items = .ok (last, stop)) :
    last.length = items.length + count := by
  have folded := (walkAllocatorSlots_named walked).2.1
  rw [foldlM_collectStep_length folded, slotEntries_length]

/-- The prefix that the loop found is the one of the model. -/
theorem AllocatorScan.Follows.shared {α : Type} {size : Nat} {scan : AllocatorScan α}
    {items : List (Bytes × α)} (follows : scan.Follows size items) (filled : items ≠ []) :
    scan.canonicalPrefix = sharedPrefixLength (items.map Prod.fst) := by
  have keys : items.map Prod.fst = (scan.items.map Prod.fst).map (List.take size) := by
    rw [follows.items_eq, List.map_map, List.map_map]
    rfl
  have arrays : scan.items.map Prod.fst ≠ [] := by
    intro none
    apply filled
    rw [follows.items_eq, List.map_eq_nil_iff.1 none, List.map_nil]
  rw [follows.canonical, scannedLength, if_neg arrays, keys]

theorem regions_of_allocatorBounded {header : PageHeader} {retired : Bool}
    (bounded : header.AllocatorBounded retired payload) :
    header.Regions (some (allocatorKeyLength retired)) payload := by
  obtain ⟨short, slots, entries, above, inside, unused⟩ := bounded
  refine ⟨fun size isSize => ?_, slots, entries, ⟨above, inside⟩, unused⟩
  rw [← Option.some.inj isSize]
  exact short

theorem PageHeader.Regions.allocatorBounded {header : PageHeader} {retired : Bool}
    (regions : header.Regions (some (allocatorKeyLength retired)) payload) :
    header.AllocatorBounded retired payload :=
  ⟨regions.keys _ rfl, regions.slots, regions.entries, regions.used.1, regions.used.2, regions.unused⟩

/-- The loop over a page whose regions are in order. -/
theorem allocatorPage_agrees {α : Type} {retired : Bool} {subject : String} {tailLength start : Nat}
    {begins : Nat → Nat → Checked LoadError Unit} {header : PageHeader}
    {step : AllocatorScan α → Nat → Nat → Checked LoadError (AllocatorScan α)}
    {decode : List (Bytes × α) → Bytes → Except LoadError (Bytes × α)}
    (regions : header.Regions (some (allocatorKeyLength retired)) payload)
    (small : payload.length < 2 ^ 31) (short : tailLength ≤ 32)
    (isStart : start = if header.entryCount = 0 then 0 else allocatorKeyLength retired)
    (begin : ∀ entryOffset,
      Agrees (fun _ _ => entryOffset + 4 ≤ header.usedLength) (begins header.usedLength entryOffset)
        (require (.corrupt (subject ++ " entry is out of bounds"))
          (entryOffset ≤ header.usedLength ∧ entryOffset + 4 ≤ header.usedLength)))
    (each : ∀ (scan : AllocatorScan α) items entryOffset,
      scan.Follows (allocatorKeyLength retired) items →
      entryOffset + (4 + tailLength + (allocatorKeyLength retired - header.prefixLength)) ≤
        payload.length →
      Agrees (AllocatorScan.Follows (allocatorKeyLength retired))
        (step scan entryOffset (allocatorKeyLength retired - header.prefixLength))
        (collectStep decode items (slice payload entryOffset
          (4 + tailLength + (allocatorKeyLength retired - header.prefixLength))))) :
    Agrees (fun left right => left.2 = right.2 ∧
        left.1.canonicalPrefix = sharedPrefixLength (right.1.map Prod.fst) ∧
        right.1 = left.1.items.map fun item => (item.1.take (allocatorKeyLength retired), item.2))
      (checkedAllocatorSlots subject begins tailLength (allocatorKeyLength retired) payload header
        step header.entryCount 0 header.entriesOffset { items := [], canonicalPrefix := start })
      (walkAllocatorSlots subject tailLength (allocatorKeyLength retired - header.prefixLength)
        payload header.usedLength (collectStep decode) header.entryCount header.slotsOffset
        header.entriesOffset []) := by
  obtain ⟨above, within⟩ := regions.used
  have entries := regions.entries
  by_cases empty : header.entryCount = 0
  · rw [isStart, if_pos empty, empty]
    exact ⟨rfl, rfl, rfl⟩
  · rw [isStart, if_neg empty]
    refine (checkedAllocatorSlots_agrees small within (regions.keys _ rfl)
      ⟨short, (allocatorKeyLength_le retired).2⟩ begin ?_ 0 (by omega)
      AllocatorScan.Follows.nil).imp ?_
    · intro scan items entryOffset follows inside
      exact each scan items entryOffset follows (by omega)
    · intro left right walked related
      have count := walkAllocatorSlots_length walked
      rw [List.length_nil, Nat.zero_add] at count
      have filled : right.1 ≠ [] := by
        intro none
        rw [none] at count
        exact empty count.symm
      exact ⟨related.2, related.1.shared filled, related.1.items_eq⟩

theorem parseAllocatorIndexLeaf_agrees {retired : Bool} (long : pageLayoutBytes ≤ payload.length)
    (small : payload.length < 2 ^ 31) :
    Agrees Eq (parseAllocatorIndexLeaf retired payload)
      (decodeAllocatorIndexLeaf retired payload) := by
  unfold parseAllocatorIndexLeaf decodeAllocatorIndexLeaf
  rw [checkedHeader_eq long, ok_bind]
  refine .check Iff.rfl fun _ => ?_
  refine .check_part (fun accepted => accepted.1) fun filled => ?_
  refine checkedRegions_agrees (fun accepted => regions_of_allocatorBounded accepted.2)
    fun regions => ?_
  have bounded := regions.allocatorBounded
  rw [require_of ⟨filled, bounded⟩, ok_bind]
  generalize readPageHeader payload = header at *
  obtain ⟨above, within⟩ := regions.used
  have slots := regions.slots
  have entries := regions.entries
  have isShared : (sharedPrefix payload header).length = header.prefixLength :=
    slice_length (by omega)
  rw [subspan_of (by omega), ok_bind, ← sharedPrefix]
  refine (allocatorPage_agrees regions small (by decide) (if_neg filled).symm
    (fun _ => checkedLeafRoom_agrees) ?_).bind ?_
  · intro scan items entryOffset follows inside
    rw [← isShared] at inside ⊢
    exact checkedRunStep_agrees (isShared ▸ bounded.1) inside small follows
  · rintro ⟨scan, stop⟩ ⟨items, _⟩ - ⟨rfl, isPrefix, rfl⟩
    dsimp only at isPrefix ⊢
    rw [isPrefix]
    refine .check Iff.rfl fun _ => ?_
    rw [List.map_map]
    rfl

theorem parseAllocatorInternalPage_agrees {retired : Bool} (long : pageLayoutBytes ≤ payload.length)
    (small : payload.length < 2 ^ 31) :
    Agrees (fun left right =>
        right = left.map fun item => (item.1.take (allocatorKeyLength retired), item.2))
      (parseAllocatorInternalPage retired payload) (allocatorChildren retired payload) := by
  unfold parseAllocatorInternalPage allocatorChildren
  rw [checkedHeader_eq long, ok_bind]
  refine .check_part (fun accepted => ⟨accepted.1, accepted.2.1⟩) fun accepted => ?_
  refine checkedRegions_agrees (fun accepted => regions_of_allocatorBounded accepted.2.2)
    fun regions => ?_
  have bounded := regions.allocatorBounded
  rw [require_of ⟨accepted.1, accepted.2, bounded⟩, ok_bind]
  generalize readPageHeader payload = header at *
  obtain ⟨above, within⟩ := regions.used
  have slots := regions.slots
  have entries := regions.entries
  have isShared : (sharedPrefix payload header).length = header.prefixLength :=
    slice_length (by omega)
  rw [subspan_of (by omega), ok_bind, ← sharedPrefix]
  refine (allocatorPage_agrees regions small (by decide) rfl
    (fun _ => checkedInnerRoom_agrees (by omega)) ?_).bind ?_
  · intro scan items entryOffset follows inside
    rw [← isShared] at inside ⊢
    exact checkedChildStep_agrees (isShared ▸ bounded.1) inside small follows
  · rintro ⟨scan, stop⟩ ⟨items, _⟩ - ⟨rfl, isPrefix, rfl⟩
    dsimp only at isPrefix ⊢
    rw [isPrefix]
    refine .check Iff.rfl fun _ => ?_
    change _ = List.map _ (([], _) :: scan.items)
    rw [List.map_cons, List.take_nil]

/-! ## All page parsers -/

theorem Limits.pagePayload_bounds {L : Limits} (sized : payload.length = L.pagePayloadBytes) :
    pageLayoutBytes ≤ payload.length ∧ payload.length < 2 ^ 31 := by
  have lower := pagePayloadBytes_lower L
  have upper := L.quantum_upper
  rw [sized]
  unfold Limits.pagePayloadBytes at *
  unfold pageLayoutBytes
  omega

theorem parseOrderedPage_of {L : Limits} {format : OpenedFormat} {store : ExtentStore}
    {kind expectedLevel : Nat} {state : OrderedLoad} {page : OrderedPage}
    (bounded : L.maxValueBytes < 2 ^ 63) (sized : payload.length = L.pagePayloadBytes)
    (parsed : orderedPage L format store kind expectedLevel state payload = .ok page) :
    parseOrderedPage L format store kind expectedLevel state payload = .ok page := by
  obtain ⟨long, small⟩ := Limits.pagePayload_bounds sized
  have agrees := @parseOrderedPage_agrees payload L format store kind expectedLevel state bounded long
    (by omega)
  rw [parsed] at agrees
  cases checked : parseOrderedPage L format store kind expectedLevel state payload with
  | ok value =>
    rw [checked] at agrees
    exact congrArg Except.ok agrees
  | error error =>
    rw [checked] at agrees
    cases error <;> cases agrees

/-- No parser of pages reads, views or copies outside its buffers or computes an offset that wraps,
whatever the bytes of the page are. -/
theorem pageParsers_inBounds {L : Limits} (format : OpenedFormat) (store : ExtentStore)
    (bounded : L.maxValueBytes < 2 ^ 63) (sized : payload.length = L.pagePayloadBytes)
    (fault : Fault) :
    (∀ kind expectedLevel state,
      parseOrderedPage L format store kind expectedLevel state payload ≠ .error (.fault fault)) ∧
    (∀ kind expectedLevel,
      parseFixedTreePage L format catalogRole kind expectedLevel payload ≠ .error (.fault fault)) ∧
    (∀ owner kind expectedLevel,
      parseFixedTreePage L format (chunkIndexRole owner) kind expectedLevel payload ≠
        .error (.fault fault)) ∧
    (∀ retired, parseAllocatorIndexLeaf retired payload ≠ .error (.fault fault)) ∧
    ∀ retired, parseAllocatorInternalPage retired payload ≠ .error (.fault fault) := by
  obtain ⟨long, small⟩ := Limits.pagePayload_bounds sized
  refine ⟨?_, ?_, ?_, ?_, ?_⟩
  · intro kind expectedLevel state
    exact (parseOrderedPage_agrees bounded long (by omega)).safe fault
  · intro kind expectedLevel
    exact (parseFixedTreePage_agrees catalogRole_sized long (by omega)).safe fault
  · intro owner kind expectedLevel
    exact (parseFixedTreePage_agrees (chunkIndexRole_sized owner) long (by omega)).safe fault
  · intro retired
    exact (parseAllocatorIndexLeaf_agrees long small).safe fault
  · intro retired
    exact (parseAllocatorInternalPage_agrees long small).safe fault

/-- A page over two leaves: its children are parsed, and the parsers of other pages refuse it. -/
theorem pageParsers_inBounds_two_leaves :
    let store : ExtentStore := fun _ => some ⟨{ unitKind := 1 }, slackPage []⟩
    let state : OrderedLoad := { values := Keyed.empty, reachable := [] }
    parseOrderedPage .default ⟨1, 2 ^ 20⟩ store 1 1 state (slackPage []) =
        .ok (.inner [([], pageReference 20), ([2], pageReference 24)]) ∧
      ∀ fault,
        (∀ kind expectedLevel, parseFixedTreePage .default ⟨1, 2 ^ 20⟩ catalogRole kind expectedLevel
          (slackPage []) ≠ .error (.fault fault)) ∧
        ∀ retired, parseAllocatorIndexLeaf retired (slackPage []) ≠ .error (.fault fault) := by
  intro store state
  have bounded : Limits.default.maxValueBytes < 2 ^ 63 := by decide
  have sized : (slackPage []).length = Limits.default.pagePayloadBytes :=
    encodePage_length (encodeExtentReference_length _) (slackPage_used (by decide))
  have parsed : orderedPage .default ⟨1, 2 ^ 20⟩ store 1 1 state (slackPage []) =
      .ok (.inner [([], pageReference 20), ([2], pageReference 24)]) := by
    have loaded := @orderedChildren_eq .default ⟨1, 2 ^ 20⟩ store (pageReference 28) 0 state
    rw [orderedChildren_slack (by decide) rfl, ok_bind] at loaded
    obtain ⟨⟨kind, payload⟩, read, parsed⟩ := bind_eq_ok.1 loaded.symm
    obtain ⟨-, -, read⟩ := bind_eq_ok.1 (require_bind_eq_ok.1 read).2
    obtain ⟨_, isKind, read⟩ := bind_eq_ok.1 read
    obtain ⟨_, isPayload, read⟩ := bind_eq_ok.1 (require_bind_eq_ok.1 read).2
    cases isKind
    cases read
    have stored := (readAuthenticatedExtent_eq_ok.1 isPayload).stored
    cases stored
    exact parsed
  refine ⟨parseOrderedPage_of bounded sized parsed, fun fault => ?_⟩
  obtain ⟨-, catalog, -, leaf, -⟩ := pageParsers_inBounds ⟨1, 2 ^ 20⟩ store bounded sized fault
  exact ⟨catalog, leaf⟩

end Miare
