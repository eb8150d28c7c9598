import Miare.Tree.Load
import Miare.Tree.Proofs.Store
import Miare.Page.Proofs.Keys

/-!
# Pages of the ordered tree

What an accepted page guarantees, and that the pages of `encodeLeafPage` and `encodeInternalPage`
are accepted with the entries they were made from.
-/

namespace Miare

open Misc

variable {L : Limits} {format later : OpenedFormat} {store larger : ExtentStore}
  {reference : ExtentReference} {shared suffix payload : Bytes} {previous : Option Bytes}
  {item : MutableTreeValue} {values : List MutableTreeValue}

/-! ## Keys -/

theorem decodeOrderedKey_ok {entry key : Bytes} {fixedLength suffixLength : Nat}
    (decoded : decodeOrderedKey L shared fixedLength previous entry = .ok (key, suffixLength)) :
    key.length ≤ L.maxKeyBytes ∧ (∀ before ∈ previous, before < key) ∧
      suffixLength ≤ entry.length - fixedLength := by
  obtain ⟨length, -, decoded⟩ := bind_eq_ok.1 decoded
  obtain ⟨suffixInside, decoded⟩ := require_bind_eq_ok.1 decoded
  obtain ⟨suffix, -, decoded⟩ := bind_eq_ok.1 decoded
  obtain ⟨⟨sized, above⟩, decoded⟩ := require_bind_eq_ok.1 decoded
  cases decoded
  exact ⟨sized, above, suffixInside⟩

/-- An entry that begins with the rest of a key. -/
theorem decodeOrderedKey_encode {rest : Bytes} {fixedLength : Nat}
    (long : fixedLength ≤ 4 + rest.length) (small : suffix.length < 2 ^ 32)
    (sized : (shared ++ suffix).length ≤ L.maxKeyBytes)
    (above : ∀ before ∈ previous, before < shared ++ suffix) :
    decodeOrderedKey L shared fixedLength previous
        (toLittleEndian 4 suffix.length ++ (suffix ++ rest)) =
      .ok (shared ++ suffix, suffix.length) := by
  have total : (toLittleEndian 4 suffix.length ++ (suffix ++ rest)).length =
      4 + suffix.length + rest.length := by
    simp only [List.length_append, toLittleEndian_length]
    omega
  have length : readField 4 (toLittleEndian 4 suffix.length ++ (suffix ++ rest)) 0 =
      .ok suffix.length := by
    rw [readField_of (by omega), readLittleEndian, slice_append_left (by simp)]
    have all := slice_all (toLittleEndian 4 suffix.length)
    rw [toLittleEndian_length] at all
    rw [all, ofLittleEndian_toLittleEndian (by norm_num; exact small)]
  have body : view (toLittleEndian 4 suffix.length ++ (suffix ++ rest)) 4 suffix.length =
      .ok suffix := by
    rw [view_of (by omega), slice_append_here (by simp) rfl]
  rw [decodeOrderedKey, length, ok_bind, require_of (by omega), ok_bind, body, ok_bind]
  dsimp only
  rw [require_of ⟨sized, above⟩, ok_bind]
  rfl

/-! ## Entries of leaves -/

/-- What a leaf guarantees about one of its values. -/
structure StoredValue (L : Limits) (format : OpenedFormat) (store : ExtentStore)
    (item : MutableTreeValue) : Prop where
  keySize : item.key.length ≤ L.maxKeyBytes
  valueSize : item.value.length ≤ L.maxValueBytes
  inline : item.overflow.null = true → item.value.length ≤ L.maxInlineValueBytes
  overflow : item.overflow.null = false → L.maxInlineValueBytes < item.value.length ∧
    item.overflow.Fits ∧
    ReadExtent L format store item.overflow { unitKind := 11 } (some item.value.length) item.value

theorem StoredValue.mono (after : format.Before later)
    (within : store.Within format.generation larger) (stored : StoredValue L format store item) :
    StoredValue L later larger item :=
  { stored with
    overflow := fun outside =>
      ⟨(stored.overflow outside).1, (stored.overflow outside).2.1,
        (stored.overflow outside).2.2.mono after within⟩ }

theorem decodeLeafEntry_ok {entry : Bytes}
    (decoded : decodeLeafEntry L format store shared previous entry = .ok item) :
    StoredValue L format store item ∧ ∀ before ∈ previous, before < item.key := by
  obtain ⟨⟨key, suffixLength⟩, keyed, decoded⟩ := bind_eq_ok.1 decoded
  obtain ⟨keySize, above, -⟩ := decodeOrderedKey_ok keyed
  obtain ⟨representation, -, decoded⟩ := bind_eq_ok.1 decoded
  obtain ⟨-, decoded⟩ := require_bind_eq_ok.1 decoded
  obtain ⟨valueLength, -, decoded⟩ := bind_eq_ok.1 decoded
  obtain ⟨⟨valueSize, outside, -⟩, decoded⟩ := require_bind_eq_ok.1 decoded
  split at decoded
  · rename_i isOverflow
    obtain ⟨bytes, -, decoded⟩ := bind_eq_ok.1 decoded
    obtain ⟨value, found, decoded⟩ := bind_eq_ok.1 decoded
    cases decoded
    have read := readAuthenticatedExtent_eq_ok.1 found
    have length : value.length = valueLength := read.sized.1 _ rfl
    rw [← length] at read valueSize outside
    refine ⟨⟨keySize, valueSize, fun null => ?_, fun _ => ?_⟩, above⟩
    · exact absurd read.present (by rw [null]; decide)
    · exact ⟨outside.1 isOverflow, decodeExtentReference_fits _, read⟩
  · rename_i isInline
    obtain ⟨value, viewed, decoded⟩ := bind_eq_ok.1 decoded
    obtain ⟨inside, rfl⟩ := view_eq_ok.1 viewed
    cases decoded
    have length := slice_length inside
    refine ⟨⟨keySize, by rw [length]; exact valueSize, fun _ => ?_, fun null => ?_⟩, above⟩
    · rw [length]
      exact Nat.le_of_not_lt fun long => isInline (outside.2 long)
    · exact nomatch null

/-- The byte that says how a value is represented. -/
def representationByte (item : MutableTreeValue) : Byte :=
  if item.overflow.null then 0 else 1

theorem representationByte_eq_one :
    representationByte item = 1 ↔ item.overflow.null = false := by
  unfold representationByte
  cases item.overflow.null <;> simp

/-- What stands in place of the value. -/
def storedTail (item : MutableTreeValue) : Bytes :=
  if item.overflow.null then item.value else encodeExtentReference item.overflow

theorem encodeLeafEntry_eq (whole : item.key = shared ++ suffix) :
    encodeLeafEntry shared.length item =
      toLittleEndian 4 suffix.length ++ (suffix ++
        ((representationByte item :: List.replicate 7 0) ++
          (toLittleEndian 8 item.value.length ++ storedTail item))) := by
  have rest : item.key.drop shared.length = suffix := by rw [whole, List.drop_left]
  have length : item.key.length - shared.length = suffix.length := by
    rw [whole, List.length_append]
    omega
  simp only [encodeLeafEntry, rest, length, representationByte, storedTail, List.append_assoc]

theorem storedTail_length :
    (storedTail item).length = inlineLength item := by
  unfold storedTail inlineLength
  split <;> simp

/-- The fields of a leaf entry behind its key. -/
theorem leafEntry_fields {flagged tail : Bytes} {length : Nat} (eight : flagged.length = 8)
    (fits : length < 2 ^ 64) {entry : Bytes}
    (is : entry = toLittleEndian 4 suffix.length ++ (suffix ++
      (flagged ++ (toLittleEndian 8 length ++ tail)))) :
    view entry (4 + suffix.length) 8 = .ok flagged ∧
      readField 8 entry (4 + suffix.length + 8) = .ok length ∧
      view entry (4 + suffix.length + 16) tail.length = .ok tail ∧
      entry.length = 20 + suffix.length + tail.length := by
  have total : entry.length = 20 + suffix.length + tail.length := by
    rw [is]
    simp only [List.length_append, toLittleEndian_length, eight]
    omega
  refine ⟨?_, ?_, ?_, total⟩
  · rw [view_of (by omega), is, ← List.append_assoc,
      slice_append_here (by simp) eight.symm]
  · rw [readField_of (by omega), is, ← List.append_assoc, ← List.append_assoc,
      readLittleEndian_here (by simp [eight]; omega) (by norm_num; exact fits)]
  · rw [view_of (by omega), is, ← List.append_assoc, ← List.append_assoc, ← List.append_assoc,
      slice_append_right (by simp [eight]; omega)]
    have offset : 4 + suffix.length + 16 -
        (toLittleEndian 4 suffix.length ++ suffix ++ flagged ++ toLittleEndian 8 length).length =
          0 := by
      simp [eight]
      omega
    rw [offset, slice_all]

theorem decodeLeafEntry_encode (whole : item.key = shared ++ suffix)
    (stored : StoredValue L format store item) (small : suffix.length < 2 ^ 32)
    (above : ∀ before ∈ previous, before < item.key) :
    decodeLeafEntry L format store shared previous (encodeLeafEntry shared.length item) =
      .ok item := by
  have limit : L.maxValueBytes ≤ uint64Max := L.fits_uint64.2.1
  have fits : item.value.length < 2 ^ 64 := by
    have := stored.valueSize
    unfold uint64Max at limit
    omega
  have entry := encodeLeafEntry_eq whole
  obtain ⟨flagged, length, tail, total⟩ := leafEntry_fields rfl fits entry
  have keyed : decodeOrderedKey L shared 20 previous (encodeLeafEntry shared.length item) =
      .ok (shared ++ suffix, suffix.length) := by
    rw [entry]
    refine decodeOrderedKey_encode (by simp; omega) small (whole ▸ stored.keySize) ?_
    rw [← whole]
    exact above
  refine bind_eq_ok.2 ⟨_, keyed, bind_eq_ok.2 ⟨_, flagged, require_bind_eq_ok.2 ⟨⟨?_, rfl⟩,
    bind_eq_ok.2 ⟨_, length, require_bind_eq_ok.2 ⟨⟨stored.valueSize, ?_, ?_⟩, ?_⟩⟩⟩⟩⟩
  · exact (ite_eq_or_eq _ _ _)
  · rw [List.headD_cons, representationByte_eq_one]
    constructor
    · intro outside
      exact (stored.overflow outside).1
    · intro long
      by_contra inside
      have := stored.inline (Bool.not_eq_false _ ▸ inside)
      omega
  · simp only [List.headD_cons, representationByte_eq_one, total, storedTail_length, inlineLength]
    cases item.overflow.null <;> rfl
  · -- the value stands in the entry, or in an extent of its own
    by_cases inside : item.overflow.null = true
    · have isTail : storedTail item = item.value := if_pos inside
      rw [isTail] at tail
      rw [if_neg (by simp [representationByte_eq_one, inside]), tail, ok_bind, ← whole]
      obtain ⟨key, value, overflow⟩ := item
      obtain rfl : overflow = {} := eq_default_of_null inside
      rfl
    · have outside : item.overflow.null = false := Bool.not_eq_true _ ▸ inside
      obtain ⟨-, referenceFits, read⟩ := stored.overflow outside
      have isTail : storedTail item = encodeExtentReference item.overflow := if_neg inside
      rw [isTail, encodeExtentReference_length] at tail
      rw [if_pos (by simp [representationByte_eq_one, outside]), tail, ok_bind,
        decodeExtentReference_encode referenceFits]
      dsimp only
      rw [readAuthenticatedExtent_eq_ok.2 read, ok_bind, ← whole]
      rfl

/-! ## Separators -/

theorem decodeSeparator_ok {entry : Bytes} {item : Bytes × ExtentReference}
    (decoded : decodeSeparator L shared previous entry = .ok item) :
    item.1.length ≤ L.maxKeyBytes ∧ item.2.Fits ∧ ∀ before ∈ previous, before < item.1 := by
  obtain ⟨⟨key, suffixLength⟩, keyed, decoded⟩ := bind_eq_ok.1 decoded
  obtain ⟨keySize, above, -⟩ := decodeOrderedKey_ok keyed
  obtain ⟨bytes, -, decoded⟩ := bind_eq_ok.1 decoded
  cases decoded
  exact ⟨keySize, decodeExtentReference_fits _, above⟩

theorem encodeSeparator_eq {node : PreparedTreeNode} (whole : node.minimumKey = shared ++ suffix) :
    encodeSeparator shared.length node =
      toLittleEndian 4 suffix.length ++ (suffix ++ encodeExtentReference node.reference) := by
  have rest : node.minimumKey.drop shared.length = suffix := by rw [whole, List.drop_left]
  have length : node.minimumKey.length - shared.length = suffix.length := by
    rw [whole, List.length_append]
    omega
  simp only [encodeSeparator, rest, length, List.append_assoc]

/-- A separator is read from the front of its entry, whatever stands behind it. -/
theorem decodeSeparator_encode {node : PreparedTreeNode} (slack : Bytes)
    (whole : node.minimumKey = shared ++ suffix) (keySize : node.minimumKey.length ≤ L.maxKeyBytes)
    (fits : node.reference.Fits) (small : suffix.length < 2 ^ 32)
    (above : ∀ before ∈ previous, before < node.minimumKey) :
    decodeSeparator L shared previous (encodeSeparator shared.length node ++ slack) =
      .ok (node.minimumKey, node.reference) := by
  rw [encodeSeparator_eq whole, List.append_assoc, List.append_assoc]
  have keyed : decodeOrderedKey L shared 36 previous (toLittleEndian 4 suffix.length ++
      (suffix ++ (encodeExtentReference node.reference ++ slack))) =
        .ok (shared ++ suffix, suffix.length) :=
    decodeOrderedKey_encode (by simp; omega) small (whole ▸ keySize) (by rwa [← whole])
  have child : view (toLittleEndian 4 suffix.length ++
      (suffix ++ (encodeExtentReference node.reference ++ slack))) (4 + suffix.length) 32 =
        .ok (encodeExtentReference node.reference) := by
    rw [view_of (by simp; omega), ← List.append_assoc]
    exact congrArg Except.ok (slice_append_here (by simp) (by simp))
  refine bind_eq_ok.2 ⟨_, keyed, bind_eq_ok.2 ⟨_, child, ?_⟩⟩
  rw [decodeExtentReference_encode fits, ← whole]
  rfl

/-! ## Whole pages -/

/-- A walk that compares each key with the one before collects keys in order. -/
theorem walkPage_ordered {α : Type} {T : TreeRole} {minimumLength : Nat} {header : PageHeader}
    {Q : α → Prop} (r : Bytes → Bytes → Prop) (trans : ∀ {a b c}, r a b → r b c → r a c)
    (key : α → Bytes) (decode : Option Bytes → Bytes → Except LoadError α)
    (decoded : ∀ previous entry item, decode previous entry = .ok item →
      Q item ∧ ∀ before ∈ previous, r before (key item)) {items : List α} {stop : Nat}
    (walked : walkPage T minimumLength payload header
      (collectStep fun items => decode (previousKey key items)) [] = .ok (items, stop)) :
    (items.Pairwise fun a b => r (key a) (key b)) ∧ (∀ item ∈ items, Q item) ∧
      items.length = header.entryCount := by
  have kept : (items.Pairwise fun a b => r (key a) (key b)) ∧ ∀ item ∈ items, Q item := by
    refine walkSlots_invariant (P := fun items =>
      (items.Pairwise fun a b => r (key a) (key b)) ∧ ∀ item ∈ items, Q item)
      ?_ ⟨List.Pairwise.nil, by simp⟩ walked
    rintro before entry next ⟨ordered, all⟩ stepped
    obtain ⟨item, fresh, rfl⟩ := collectStep_eq_ok.1 stepped
    obtain ⟨good, above⟩ := decoded _ _ _ fresh
    refine ⟨(pairwise_concat (r := fun a b => r (key a) (key b)) fun first => trans first).2
      ⟨ordered, fun last isLast => ?_⟩, fun other member => ?_⟩
    · exact above (key last) (Option.mem_map_of_mem key isLast)
    · rcases List.mem_append.1 member with old | new
      · exact all other old
      · rw [List.mem_singleton.1 new]
        exact good
  refine ⟨kept.1, kept.2, ?_⟩
  have length := walkSlots_length walked
  simpa using length

/-- The values of a leaf, without what the loader collects besides. -/
def orderedLeaf (L : Limits) (format : OpenedFormat) (store : ExtentStore)
    (reference : ExtentReference) : Except LoadError (List MutableTreeValue) := do
  let (payload, header) ← openTreePage L format store orderedRole 0 reference
  let (values, stop) ← walkPage orderedRole 20 payload header
    (collectStep fun items => decodeLeafEntry L format store (sharedPrefix payload header)
      (previousKey MutableTreeValue.key items)) []
  require (.corrupt "ordered page image is noncanonical")
    (stop = header.usedLength ∧ leafSharedLength values = header.prefixLength)
  pure values

theorem orderedLeaf_ok (loaded : orderedLeaf L format store reference = .ok values) :
    values ≠ [] ∧ Increasing MutableTreeValue.key values ∧
      ∀ item ∈ values, StoredValue L format store item := by
  obtain ⟨⟨payload, header⟩, opened, loaded⟩ := bind_eq_ok.1 loaded
  obtain ⟨⟨items, stop⟩, walked, loaded⟩ := bind_eq_ok.1 loaded
  obtain ⟨-, loaded⟩ := require_bind_eq_ok.1 loaded
  cases loaded
  obtain ⟨increasing, stored, count⟩ :=
    walkPage_ordered (· < ·) lt_trans MutableTreeValue.key
      (decodeLeafEntry L format store (sharedPrefix payload header))
      (fun _ _ _ decoded => decodeLeafEntry_ok decoded) walked
  have page := openTreePage_eq_ok.1 opened
  obtain ⟨kind, -, -, accepted⟩ := page.read
  refine ⟨?_, increasing, stored⟩
  rintro rfl
  -- a leaf has level zero, so its type is one and its count is positive
  have leaf : header.type = 1 := accepted.2.2.2.2.2.2.2.1.2 accepted.2.2.2.2.2.2.1
  exact page.bounded.1 ⟨leaf, count.symm⟩

theorem encodeLeafEntry_length {shared : Nat} (short : shared ≤ item.key.length) :
    (encodeLeafEntry shared item).length =
      4 + item.key.length - shared + 16 + inlineLength item := by
  simp only [encodeLeafEntry, List.length_append, toLittleEndian_length, List.length_drop,
    List.length_cons, List.length_replicate, inlineLength]
  split <;> simp <;> omega

section Increasing

variable (increasing : Increasing MutableTreeValue.key values)

include increasing

theorem leafSharedLength_eq :
    leafSharedLength values = sharedPrefixLength (values.map MutableTreeValue.key) := by
  rw [← sharedPrefixLength_sorted _ (keys_sorted increasing), leafSharedLength,
    List.getLastD_eq_getLast?, List.getLast?_map, List.headD_eq_head?_getD, List.head?_map]

/-- The keys of a sorted leaf begin with its prefix. -/
theorem leafKey_split (member : item ∈ values) :
    leafSharedLength values ≤ item.key.length ∧
      item.key = ((values.head?.map MutableTreeValue.key).getD []).take (leafSharedLength values) ++
        item.key.drop (leafSharedLength values) := by
  rw [leafSharedLength_eq increasing, ← List.head?_map, ← List.headD_eq_head?_getD]
  exact key_split _ (List.mem_map_of_mem member)

theorem leafUsedLength_eq :
    pageUsedLength (leafSharedLength values)
        (values.map (encodeLeafEntry (leafSharedLength values))) = leafUsedLength values := by
  unfold pageUsedLength leafUsedLength entriesLength
  rw [List.length_map, List.map_map]
  congr 2
  apply List.map_congr_left
  intro item member
  exact encodeLeafEntry_length (leafKey_split increasing member).1

/-- What the encoder makes of a sorted leaf. -/
theorem encodeLeafPage_eq_some (encoded : encodeLeafPage L values = some payload) :
    ∃ shared, PageItems L MutableTreeValue.key encodeLeafEntry values shared ∧
      shared.length = leafSharedLength values ∧
      payload = encodePage L 1 1 0 noChild shared (values.map (encodeLeafEntry shared.length)) := by
  unfold encodeLeafPage at encoded
  split at encoded
  · cases encoded
  rename_i room
  have common := leafSharedLength_eq increasing
  rw [← leafUsedLength_eq increasing, Nat.not_lt, common] at room
  have page : PageItems L MutableTreeValue.key encodeLeafEntry values _ := .of_room room
  refine ⟨_, page, page.sized.trans common.symm, ?_⟩
  rw [page.sized, List.headD_eq_head?_getD, List.head?_map, ← common]
  exact (Option.some.inj encoded).symm

theorem encodeLeafPage_length (encoded : encodeLeafPage L values = some payload) :
    payload.length = L.pagePayloadBytes := by
  obtain ⟨shared, items, -, rfl⟩ := encodeLeafPage_eq_some increasing encoded
  exact encodePage_length noChild_length items.used

theorem orderedLeaf_encode (encoded : encodeLeafPage L values = some payload)
    (nonempty : values ≠ []) (stored : ∀ item ∈ values, StoredValue L format store item)
    (page : PageAt L format store orderedRole 2 reference payload) :
    orderedLeaf L format store reference = .ok values := by
  obtain ⟨shared, items, sized, rfl⟩ := encodeLeafPage_eq_some increasing encoded
  have used := items.used
  have split := items.split
  have room := pagePayloadBytes_lt L
  have opened : OpenedPage L format store orderedRole 0 reference _ _ :=
    OpenedPage.encoded (Or.inl rfl) page (Nat.zero_le _) (by simp) (by decide) rfl
      (fun _ => by simpa using nonempty) (by simp [orderedRole]) (fun _ => rfl) used
  have decodes : ∀ item ∈ values, ∀ previous, (∀ before ∈ previous, before < item.key) →
      decodeLeafEntry L format store shared previous (encodeLeafEntry shared.length item) =
        .ok item := by
    intro item member previous above
    obtain ⟨short, whole⟩ := split item member
    have inside := length_le_entriesLength
      (List.mem_map_of_mem (f := encodeLeafEntry shared.length) member)
    rw [encodeLeafEntry_length short] at inside
    refine decodeLeafEntry_encode whole (stored item member) ?_ above
    rw [List.length_drop]
    unfold pageUsedLength at used
    omega
  have long : ∀ item ∈ values, 20 ≤ (encodeLeafEntry shared.length item).length := by
    intro item member
    have short := (split item member).1
    rw [encodeLeafEntry_length short]
    omega
  rw [orderedLeaf, openTreePage_eq_ok.2 opened, ok_bind]
  dsimp only
  rw [sharedPrefix_encodePage noChild_length,
    walkPage_items (· < ·) (encodeLeafEntry shared.length) id MutableTreeValue.key
      (decodeLeafEntry L format store shared) noChild_length used long
      (by rwa [List.map_id]) decodes, ok_bind, List.map_id]
  rw [require_of ⟨rfl, sized.symm⟩, ok_bind]
  rfl

end Increasing

/-- What an internal page guarantees about its children. -/
theorem orderedChildren_ok {level : Nat} {children : List (Bytes × ExtentReference)}
    (loaded : orderedChildren L format store level reference = .ok children) :
    ∃ leftmost separators, children = ([], leftmost) :: separators ∧ leftmost.Fits ∧
      ∀ item ∈ separators, item.1.length ≤ L.maxKeyBytes ∧ item.2.Fits := by
  obtain ⟨⟨payload, header⟩, -, loaded⟩ := bind_eq_ok.1 loaded
  obtain ⟨⟨separators, stop⟩, walked, loaded⟩ := bind_eq_ok.1 loaded
  obtain ⟨-, loaded⟩ := require_bind_eq_ok.1 loaded
  cases loaded
  obtain ⟨-, good, -⟩ := walkPage_ordered (· < ·) lt_trans Prod.fst
    (decodeSeparator L (sharedPrefix payload header))
    (Q := fun item => item.1.length ≤ L.maxKeyBytes ∧ item.2.Fits)
    (fun _ _ _ decoded =>
      have facts := decodeSeparator_ok decoded
      ⟨⟨facts.1, facts.2.1⟩, facts.2.2⟩) walked
  exact ⟨_, separators, rfl, decodeExtentReference_fits _, good⟩

/-- An internal page is read back from the front of its entries. -/
theorem orderedChildren_page {leftmost : PreparedTreeNode} {rest : List PreparedTreeNode}
    {shared : Bytes} (slack : Bytes)
    (items : PageItems L PreparedTreeNode.minimumKey encodeSeparator rest shared)
    (used : pageUsedLength shared.length
      (rest.map fun node => encodeSeparator shared.length node ++ slack) ≤ L.pagePayloadBytes)
    (shallow : leftmost.level + 1 ≤ maximumTreeLevel)
    (increasing : Increasing PreparedTreeNode.minimumKey rest)
    (keySizes : ∀ node ∈ rest, node.minimumKey.length ≤ L.maxKeyBytes)
    (fits : ∀ node ∈ leftmost :: rest, node.reference.Fits)
    (page : PageAt L format store orderedRole 1 reference
      (encodePage L 2 1 (leftmost.level + 1) (encodeExtentReference leftmost.reference) shared
        (rest.map fun node => encodeSeparator shared.length node ++ slack))) :
    orderedChildren L format store (leftmost.level + 1) reference =
      .ok (([], leftmost.reference) :: rest.map PreparedTreeNode.entry) := by
  have split := items.split
  have common := sharedPrefixLength_sorted _ (keys_sorted increasing)
  rw [← items.sized] at common
  have small := pagePayloadBytes_lt L
  have opened : OpenedPage L format store orderedRole (leftmost.level + 1) reference _ _ :=
    OpenedPage.encoded (Or.inr rfl) page shallow (by simp) (by decide)
      (encodeExtentReference_length _) (by simp) (by simp [orderedRole]) (by simp) used
  have decodes : ∀ node ∈ rest, ∀ previous, (∀ before ∈ previous, before < node.minimumKey) →
      decodeSeparator L shared previous (encodeSeparator shared.length node ++ slack) =
        .ok node.entry := by
    intro node member previous above
    obtain ⟨short, whole⟩ := split node member
    have inside := length_le_entriesLength (List.mem_map_of_mem
      (f := fun node => encodeSeparator shared.length node ++ slack) member)
    rw [List.length_append, encodeSeparator_length short] at inside
    refine decodeSeparator_encode slack whole (keySizes node member)
      (fits node (List.mem_cons_of_mem _ member)) ?_ above
    rw [List.length_drop]
    unfold pageUsedLength at used
    omega
  have long : ∀ node ∈ rest, 36 ≤ (encodeSeparator shared.length node ++ slack).length := by
    intro node member
    have short := (split node member).1
    rw [List.length_append, encodeSeparator_length short]
    omega
  rw [orderedChildren, openTreePage_eq_ok.2 opened, ok_bind]
  dsimp only [pageChildren]
  rw [sharedPrefix_encodePage (encodeExtentReference_length _),
    walkPage_items (· < ·) (fun node => encodeSeparator shared.length node ++ slack)
      PreparedTreeNode.entry Prod.fst (decodeSeparator L shared) (encodeExtentReference_length _)
      used long (List.pairwise_map.2 increasing) decodes, ok_bind]
  rw [require_of ⟨rfl, by
    rw [List.map_map]
    exact common⟩, ok_bind]
  have child : decodeExtentReference (encodeExtentReference leftmost.reference) =
      leftmost.reference := decodeExtentReference_encode (fits leftmost List.mem_cons_self)
  exact congrArg (fun child => Except.ok (([], child) :: rest.map PreparedTreeNode.entry)) child

theorem orderedChildren_encode {leftmost : PreparedTreeNode} {rest : List PreparedTreeNode}
    (encoded : encodeInternalPage L 1 (leftmost :: rest) = some payload)
    (shallow : leftmost.level + 1 ≤ maximumTreeLevel)
    (increasing : Increasing PreparedTreeNode.minimumKey rest)
    (keySizes : ∀ node ∈ rest, node.minimumKey.length ≤ L.maxKeyBytes)
    (fits : ∀ node ∈ leftmost :: rest, node.reference.Fits)
    (page : PageAt L format store orderedRole 1 reference payload) :
    orderedChildren L format store (leftmost.level + 1) reference =
      .ok (([], leftmost.reference) :: rest.map PreparedTreeNode.entry) := by
  obtain ⟨shared, items, rfl⟩ := encodeInternalPage_eq_some encoded
  refine orderedChildren_page [] items ?_ shallow increasing keySizes fits ?_
  · simp only [List.append_nil]
    exact items.used
  · simp only [List.append_nil]
    exact page

end Miare
