import Miare.Page.Proofs.Canonical
import Miare.Tree.Proofs.LoadSound

/-!
# Representations of ordered pages

A leaf of the ordered tree has one representation.  An internal page has one only when its entries
are no longer than what they hold: the loader bounds the key suffix of a separator by the length of
its entry, and does not look at the bytes behind the child reference.
-/

namespace Miare

open Misc

variable {L : Limits} {format : OpenedFormat} {store : ExtentStore} {reference : ExtentReference}
  {shared entry : Bytes} {previous : Option Bytes}

/-- Pages of a role are of the page size. -/
def TreeRole.PageKinds (T : TreeRole) : Prop :=
  isPageKind T.internalKind = true ∧ isPageKind T.leafKind = true

section Opened

variable {T : TreeRole} {level : Nat} {payload : Bytes} {header : PageHeader}

theorem OpenedPage.sized (kinds : T.PageKinds)
    (opened : OpenedPage L format store T level reference payload header) :
    payload.length = L.pagePayloadBytes := by
  obtain ⟨kind, known, read, -⟩ := opened.read
  refine read.sized.2 ?_
  rcases known with rfl | rfl
  · exact kinds.1
  · exact kinds.2

theorem OpenedPage.child_length (kinds : T.PageKinds)
    (opened : OpenedPage L format store T level reference payload header) :
    header.leftmostChild.length = 32 := by
  have lower := pagePayloadBytes_lower L
  have sized := opened.sized kinds
  rw [opened.is_header]
  exact slice_length (by omega)

/-- A leaf has no child. -/
theorem OpenedPage.leaf (kinds : T.PageKinds)
    (opened : OpenedPage L format store T 0 reference payload header) :
    header.type = 1 ∧ header.leftmostChild = noChild := by
  obtain ⟨kind, -, -, accepted⟩ := opened.read
  have leaf : header.type = 1 := accepted.2.2.2.2.2.2.2.1.2 accepted.2.2.2.2.2.2.1
  have zeros := eq_replicate_of_allZero (opened.bounded.2.2.2.2.2.2.2 leaf)
  rw [opened.child_length kinds] at zeros
  exact ⟨leaf, zeros⟩

theorem OpenedPage.inner (opened : OpenedPage L format store T (level + 1) reference payload header) :
    header.type = 2 := by
  obtain ⟨kind, -, -, accepted⟩ := opened.read
  obtain ⟨-, -, known, -, -, -, leveled, leaf, -⟩ := accepted
  refine known.resolve_left fun isLeaf => ?_
  omega

/-- A page whose slots were walked to the end is the encoding of its entries. -/
theorem OpenedPage.encodes {minimumLength : Nat} {σ : Type} {step : σ → Bytes → Except LoadError σ}
    {state last : σ} (kinds : T.PageKinds)
    (opened : OpenedPage L format store T level reference payload header)
    (walked : walkPage T minimumLength payload header step state = .ok (last, header.usedLength)) :
    payload = encodePage L header.type T.role level header.leftmostChild
        (sharedPrefix payload header) (pageEntries payload) ∧
      (pageEntries payload).foldlM step state = .ok last ∧
      pageUsedLength header.prefixLength (pageEntries payload) ≤ L.pagePayloadBytes ∧
      (sharedPrefix payload header).length = header.prefixLength := by
  have sized := opened.sized kinds
  obtain ⟨kind, -, -, accepted⟩ := opened.read
  obtain ⟨named, folded⟩ := walkSlots_named walked
  have same : pageEntries payload = slotEntries payload header.entryCount header.slotsOffset := by
    rw [pageEntries, ← opened.is_header]
  have page := eq_encodePage sized opened.is_header.symm accepted opened.bounded named
  have used := opened.bounded.used (slotEntries_length _ _ _) named.stop_eq
  obtain ⟨-, -, slotsOffset, entriesOffset, above, inside, -, -⟩ := opened.bounded
  rw [same]
  refine ⟨page, folded, ?_, slice_length (by omega)⟩
  rw [← used, ← sized]
  exact inside

end Opened

/-! ## Entries -/

theorem decodeOrderedKey_fields {key : Bytes} {fixedLength suffixLength : Nat}
    (decoded : decodeOrderedKey L shared fixedLength previous entry = .ok (key, suffixLength)) :
    suffixLength = readLittleEndian 4 entry 0 ∧
      slice entry 0 4 = toLittleEndian 4 suffixLength ∧ key = shared ++ slice entry 4 suffixLength ∧
      (slice entry 4 suffixLength).length = suffixLength := by
  obtain ⟨length, read, decoded⟩ := bind_eq_ok.1 decoded
  obtain ⟨-, decoded⟩ := require_bind_eq_ok.1 decoded
  obtain ⟨suffix, viewed, decoded⟩ := bind_eq_ok.1 decoded
  obtain ⟨-, decoded⟩ := require_bind_eq_ok.1 decoded
  cases decoded
  obtain ⟨inside, isLength⟩ := readField_eq_ok.1 read
  obtain ⟨suffixInside, rfl⟩ := view_eq_ok.1 viewed
  exact ⟨isLength.symm, by rw [← isLength, toLittleEndian_read inside], rfl,
    slice_length suffixInside⟩

theorem flag_eq {flag : Bytes} (eight : flag.length = 8) (zero : allZero flag.tail = true) :
    flag = flag.headD 0 :: List.replicate 7 0 := by
  have zeros := eq_replicate_of_allZero zero
  cases flag with
  | nil => cases eight
  | cons first rest =>
    rw [List.tail_cons] at zeros
    rw [List.headD_cons, zeros, Nat.succ.inj eight]

/-- An entry whose fields are those of an item. -/
theorem eq_encodeLeafEntry {item : MutableTreeValue} {suffixLength : Nat}
    (lengthBytes : slice entry 0 4 = toLittleEndian 4 suffixLength)
    (isKey : item.key = shared ++ slice entry 4 suffixLength)
    (suffixSized : (slice entry 4 suffixLength).length = suffixLength)
    (flag : slice entry (4 + suffixLength) 8 = representationByte item :: List.replicate 7 0)
    (valueLength : slice entry (4 + suffixLength + 8) 8 = toLittleEndian 8 item.value.length)
    (tail : slice entry (4 + suffixLength + 16) (storedTail item).length = storedTail item)
    (total : entry.length = 20 + suffixLength + (storedTail item).length) :
    entry = encodeLeafEntry shared.length item := by
  have pieces := slice_eq_fields entry 0 [4, suffixLength, 8, 8, (storedTail item).length]
  have whole : [4, suffixLength, 8, 8, (storedTail item).length].sum = entry.length := by
    simp only [List.sum_cons, List.sum_nil]
    omega
  rw [whole, slice_all] at pieces
  simp only [fields, List.flatten_cons, List.flatten_nil, List.append_nil, Nat.zero_add,
    Nat.add_assoc, Nat.reduceAdd] at pieces flag valueLength tail
  rw [lengthBytes, flag, valueLength, tail] at pieces
  rw [encodeLeafEntry_eq isKey, suffixSized]
  exact pieces

/-- The bytes of a leaf entry follow from its value. -/
theorem decodeLeafEntry_exact {item : MutableTreeValue}
    (decoded : decodeLeafEntry L format store shared previous entry = .ok item) :
    entry = encodeLeafEntry shared.length item ∧ ∃ suffix, item.key = shared ++ suffix := by
  obtain ⟨⟨key, suffixLength⟩, keyed, decoded⟩ := bind_eq_ok.1 decoded
  obtain ⟨-, lengthBytes, isKey, suffixSized⟩ := decodeOrderedKey_fields keyed
  obtain ⟨representation, viewed, decoded⟩ := bind_eq_ok.1 decoded
  obtain ⟨flagInside, isFlag⟩ := view_eq_ok.1 viewed
  have eight : representation.length = 8 := isFlag ▸ slice_length flagInside
  obtain ⟨⟨known, zero⟩, decoded⟩ := require_bind_eq_ok.1 decoded
  have flag := flag_eq eight zero
  obtain ⟨valueLength, read, decoded⟩ := bind_eq_ok.1 decoded
  obtain ⟨lengthInside, isLength⟩ := readField_eq_ok.1 read
  have lengthField := toLittleEndian_read lengthInside
  rw [isLength] at lengthField
  obtain ⟨⟨-, -, total⟩, decoded⟩ := require_bind_eq_ok.1 decoded
  by_cases outside : representation.headD 0 = 1
  · rw [if_pos outside] at decoded total
    obtain ⟨bytes, referenceViewed, decoded⟩ := bind_eq_ok.1 decoded
    obtain ⟨value, found, decoded⟩ := bind_eq_ok.1 decoded
    obtain ⟨referenceInside, isReference⟩ := view_eq_ok.1 referenceViewed
    have sized : bytes.length = 32 := isReference ▸ slice_length referenceInside
    have readValue := readAuthenticatedExtent_eq_ok.1 found
    have length : value.length = valueLength := readValue.sized.1 _ rfl
    obtain rfl : item = { key, value, overflow := decodeExtentReference bytes } :=
      (Except.ok.inj decoded).symm
    have isTail : storedTail { key, value, overflow := decodeExtentReference bytes } = bytes := by
      rw [storedTail, if_neg (by simp [readValue.present]), encodeExtentReference_decode sized]
    refine ⟨eq_encodeLeafEntry lengthBytes isKey suffixSized ?_ ?_ ?_ ?_, _, isKey⟩
    · rw [isFlag, flag, outside, representationByte_eq_one.2 readValue.present]
    · rw [← lengthField, length]
    · rw [isTail, sized, isReference]
    · rw [isTail, sized, total]
  · rw [if_neg outside] at decoded total
    obtain ⟨value, viewedValue, decoded⟩ := bind_eq_ok.1 decoded
    obtain ⟨valueInside, isValue⟩ := view_eq_ok.1 viewedValue
    have length : value.length = valueLength := isValue ▸ slice_length valueInside
    obtain rfl : item = { key, value } := (Except.ok.inj decoded).symm
    have isTail : storedTail { key, value } = value := rfl
    refine ⟨eq_encodeLeafEntry lengthBytes isKey suffixSized ?_ ?_ ?_ ?_, _, isKey⟩
    · rw [isFlag, flag, known.resolve_right outside]
      rfl
    · rw [← lengthField, length]
    · rw [isTail, length, isValue]
    · rw [isTail, length, total]

theorem decodeSeparator_begins {item : Bytes × ExtentReference}
    (decoded : decodeSeparator L shared previous entry = .ok item) :
    ∃ suffix, item.1 = shared ++ suffix := by
  obtain ⟨⟨key, suffixLength⟩, keyed, decoded⟩ := bind_eq_ok.1 decoded
  obtain ⟨bytes, -, decoded⟩ := bind_eq_ok.1 decoded
  cases decoded
  exact ⟨_, (decodeOrderedKey_fields keyed).2.2.1⟩

/-- The length of a separator entry that holds nothing behind its child reference. -/
def TightEntry (entry : Bytes) : Prop := entry.length = 36 + readLittleEndian 4 entry 0

instance (entry : Bytes) : Decidable (TightEntry entry) :=
  inferInstanceAs (Decidable (_ = _))

/-- The bytes of a tight separator entry follow from the separator. -/
theorem decodeSeparator_exact {item : Bytes × ExtentReference} (tight : TightEntry entry)
    (decoded : decodeSeparator L shared previous entry = .ok item) (level : Nat) :
    entry = encodeSeparator shared.length ⟨item.2, item.1, level⟩ := by
  obtain ⟨⟨key, suffixLength⟩, keyed, decoded⟩ := bind_eq_ok.1 decoded
  obtain ⟨isLength, lengthBytes, isKey, suffixSized⟩ := decodeOrderedKey_fields keyed
  obtain ⟨bytes, viewed, decoded⟩ := bind_eq_ok.1 decoded
  obtain ⟨inside, isReference⟩ := view_eq_ok.1 viewed
  have sized : bytes.length = 32 := isReference ▸ slice_length inside
  obtain rfl : item = (key, decodeExtentReference bytes) := (Except.ok.inj decoded).symm
  have pieces := slice_eq_fields entry 0 [4, suffixLength, 32]
  have whole : [4, suffixLength, 32].sum = entry.length := by
    rw [tight, ← isLength]
    simp only [List.sum_cons, List.sum_nil]
    omega
  rw [whole, slice_all] at pieces
  simp only [fields, List.flatten_cons, List.flatten_nil, List.append_nil, Nat.zero_add] at pieces
  have node : (⟨decodeExtentReference bytes, key, level⟩ : PreparedTreeNode).minimumKey =
      shared ++ slice entry 4 suffixLength := isKey
  rw [encodeSeparator_eq node, suffixSized, encodeExtentReference_decode sized, ← lengthBytes,
    ← isReference]
  exact pieces

theorem encodeSeparator_tight {suffix : Bytes} {node : PreparedTreeNode}
    (whole : node.minimumKey = shared ++ suffix) (small : suffix.length < 2 ^ 32) :
    TightEntry (encodeSeparator shared.length node) := by
  have read := @readLittleEndian_here 4 0 suffix.length []
    (suffix ++ encodeExtentReference node.reference) rfl (by norm_num; exact small)
  rw [TightEntry, encodeSeparator_eq whole]
  rw [List.nil_append] at read
  rw [read]
  simp only [List.length_append, toLittleEndian_length, encodeExtentReference_length]
  omega

/-! ## Whole pages -/

theorem orderedRole_pageKinds : orderedRole.PageKinds := ⟨rfl, rfl⟩

/-- A leaf has one representation. -/
theorem orderedLeaf_canonical {values : List MutableTreeValue}
    (loaded : orderedLeaf L format store reference = .ok values) :
    ∃ extent, store reference = some extent ∧ encodeLeafPage L values = some extent.payload := by
  obtain ⟨⟨payload, header⟩, opened, loaded⟩ := bind_eq_ok.1 loaded
  obtain ⟨⟨items, stop⟩, walked, loaded⟩ := bind_eq_ok.1 loaded
  obtain ⟨⟨isStop, common⟩, loaded⟩ := require_bind_eq_ok.1 loaded
  cases loaded
  rw [isStop] at walked
  obtain ⟨increasing, -, -⟩ := walkPage_ordered (· < ·) lt_trans MutableTreeValue.key
    (decodeLeafEntry L format store (sharedPrefix payload header))
    (fun _ _ _ decoded => decodeLeafEntry_ok decoded) walked
  have page := openTreePage_eq_ok.1 opened
  obtain ⟨isPage, folded, used, sized⟩ := page.encodes orderedRole_pageKinds walked
  obtain ⟨leaf, childless⟩ := page.leaf orderedRole_pageKinds
  obtain ⟨kind, -, read, -⟩ := page.read
  obtain ⟨_, same, entries, begins⟩ := foldlM_collectStep_exact
    (Q := fun item => ∃ suffix, item.key = sharedPrefix payload header ++ suffix)
    (encodeLeafEntry (sharedPrefix payload header).length)
    (fun _ entry _ item decoded => decodeLeafEntry_exact decoded) folded
  rw [List.nil_append] at same
  subst same
  rw [sized, ← common] at entries
  have shared : ((values.head?.map MutableTreeValue.key).getD []).take (leafSharedLength values) =
      sharedPrefix payload header := by
    rw [← List.head?_map, ← List.headD_eq_head?_getD]
    refine take_eq_shared (sized.trans common.symm) ?_ ?_
    · intro key member
      obtain ⟨item, inItems, rfl⟩ := List.mem_map.1 member
      exact begins item inItems
    · intro none
      rw [List.map_eq_nil_iff.1 none]
      rfl
  have room : ¬L.pagePayloadBytes < leafUsedLength values := by
    rw [← leafUsedLength_eq increasing, ← entries, common]
    exact Nat.not_lt_of_le used
  refine ⟨_, read.stored, ?_⟩
  rw [encodeLeafPage, if_neg room]
  rw [entries, childless, leaf, ← shared] at isPage
  exact congrArg some isPage.symm

/-- Every entry of an internal page ends behind its child reference. -/
def TightEntries (payload : Bytes) : Prop := ∀ entry ∈ pageEntries payload, TightEntry entry

/-- The entries of an encoded internal page are tight. -/
theorem encodeInternalPage_tight {role : Nat} {leftmost : PreparedTreeNode}
    {rest : List PreparedTreeNode} {payload : Bytes} (roleFits : role < 2 ^ 32)
    (levelFits : leftmost.level + 1 < 2 ^ 32)
    (encoded : encodeInternalPage L role (leftmost :: rest) = some payload) :
    TightEntries payload := by
  obtain ⟨shared, items, rfl⟩ := encodeInternalPage_eq_some encoded
  have fits := items.used
  intro entry member
  rw [pageEntries_encodePage (encodeExtentReference_length _) (by decide) roleFits levelFits
    fits] at member
  obtain ⟨node, inRest, rfl⟩ := List.mem_map.1 member
  obtain ⟨short, whole⟩ := items.split node inRest
  -- the suffix is shorter than the page
  have inside := length_le_entriesLength
    (List.mem_map_of_mem (f := encodeSeparator shared.length) inRest)
  have room := pagePayloadBytes_lt L
  refine encodeSeparator_tight whole ?_
  rw [encodeSeparator_length short] at inside
  rw [List.length_drop]
  unfold pageUsedLength at fits
  omega

/-- An internal page is what the encoder makes of its children exactly when its entries are
tight. -/
theorem orderedChildren_canonical {leftmost : PreparedTreeNode} {rest : List PreparedTreeNode}
    (loaded : orderedChildren L format store (leftmost.level + 1) reference =
      .ok (([], leftmost.reference) :: rest.map PreparedTreeNode.entry)) :
    ∃ extent, store reference = some extent ∧
      (encodeInternalPage L 1 (leftmost :: rest) = some extent.payload ↔
        TightEntries extent.payload) := by
  obtain ⟨⟨payload, header⟩, opened, loaded⟩ := bind_eq_ok.1 loaded
  obtain ⟨⟨items, stop⟩, walked, loaded⟩ := bind_eq_ok.1 loaded
  obtain ⟨⟨isStop, common⟩, loaded⟩ := require_bind_eq_ok.1 loaded
  obtain ⟨isChild, isRest⟩ := List.cons.inj (Except.ok.inj loaded)
  rw [isStop, isRest] at walked
  rw [isRest] at common
  have isChild : decodeExtentReference header.leftmostChild = leftmost.reference :=
    congrArg Prod.snd isChild
  obtain ⟨increasing, -, -⟩ := walkPage_ordered (· < ·) lt_trans Prod.fst
    (Q := fun _ => True) (decodeSeparator L (sharedPrefix payload header))
    (fun _ _ _ decoded => ⟨trivial, (decodeSeparator_ok decoded).2.2⟩) walked
  have page := openTreePage_eq_ok.1 opened
  obtain ⟨isPage, folded, used, sized⟩ := page.encodes orderedRole_pageKinds walked
  have child := page.child_length orderedRole_pageKinds
  have shallow := page.shallow
  unfold maximumTreeLevel at shallow
  obtain ⟨kind, -, read, -⟩ := page.read
  refine ⟨_, read.stored, encodeInternalPage_tight (by decide) (by omega), fun tight => ?_⟩
  obtain ⟨_, same, entries, begins⟩ := foldlM_collectStep_exact
    (Q := fun item => ∃ suffix, item.1 = sharedPrefix payload header ++ suffix)
    (fun item => encodeSeparator (sharedPrefix payload header).length ⟨item.2, item.1, 0⟩)
    (fun _ entry member item decoded =>
      ⟨decodeSeparator_exact (tight entry member) decoded 0, decodeSeparator_begins decoded⟩) folded
  rw [List.nil_append] at same
  subst same
  have keys : (rest.map PreparedTreeNode.entry).map Prod.fst = separators (leftmost :: rest) := by
    rw [List.map_map]
    rfl
  have prefixLength : header.prefixLength = sharedPrefixLength (separators (leftmost :: rest)) := by
    rw [← common, keys]
    exact sharedPrefixLength_sorted _ (keys ▸ keys_sorted increasing)
  rw [List.map_map] at entries
  change _ = rest.map (encodeSeparator (sharedPrefix payload header).length) at entries
  rw [entries, page.inner, ← encodeExtentReference_decode child, isChild] at isPage
  refine encodeInternalPage_of_entries (sized.trans prefixLength) ?_ ?_ isPage
  · intro node member
    exact begins node.entry (List.mem_map_of_mem member)
  · rw [← entries, sized]
    exact used

/-! ## Trees that load -/

/-- A node as its parent's encoder takes it. -/
def MutableTree.preparedNode {level : Nat} (tree : MutableTree level) : PreparedTreeNode :=
  { reference := tree.reference, minimumKey := tree.minimumKey, level }

/-- The page of a tree in memory, encoded anew from what was loaded. -/
def MutableTree.reencodePage (L : Limits) : {level : Nat} → MutableTree level → Option Bytes
  | 0, node =>
    let leaf : MutableNode MutableTreeValue := node
    encodeLeafPage L leaf.items
  | level + 1, node =>
    let inner : MutableNode (MutableTree level) := node
    encodeInternalPage L 1 (inner.items.map preparedNode)

section Nodes

variable {r : Bytes → Bytes → Prop} {pages : Pages Bytes ExtentReference (Bytes × Bytes)}
  {good : MutableTreeValue → Prop} {level : Nat}

theorem Loaded.reference_eq {tree : MutableTree level} (loaded : Loaded r pages good reference tree) :
    tree.reference = reference := by
  cases level with
  | zero => exact loaded.1
  | succ level => exact loaded.1

theorem Loaded.firstKey_minimumKey {tree : MutableTree level}
    (loaded : Loaded r pages good reference tree) :
    firstKey Prod.fst tree.pairs = some tree.minimumKey := by
  have minimum : tree.minimumKey = valuesMinimum tree.values := by
    cases level with
    | zero => exact loaded.2.1
    | succ level => exact loaded.2.1
  rw [minimum, MutableTree.pairs, firstKey_pairs, valuesMinimum_eq loaded.values_ne_nil]

/-- The children in memory are those of the page. -/
theorem Loaded.entries_eq {children : List (Bytes × ExtentReference)}
    {trees : List (MutableTree level)}
    (all : List.Forall₂ (fun child tree => Loaded r pages good child.2 tree) children trees)
    (keys : List.Forall₂ (fun child tree => firstKey Prod.fst (MutableTree.pairs tree) =
      some child.1) children trees) :
    (trees.map MutableTree.preparedNode).map PreparedTreeNode.entry = children := by
  induction all with
  | nil => rfl
  | cons below _ ih =>
    cases keys with
    | cons first rest =>
      have least := below.firstKey_minimumKey
      rw [List.map_cons, List.map_cons, ih rest, PreparedTreeNode.entry, MutableTree.preparedNode,
        below.reference_eq, Option.some.inj (least.symm.trans first)]

/-- The children of a loaded internal page are the nodes in memory. -/
theorem Loaded.inner_nodes {tree : MutableTree (level + 1)}
    (loaded : Loaded r pages good reference tree)
    (leading : ∀ children, pages.inner (level + 1) reference children →
      ∃ leftmost separators, children = ([], leftmost) :: separators) :
    ∃ leftmost rest, (MutableNode.items tree).map MutableTree.preparedNode = leftmost :: rest ∧
      leftmost.level = level ∧
      pages.inner (level + 1) reference
        (([], leftmost.reference) :: rest.map PreparedTreeNode.entry) := by
  obtain ⟨-, -, ⟨children, isInner, all, keys⟩, -⟩ := loaded
  obtain ⟨leftmost, separators, rfl⟩ := leading children isInner
  generalize MutableNode.items tree = items at all keys
  cases all with
  | cons first rest =>
    rename_i child trees
    refine ⟨child.preparedNode, trees.map MutableTree.preparedNode, rfl, rfl, ?_⟩
    rw [Loaded.entries_eq rest keys,
      show child.preparedNode.reference = leftmost from first.reference_eq]
    exact isInner

end Nodes

theorem Loaded.reencode_inner {level : Nat} {tree : MutableTree (level + 1)}
    (loaded : Loaded (· < ·) (orderedPages L format store) (StoredValue L format store) reference
      tree) :
    ∃ extent, store reference = some extent ∧
      (tree.reencodePage L = some extent.payload ↔ TightEntries extent.payload) := by
  obtain ⟨leftmost, rest, nodes, rfl, isInner⟩ := loaded.inner_nodes fun children isInner => by
    obtain ⟨leftmost, separators, same, -⟩ := orderedChildren_ok isInner
    exact ⟨leftmost, separators, same⟩
  have encoded : tree.reencodePage L = encodeInternalPage L 1 (leftmost :: rest) :=
    congrArg (encodeInternalPage L 1) nodes
  rw [encoded]
  exact orderedChildren_canonical isInner

/-! ## Canonical pages -/

theorem pageEntries_slack {slack : Bytes} (short : slack.length ≤ 1) :
    pageEntries (slackPage slack) = [encodeSeparator 1 ⟨pageReference 24, [2], 0⟩ ++ slack] :=
  pageEntries_encodePage (encodeExtentReference_length _) (by decide) (by decide) (by decide)
    (slackPage_used short)

/-- A page that loads is the encoding of what was loaded from it exactly when it is a leaf, or its
entries end behind their child references. -/
theorem loadOrderedPage_canonical_iff {level : Nat} {state next : OrderedLoad}
    {tree : MutableTree level} {bounds : PageBounds}
    (loaded : loadOrderedPage L format store level reference state = .ok (tree, bounds, next)) :
    ∃ extent, store reference = some extent ∧
      (tree.reencodePage L = some extent.payload ↔ (level ≠ 0 → TightEntries extent.payload)) := by
  cases level with
  | zero =>
    rw [loadOrderedPage, loadTree] at loaded
    obtain ⟨⟨values, after⟩, leaf, loaded⟩ := bind_eq_ok.1 loaded
    cases loaded
    obtain ⟨isLeaf, -⟩ := loadOrderedLeaf_sound leaf
    obtain ⟨extent, stored, encoded⟩ := orderedLeaf_canonical isLeaf
    exact ⟨extent, stored, iff_of_true encoded fun positive => absurd rfl positive⟩
  | succ level =>
    obtain ⟨facts, -⟩ := loadTree_sound (orderedLoader_spec L format store) loaded
    obtain ⟨extent, stored, canonical⟩ := facts.reencode_inner
    refine ⟨extent, stored, canonical.trans ?_⟩
    exact ⟨fun tight _ => tight, fun tight => tight (Nat.succ_ne_zero level)⟩

/-- A page over two leaves loads, and its children are encoded in the same page. -/
theorem loadOrderedPage_canonical_two_leaves :
    ∃ (store : ExtentStore) (tree : MutableTree 1) (bounds : PageBounds) (next : OrderedLoad)
      (extent : StoredExtent),
      loadOrderedPage .default ⟨1, 2 ^ 20⟩ store 1 (pageReference 28)
        { values := Keyed.empty, reachable := [] } = .ok (tree, bounds, next) ∧
      store (pageReference 28) = some extent ∧
      tree.reencodePage .default = some extent.payload := by
  obtain ⟨first, left⟩ := encodeLeafPage_single 1
  obtain ⟨second, right⟩ := encodeLeafPage_single 2
  obtain ⟨tree, next, loaded, -⟩ := @loadTree_complete _ _ _ _ _ _ _
    (orderedLoader_spec .default ⟨1, 2 ^ 20⟩ (slackStore [] first second)) 1 (pageReference 28) _
    { values := Keyed.empty, reachable := [] }
    (orderedHolds_slack (by decide) left right) (fun _ impossible => nomatch impossible)
  obtain ⟨extent, stored, canonical⟩ := loadOrderedPage_canonical_iff loaded
  obtain rfl : extent = ⟨{ unitKind := 1 }, slackPage []⟩ := (Option.some.inj stored).symm
  refine ⟨_, tree, _, next, _, loaded, stored, canonical.2 fun _ entry member => ?_⟩
  rw [pageEntries_slack (by decide)] at member
  obtain rfl := List.mem_singleton.1 member
  decide

/-- A page over two leaves with one byte behind its child reference loads, and its children are
not encoded in this page. -/
theorem loadOrderedPage_noncanonical :
    ∃ (store : ExtentStore) (tree : MutableTree 1) (bounds : PageBounds) (next : OrderedLoad)
      (extent : StoredExtent),
      loadOrderedPage .default ⟨1, 2 ^ 20⟩ store 1 (pageReference 28)
        { values := Keyed.empty, reachable := [] } = .ok (tree, bounds, next) ∧
      store (pageReference 28) = some extent ∧
      tree.reencodePage .default ≠ some extent.payload := by
  obtain ⟨first, left⟩ := encodeLeafPage_single 1
  obtain ⟨second, right⟩ := encodeLeafPage_single 2
  obtain ⟨tree, next, loaded, -⟩ := @loadTree_complete _ _ _ _ _ _ _
    (orderedLoader_spec .default ⟨1, 2 ^ 20⟩ (slackStore [1] first second)) 1 (pageReference 28) _
    { values := Keyed.empty, reachable := [] }
    (orderedHolds_slack (by decide) left right) (fun _ impossible => nomatch impossible)
  obtain ⟨facts, -⟩ := loadTree_sound (orderedLoader_spec _ _ _) loaded
  obtain ⟨extent, stored, canonical⟩ := facts.reencode_inner
  obtain rfl : extent = ⟨{ unitKind := 1 }, slackPage [1]⟩ := (Option.some.inj stored).symm
  refine ⟨_, tree, _, next, _, loaded, stored, fun same => ?_⟩
  have tight := canonical.1 same
  have entries := @pageEntries_slack [1] (by decide)
  have bad := tight _ (entries ▸ List.mem_singleton_self _)
  exact absurd bad (by decide)

end Miare
