import Miare.Page.Proofs.Balance
import Miare.Tree.LoadFixed
import Miare.Tree.Proofs.OrderedPages

/-!
# Pages of a fixed-key tree

What an accepted page guarantees, and that the pages of `encodeFixedLeafPage` and
`encodeInternalPage` are accepted with the entries they were made from.
-/

namespace Miare

open Misc

variable {L : Limits} {format later : OpenedFormat} {store larger : ExtentStore}
  {reference : ExtentReference} {T : TreeRole} {size : Nat} {r : Bytes → Bytes → Prop}
  {shared : Bytes} {entries : List FixedLeafEntry}

/-- A tree with keys of one size in the order `r`. -/
structure TreeRole.FixedKeys (T : TreeRole) (size : Nat) (r : Bytes → Bytes → Prop) : Prop where
  keySize : T.keySize = some size
  role : T.role < 2 ^ 32
  less : ∀ left right, fixedTreeKeyLess T.role left right = true ↔ r left right
  trans : ∀ {a b c}, r a b → r b c → r a c

theorem catalogRole_keys : catalogRole.FixedKeys 16 (· < ·) :=
  ⟨rfl, by decide, fun _ _ => decide_eq_true_iff, lt_trans⟩

/-- The order of chunk ordinals. -/
def ordinalLess (left right : Bytes) : Prop :=
  readLittleEndian 8 left 0 < readLittleEndian 8 right 0

theorem chunkIndexRole_keys (owner : Bytes) :
    (chunkIndexRole owner).FixedKeys 8 ordinalLess :=
  ⟨rfl, (by decide : 3 < 2 ^ 32), fun _ _ => decide_eq_true_iff,
    fun first second => first.trans second⟩

/-! ## Entries -/

/-- An entry that a page of the tree can have. -/
structure FixedLeafEntry.Fits (size : Nat) (entry : FixedLeafEntry) : Prop where
  keySize : entry.key.length = size
  reference : entry.reference.Fits
  present : entry.reference.null = false

theorem decodeFixedEntry_ok (fixedKeys : T.FixedKeys size r) {entry : Bytes}
    {previous : Option Bytes} {item : FixedLeafEntry}
    (decoded : decodeFixedEntry T shared previous entry = .ok item) :
    item.Fits size ∧ ∀ before ∈ previous, r before item.key := by
  obtain ⟨suffixLength, -, decoded⟩ := bind_eq_ok.1 decoded
  obtain ⟨⟨-, sized⟩, decoded⟩ := require_bind_eq_ok.1 decoded
  obtain ⟨suffix, viewed, decoded⟩ := bind_eq_ok.1 decoded
  obtain ⟨above, decoded⟩ := require_bind_eq_ok.1 decoded
  obtain ⟨bytes, -, decoded⟩ := bind_eq_ok.1 decoded
  obtain ⟨present, decoded⟩ := require_bind_eq_ok.1 decoded
  cases decoded
  obtain ⟨inside, rfl⟩ := view_eq_ok.1 viewed
  rw [fixedKeys.keySize] at sized
  refine ⟨⟨?_, decodeExtentReference_fits _, present⟩, fun before isPrevious =>
    (fixedKeys.less _ _).1 (above before isPrevious)⟩
  rw [List.length_append, slice_length inside]
  exact Option.some.inj sized

theorem encodeFixedEntry_eq {suffix : Bytes} {entry : FixedLeafEntry}
    (whole : entry.key = shared ++ suffix) :
    encodeFixedEntry shared.length entry =
      toLittleEndian 4 suffix.length ++ (suffix ++ encodeExtentReference entry.reference) := by
  have rest : entry.key.drop shared.length = suffix := by rw [whole, List.drop_left]
  have length : entry.key.length - shared.length = suffix.length := by
    rw [whole, List.length_append]
    omega
  simp only [encodeFixedEntry, rest, length, List.append_assoc]

theorem decodeFixedEntry_encode (fixedKeys : T.FixedKeys size r) {suffix : Bytes}
    {previous : Option Bytes} {entry : FixedLeafEntry} (whole : entry.key = shared ++ suffix)
    (fits : entry.Fits size) (small : suffix.length < 2 ^ 32)
    (above : ∀ before ∈ previous, r before entry.key) :
    decodeFixedEntry T shared previous (encodeFixedEntry shared.length entry) = .ok entry := by
  rw [encodeFixedEntry_eq whole]
  have total : (toLittleEndian 4 suffix.length ++
      (suffix ++ encodeExtentReference entry.reference)).length = 36 + suffix.length := by
    simp only [List.length_append, toLittleEndian_length, encodeExtentReference_length]
    omega
  have length : readField 4 (toLittleEndian 4 suffix.length ++
      (suffix ++ encodeExtentReference entry.reference)) 0 = .ok suffix.length := by
    rw [readField_of (by omega), readLittleEndian, slice_append_left (by simp)]
    have all := slice_all (toLittleEndian 4 suffix.length)
    rw [toLittleEndian_length] at all
    rw [all, ofLittleEndian_toLittleEndian (by norm_num; exact small)]
  have body : view (toLittleEndian 4 suffix.length ++
      (suffix ++ encodeExtentReference entry.reference)) 4 suffix.length = .ok suffix := by
    rw [view_of (by omega), slice_append_here (by simp) rfl]
  have child : view (toLittleEndian 4 suffix.length ++
      (suffix ++ encodeExtentReference entry.reference)) (4 + suffix.length) 32 =
        .ok (encodeExtentReference entry.reference) := by
    rw [view_of (by omega), ← List.append_assoc, slice_append_right (by simp)]
    have all := slice_all (encodeExtentReference entry.reference)
    rw [encodeExtentReference_length] at all
    simpa using all
  have sized : some (shared.length + suffix.length) = T.keySize := by
    rw [fixedKeys.keySize, ← fits.keySize, whole, List.length_append]
  refine bind_eq_ok.2 ⟨_, length, require_bind_eq_ok.2 ⟨⟨total, sized⟩, bind_eq_ok.2 ⟨_, body,
    require_bind_eq_ok.2 ⟨fun before isPrevious => ?_, bind_eq_ok.2 ⟨_, child,
      require_bind_eq_ok.2 ⟨?_, ?_⟩⟩⟩⟩⟩⟩
  · rw [fixedKeys.less, ← whole]
    exact above before isPrevious
  · rw [decodeExtentReference_encode fits.reference]
    exact fits.present
  · rw [decodeExtentReference_encode fits.reference, ← whole]
    rfl

theorem encodeFixedEntry_length {shared : Nat} {entry : FixedLeafEntry}
    (short : shared ≤ entry.key.length) :
    (encodeFixedEntry shared entry).length = 4 + entry.key.length - shared + 32 := by
  simp only [encodeFixedEntry, List.length_append, toLittleEndian_length, List.length_drop,
    encodeExtentReference_length]
  omega

theorem decodeFixedLeafEntry_ok (fixedKeys : T.FixedKeys size r) {entry : Bytes}
    {previous : Option Bytes} {item : FixedLeafEntry}
    (decoded : decodeFixedLeafEntry L format T shared previous entry = .ok item) :
    (item.Fits size ∧ item.reference.Placed L format) ∧ ∀ before ∈ previous, r before item.key := by
  obtain ⟨read, keyed, decoded⟩ := bind_eq_ok.1 decoded
  obtain ⟨_, valid, decoded⟩ := bind_eq_ok.1 decoded
  cases decoded
  obtain ⟨fits, above⟩ := decodeFixedEntry_ok fixedKeys keyed
  exact ⟨⟨fits, validateExtentReference_ok valid fits.present⟩, above⟩

/-! ## Whole pages -/

/-- The used length of a page of fixed-key entries. -/
theorem fixedUsedLength_eq (entries : List FixedLeafEntry) :
    pageUsedLength (sharedPrefixLength (entries.map FixedLeafEntry.key))
        (entries.map (encodeFixedEntry (sharedPrefixLength (entries.map FixedLeafEntry.key)))) =
      fixedLeafUsedLength entries := by
  unfold pageUsedLength fixedLeafUsedLength entriesLength
  rw [List.length_map, List.map_map]
  congr 2
  apply List.map_congr_left
  intro entry member
  exact encodeFixedEntry_length (key_split _ (List.mem_map_of_mem member)).1

/-- The walk over a page of encoded entries, with any decoder that accepts them. -/
theorem fixedWalk_encode (r : Bytes → Bytes → Prop)
    (decode : Option Bytes → Bytes → Except LoadError FixedLeafEntry) {leftmostChild : Bytes}
    {type role level : Nat} (ordered : entries.Pairwise fun a b => r a.key b.key)
    (child : leftmostChild.length = 32)
    (used : pageUsedLength shared.length (entries.map (encodeFixedEntry shared.length)) ≤
      L.pagePayloadBytes) (split : ∀ entry ∈ entries, shared.length ≤ entry.key.length ∧
      entry.key = shared ++ entry.key.drop shared.length)
    (decodes : ∀ entry ∈ entries, ∀ previous, (entry.key.drop shared.length).length < 2 ^ 32 →
      (∀ before ∈ previous, r before entry.key) →
      decode previous (encodeFixedEntry shared.length entry) = .ok entry) :
    walkPage T 36 (encodePage L type role level leftmostChild shared
          (entries.map (encodeFixedEntry shared.length)))
        (encodedHeader type role level leftmostChild shared
          (entries.map (encodeFixedEntry shared.length)))
        (collectStep fun items => decode (previousKey FixedLeafEntry.key items)) [] =
      .ok (entries, pageUsedLength shared.length
        (entries.map (encodeFixedEntry shared.length))) := by
  have room := pagePayloadBytes_lt L
  rw [walkPage_items r (encodeFixedEntry shared.length) id FixedLeafEntry.key decode child used,
    List.map_id]
  · intro entry member
    have short := (split entry member).1
    rw [encodeFixedEntry_length short]
    omega
  · rwa [List.map_id]
  · intro entry member previous above
    refine decodes entry member previous ?_ above
    have inside := length_le_entriesLength
      (List.mem_map_of_mem (f := encodeFixedEntry shared.length) member)
    rw [encodeFixedEntry_length (split entry member).1] at inside
    rw [List.length_drop]
    unfold pageUsedLength at used
    omega

theorem fixedLeafEntries_ok (fixedKeys : T.FixedKeys size r)
    (loaded : fixedLeafEntries L format store T reference = .ok entries) :
    entries ≠ [] ∧ (entries.Pairwise fun a b => r a.key b.key) ∧
      ∀ entry ∈ entries, entry.Fits size ∧ entry.reference.Placed L format := by
  obtain ⟨⟨payload, header⟩, opened, loaded⟩ := bind_eq_ok.1 loaded
  obtain ⟨⟨items, stop⟩, walked, loaded⟩ := bind_eq_ok.1 loaded
  obtain ⟨-, loaded⟩ := require_bind_eq_ok.1 loaded
  cases loaded
  obtain ⟨increasing, good, count⟩ := walkPage_ordered r fixedKeys.trans FixedLeafEntry.key
    (decodeFixedLeafEntry L format T (sharedPrefix payload header))
    (fun _ _ _ decoded => decodeFixedLeafEntry_ok fixedKeys decoded) walked
  have page := openTreePage_eq_ok.1 opened
  obtain ⟨kind, -, -, accepted⟩ := page.read
  refine ⟨?_, increasing, good⟩
  rintro rfl
  have leaf : header.type = 1 := accepted.2.2.2.2.2.2.2.1.2 accepted.2.2.2.2.2.2.1
  exact page.bounded.1 ⟨leaf, count.symm⟩

/-- What the encoder makes of a leaf. -/
theorem encodeFixedLeafPage_eq_some {role : Nat} {payload : Bytes}
    (encoded : encodeFixedLeafPage L role entries = some payload) :
    ∃ shared, PageItems L FixedLeafEntry.key encodeFixedEntry entries shared ∧
      payload = encodePage L 1 role 0 noChild shared
        (entries.map (encodeFixedEntry shared.length)) := by
  unfold encodeFixedLeafPage at encoded
  split at encoded
  · cases encoded
  rename_i room
  rw [← fixedUsedLength_eq, Nat.not_lt] at room
  have page : PageItems L FixedLeafEntry.key encodeFixedEntry entries _ := .of_room room
  refine ⟨_, page, ?_⟩
  rw [page.sized]
  exact (Option.some.inj encoded).symm

theorem fixedLeafEntries_encode (fixedKeys : T.FixedKeys size r) {payload : Bytes}
    (encoded : encodeFixedLeafPage L T.role entries = some payload) (nonempty : entries ≠ [])
    (ordered : entries.Pairwise fun a b => r a.key b.key)
    (fits : ∀ entry ∈ entries, entry.Fits size ∧ entry.reference.Placed L format)
    (page : PageAt L format store T T.leafKind reference payload) :
    fixedLeafEntries L format store T reference = .ok entries := by
  obtain ⟨shared, items, rfl⟩ := encodeFixedLeafPage_eq_some encoded
  have used := items.used
  have inside : ∀ limit ∈ T.keySize, shared.length ≤ limit := by
    rw [fixedKeys.keySize]
    rintro _ ⟨⟩
    exact items.short fun entry member => (fits entry member).1.keySize
  have opened : OpenedPage L format store T 0 reference _ _ :=
    OpenedPage.encoded (Or.inl rfl) page (Nat.zero_le _) (by simp) fixedKeys.role rfl
      (fun _ => by simpa using nonempty) inside (fun _ => rfl) used
  have decodes : ∀ entry ∈ entries, ∀ previous, (entry.key.drop shared.length).length < 2 ^ 32 →
      (∀ before ∈ previous, r before entry.key) →
      decodeFixedLeafEntry L format T shared previous (encodeFixedEntry shared.length entry) =
        .ok entry := by
    intro entry member previous small above
    refine bind_eq_ok.2 ⟨entry, decodeFixedEntry_encode fixedKeys (items.split entry member).2
      (fits entry member).1 small above, ?_⟩
    rw [validateExtentReference_placed (fits entry member).2, ok_bind]
    rfl
  rw [fixedLeafEntries, openTreePage_eq_ok.2 opened, ok_bind]
  dsimp only
  rw [sharedPrefix_encodePage noChild_length,
    fixedWalk_encode r (decodeFixedLeafEntry L format T shared) ordered noChild_length used
      items.split decodes, ok_bind]
  rw [require_of ⟨rfl, items.sized.symm⟩, ok_bind]
  rfl

theorem fixedLeafUsedLength_singleton (entry : FixedLeafEntry) :
    fixedLeafUsedLength [entry] = 140 + entry.key.length := by
  simp [fixedLeafUsedLength, sharedPrefixLength, pageLayoutBytes]
  omega

theorem encodeFixedLeafPage_fits {role : Nat}
    (fits : fixedLeafUsedLength entries ≤ L.pagePayloadBytes) :
    encodeFixedLeafPage L role entries ≠ none := by
  rw [encodeFixedLeafPage, if_neg (Nat.not_lt.2 fits)]
  exact Option.some_ne_none _

theorem encodeFixedLeafPage_length {role : Nat} {payload : Bytes}
    (encoded : encodeFixedLeafPage L role entries = some payload) :
    payload.length = L.pagePayloadBytes := by
  obtain ⟨shared, items, rfl⟩ := encodeFixedLeafPage_eq_some encoded
  exact encodePage_length noChild_length items.used

/-! ## Internal pages -/

theorem fixedChildren_opened {level : Nat} {children : List (Bytes × ExtentReference)}
    (loaded : fixedChildren L format store T level reference = .ok children) :
    ∃ payload header, OpenedPage L format store T level reference payload header ∧
      children.length = header.entryCount + 1 := by
  obtain ⟨⟨payload, header⟩, opened, loaded⟩ := bind_eq_ok.1 loaded
  obtain ⟨-, loaded⟩ := require_bind_eq_ok.1 loaded
  obtain ⟨⟨separators, stop⟩, walked, loaded⟩ := bind_eq_ok.1 loaded
  obtain ⟨-, loaded⟩ := require_bind_eq_ok.1 loaded
  cases loaded
  have count := walkSlots_length walked
  refine ⟨payload, header, openTreePage_eq_ok.1 opened, ?_⟩
  simpa using count

/-- A child of an internal page as an entry. -/
def PreparedTreeNode.fixedEntry (node : PreparedTreeNode) : FixedLeafEntry :=
  { key := node.minimumKey, reference := node.reference }

theorem fixedChildren_encode (fixedKeys : T.FixedKeys size r) {leftmost : PreparedTreeNode}
    {rest : List PreparedTreeNode} {payload : Bytes}
    (encoded : encodeInternalPage L T.role (leftmost :: rest) = some payload)
    (shallow : leftmost.level + 1 ≤ maximumTreeLevel)
    (ordered : rest.Pairwise fun a b => r a.minimumKey b.minimumKey)
    (keySizes : ∀ node ∈ rest, node.minimumKey.length = size)
    (fits : ∀ node ∈ leftmost :: rest, node.reference.Fits ∧ node.reference.null = false)
    (page : PageAt L format store T T.internalKind reference payload) :
    fixedChildren L format store T (leftmost.level + 1) reference =
      .ok (([], leftmost.reference) :: rest.map PreparedTreeNode.entry) := by
  obtain ⟨shared, items, rfl⟩ := encodeInternalPage_eq_some encoded
  -- a separator is encoded like an entry of a leaf
  have same : rest.map (encodeSeparator shared.length) =
      (rest.map PreparedTreeNode.fixedEntry).map (encodeFixedEntry shared.length) := by
    rw [List.map_map]
    rfl
  have used := items.used
  rw [same] at page used
  have inside : ∀ limit ∈ T.keySize, shared.length ≤ limit := by
    rw [fixedKeys.keySize]
    rintro _ ⟨⟩
    exact items.short keySizes
  have opened : OpenedPage L format store T (leftmost.level + 1) reference _ _ :=
    OpenedPage.encoded (Or.inr rfl) page shallow (by simp) fixedKeys.role
      (encodeExtentReference_length _) (by simp) inside (by simp) used
  have each : ∀ entry ∈ rest.map PreparedTreeNode.fixedEntry,
      (shared.length ≤ entry.key.length ∧ entry.key = shared ++ entry.key.drop shared.length) ∧
        entry.Fits size := by
    intro entry member
    obtain ⟨node, inRest, rfl⟩ := List.mem_map.1 member
    obtain ⟨reference, present⟩ := fits node (List.mem_cons_of_mem _ inRest)
    exact ⟨items.split node inRest, keySizes node inRest, reference, present⟩
  have sorted : (rest.map PreparedTreeNode.fixedEntry).Pairwise fun a b => r a.key b.key :=
    List.pairwise_map.2 ordered
  have listed : (rest.map PreparedTreeNode.fixedEntry).map
      (fun item => (item.key, item.reference)) = rest.map PreparedTreeNode.entry := by
    rw [List.map_map]
    rfl
  have child : decodeExtentReference (encodeExtentReference leftmost.reference) =
      leftmost.reference := decodeExtentReference_encode (fits leftmost List.mem_cons_self).1
  rw [fixedChildren, openTreePage_eq_ok.2 opened, ok_bind]
  dsimp only
  rw [require_of (by
      change (decodeExtentReference (encodeExtentReference leftmost.reference)).null = false
      rw [child]
      exact (fits leftmost List.mem_cons_self).2), ok_bind,
    sharedPrefix_encodePage (encodeExtentReference_length _),
    fixedWalk_encode r (decodeFixedEntry T shared) sorted
      (encodeExtentReference_length _) used (fun entry member => (each entry member).1)
      (fun entry member previous small above => decodeFixedEntry_encode fixedKeys
        (each entry member).1.2 (each entry member).2 small above), ok_bind]
  rw [require_of ⟨rfl, by
    rw [List.map_map]
    exact items.sized.symm⟩, ok_bind, listed]
  exact congrArg (fun child => Except.ok (([], child) :: rest.map PreparedTreeNode.entry)) child

end Miare
