import Miare.Allocator.Proofs.Canonical
import Miare.Tree.Proofs.CanonicalOrdered
import Miare.Tree.Proofs.PersistCatalog

/-!
# Representations of metadata pages

The pages of the fixed-key trees and of the allocator indexes have one representation each.
-/

namespace Miare

open Misc

variable {L : Limits} {format : OpenedFormat} {store : ExtentStore} {reference : ExtentReference}
  {T : TreeRole} {size : Nat} {r : Bytes → Bytes → Prop}

/-- The bytes of an entry of a fixed-key page follow from it. -/
theorem decodeFixedEntry_exact {shared entry : Bytes} {previous : Option Bytes}
    {item : FixedLeafEntry} (decoded : decodeFixedEntry T shared previous entry = .ok item) :
    entry = encodeFixedEntry shared.length item ∧ ∃ suffix, item.key = shared ++ suffix := by
  obtain ⟨suffixLength, read, decoded⟩ := bind_eq_ok.1 decoded
  obtain ⟨⟨total, -⟩, decoded⟩ := require_bind_eq_ok.1 decoded
  obtain ⟨suffix, viewed, decoded⟩ := bind_eq_ok.1 decoded
  obtain ⟨-, decoded⟩ := require_bind_eq_ok.1 decoded
  obtain ⟨bytes, childViewed, decoded⟩ := bind_eq_ok.1 decoded
  obtain ⟨-, decoded⟩ := require_bind_eq_ok.1 decoded
  cases decoded
  obtain ⟨lengthInside, isLength⟩ := readField_eq_ok.1 read
  obtain ⟨inside, isSuffix⟩ := view_eq_ok.1 viewed
  obtain ⟨childInside, isChild⟩ := view_eq_ok.1 childViewed
  have length : suffix.length = suffixLength := isSuffix ▸ slice_length inside
  have sized : SizedEntry 32 suffixLength entry :=
    ⟨total, by rw [← toLittleEndian_read lengthInside, isLength]⟩
  have parts := sized.eq_append
  rw [isSuffix, isChild, ← length] at parts
  refine ⟨?_, suffix, rfl⟩
  rw [encodeFixedEntry_eq rfl, encodeExtentReference_decode (isChild ▸ slice_length childInside)]
  exact parts

theorem decodeFixedLeafEntry_exact {shared entry : Bytes} {previous : Option Bytes}
    {item : FixedLeafEntry}
    (decoded : decodeFixedLeafEntry L format T shared previous entry = .ok item) :
    entry = encodeFixedEntry shared.length item ∧ ∃ suffix, item.key = shared ++ suffix := by
  obtain ⟨read, keyed, decoded⟩ := bind_eq_ok.1 decoded
  obtain ⟨_, -, decoded⟩ := bind_eq_ok.1 decoded
  cases decoded
  exact decodeFixedEntry_exact keyed

/-- A leaf has one representation. -/
theorem fixedLeafEntries_canonical (kinds : T.PageKinds) {entries : List FixedLeafEntry}
    (loaded : fixedLeafEntries L format store T reference = .ok entries) :
    ∃ extent, store reference = some extent ∧
      encodeFixedLeafPage L T.role entries = some extent.payload := by
  obtain ⟨⟨payload, header⟩, opened, loaded⟩ := bind_eq_ok.1 loaded
  obtain ⟨⟨items, stop⟩, walked, loaded⟩ := bind_eq_ok.1 loaded
  obtain ⟨⟨isStop, common⟩, loaded⟩ := require_bind_eq_ok.1 loaded
  cases loaded
  rw [isStop] at walked
  have page := openTreePage_eq_ok.1 opened
  obtain ⟨isPage, folded, used, sized⟩ := page.encodes kinds walked
  obtain ⟨leaf, childless⟩ := page.leaf kinds
  obtain ⟨kind, -, read, -⟩ := page.read
  obtain ⟨_, same, bytes, begins⟩ := foldlM_collectStep_exact
    (Q := fun item => ∃ suffix, item.key = sharedPrefix payload header ++ suffix)
    (encodeFixedEntry (sharedPrefix payload header).length)
    (fun _ entry _ item decoded => decodeFixedLeafEntry_exact decoded) folded
  rw [List.nil_append] at same
  subst same
  have shared : ((entries.map FixedLeafEntry.key).headD []).take
      (sharedPrefixLength (entries.map FixedLeafEntry.key)) = sharedPrefix payload header := by
    refine take_eq_shared (sized.trans common.symm) ?_ ?_
    · intro key member
      obtain ⟨item, inItems, rfl⟩ := List.mem_map.1 member
      exact begins item inItems
    · intro none
      rw [none]
      rfl
  rw [sized, ← common] at bytes
  have room : ¬L.pagePayloadBytes < fixedLeafUsedLength entries := by
    rw [← fixedUsedLength_eq, ← bytes, common]
    exact Nat.not_lt_of_le used
  refine ⟨_, read.stored, ?_⟩
  rw [encodeFixedLeafPage, if_neg room, shared]
  rw [bytes, childless, leaf] at isPage
  exact congrArg some isPage.symm

/-- The leftmost child has no separator. -/
theorem fixedChildren_leading {level : Nat} {children : List (Bytes × ExtentReference)}
    (loaded : fixedChildren L format store T level reference = .ok children) :
    ∃ leftmost separators, children = ([], leftmost) :: separators := by
  obtain ⟨⟨payload, header⟩, -, loaded⟩ := bind_eq_ok.1 loaded
  obtain ⟨-, loaded⟩ := require_bind_eq_ok.1 loaded
  obtain ⟨⟨items, stop⟩, -, loaded⟩ := bind_eq_ok.1 loaded
  obtain ⟨-, loaded⟩ := require_bind_eq_ok.1 loaded
  exact ⟨_, _, (Except.ok.inj loaded).symm⟩

/-- An internal page has one representation. -/
theorem fixedChildren_canonical (kinds : T.PageKinds) {leftmost : PreparedTreeNode}
    {rest : List PreparedTreeNode}
    (loaded : fixedChildren L format store T (leftmost.level + 1) reference =
      .ok (([], leftmost.reference) :: rest.map PreparedTreeNode.entry)) :
    ∃ extent, store reference = some extent ∧
      encodeInternalPage L T.role (leftmost :: rest) = some extent.payload := by
  obtain ⟨⟨payload, header⟩, opened, loaded⟩ := bind_eq_ok.1 loaded
  obtain ⟨-, loaded⟩ := require_bind_eq_ok.1 loaded
  obtain ⟨⟨items, stop⟩, walked, loaded⟩ := bind_eq_ok.1 loaded
  obtain ⟨⟨isStop, common⟩, loaded⟩ := require_bind_eq_ok.1 loaded
  obtain ⟨isChild, isRest⟩ := List.cons.inj (Except.ok.inj loaded)
  have isChild : decodeExtentReference header.leftmostChild = leftmost.reference :=
    congrArg Prod.snd isChild
  rw [isStop] at walked
  have page := openTreePage_eq_ok.1 opened
  obtain ⟨isPage, folded, used, sized⟩ := page.encodes kinds walked
  have child := page.child_length kinds
  obtain ⟨kind, -, read, -⟩ := page.read
  obtain ⟨_, same, bytes, begins⟩ := foldlM_collectStep_exact
    (Q := fun item => ∃ suffix, item.key = sharedPrefix payload header ++ suffix)
    (encodeFixedEntry (sharedPrefix payload header).length)
    (fun _ entry _ item decoded => decodeFixedEntry_exact decoded) folded
  rw [List.nil_append] at same
  subst same
  have toSeparators : items.map (encodeFixedEntry (sharedPrefix payload header).length) =
      rest.map (encodeSeparator (sharedPrefix payload header).length) := by
    have all := congrArg (List.map fun item : Bytes × ExtentReference =>
      encodeSeparator (sharedPrefix payload header).length ⟨item.2, item.1, 0⟩) isRest
    rwa [List.map_map, List.map_map] at all
  have keys : separators (leftmost :: rest) = items.map FixedLeafEntry.key := by
    have all := congrArg (List.map Prod.fst) isRest
    rw [List.map_map, List.map_map] at all
    exact all.symm
  rw [bytes, toSeparators, page.inner, ← encodeExtentReference_decode child, isChild] at isPage
  refine ⟨_, read.stored, encodeInternalPage_of_entries ?_ ?_ ?_ isPage⟩
  · rw [keys, sized]
    exact common.symm
  · intro node member
    have inKeys : node.minimumKey ∈ items.map FixedLeafEntry.key :=
      keys ▸ List.mem_map_of_mem member
    obtain ⟨item, inItems, isKey⟩ := List.mem_map.1 inKeys
    rw [← isKey]
    exact begins item inItems
  · rw [← toSeparators, ← bytes, sized]
    exact used

/-- The page of a fixed-key tree in memory, encoded anew from what was loaded. -/
def MutableTree.reencodeFixedPage (L : Limits) (role : Nat) :
    {level : Nat} → MutableTree level → Option Bytes
  | 0, node =>
    let leaf : MutableNode MutableTreeValue := node
    encodeFixedLeafPage L role (leaf.items.map MutableTreeValue.fixedEntry)
  | level + 1, node =>
    let inner : MutableNode (MutableTree level) := node
    encodeInternalPage L role (inner.items.map preparedNode)

/-- A page of a fixed-key tree has one representation. -/
theorem loadFixedTreePage_canonical (kinds : T.PageKinds) (fixedKeys : T.FixedKeys size r)
    {level : Nat} {state next : FixedLoad} {tree : MutableTree level} {bounds : PageBounds}
    (loaded : loadFixedTreePage L format store T level reference state =
      .ok (tree, bounds, next)) :
    ∃ extent, store reference = some extent ∧
      tree.reencodeFixedPage L T.role = some extent.payload := by
  cases level with
  | zero =>
    rw [loadFixedTreePage, loadTree] at loaded
    obtain ⟨⟨values, after⟩, leaf, loaded⟩ := bind_eq_ok.1 loaded
    cases loaded
    obtain ⟨entries, isLeaf, rest⟩ := bind_eq_ok.1 leaf
    cases rest
    obtain ⟨-, -, fits⟩ := fixedLeafEntries_ok fixedKeys isLeaf
    have same : (entries.map FixedLeafEntry.toValue).map MutableTreeValue.fixedEntry = entries := by
      rw [List.map_map]
      refine (List.map_congr_left fun entry member => ?_).trans (List.map_id entries)
      change FixedLeafEntry.mk entry.key (decodeExtentReference (encodeExtentReference _)) = entry
      rw [decodeExtentReference_encode (fits entry member).1.reference]
    obtain ⟨extent, stored, encoded⟩ := fixedLeafEntries_canonical kinds isLeaf
    exact ⟨extent, stored, (congrArg (encodeFixedLeafPage L T.role) same).trans encoded⟩
  | succ level =>
    obtain ⟨facts, -⟩ := loadTree_sound (fixedLoader_spec fixedKeys) loaded
    obtain ⟨leftmost, rest, nodes, rfl, isInner⟩ := facts.inner_nodes fun _ isInner =>
      fixedChildren_leading isInner
    obtain ⟨extent, stored, encoded⟩ := fixedChildren_canonical kinds isInner
    exact ⟨extent, stored, (congrArg (encodeInternalPage L T.role) nodes).trans encoded⟩

/-! ## All metadata pages -/

/-- The pages that hold metadata. -/
inductive MetadataPage where
  | catalog
  | chunkIndex (owner : Bytes)
  | allocatorLeaf (retired : Bool)
  | allocatorInternal (retired : Bool)

namespace MetadataPage

variable (L : Limits) (format : OpenedFormat) (store : ExtentStore)

/-- A page of a fixed-key tree loads, and `again` is what is encoded from its entries. -/
def FixedAccepts (T : TreeRole) (payload : Bytes) (again : Option Bytes) : Prop :=
  ∃ (level : Nat) (tree : MutableTree level) (bounds : PageBounds) (state next : FixedLoad)
    (reference : ExtentReference) (context : ExtentContext),
    loadFixedTreePage L format store T level reference state = .ok (tree, bounds, next) ∧
      store reference = some { context, payload } ∧ again = tree.reencodeFixedPage L T.role

/-- The payload is accepted, and `again` is what is encoded from what was read. -/
def Accepts (payload : Bytes) (again : Option Bytes) : MetadataPage → Prop
  | .catalog => FixedAccepts L format store catalogRole payload again
  | .chunkIndex owner => FixedAccepts L format store (chunkIndexRole owner) payload again
  | .allocatorLeaf retired => payload.length = L.pagePayloadBytes ∧
      ∃ runs, decodeAllocatorIndexLeaf retired payload = .ok runs ∧
        again = encodeAllocatorIndexLeaf L retired runs
  | .allocatorInternal retired => payload.length = L.pagePayloadBytes ∧
      ∃ level leftmost separators, (readPageHeader payload).level = level + 1 ∧
        allocatorChildren retired payload = .ok (([], leftmost) :: separators) ∧
        again = encodeInternalPage L (allocatorIndexRole retired)
          (⟨leftmost, [], level⟩ :: separators.map fun item => ⟨item.2, item.1, level⟩)

end MetadataPage

/-- A metadata page that is accepted is encoded in the same bytes. -/
theorem metadataPage_canonical {page : MetadataPage} {payload : Bytes} {again : Option Bytes}
    (accepted : page.Accepts L format store payload again) : again = some payload := by
  have fixedCase {T : TreeRole} {size : Nat} {r : Bytes → Bytes → Prop} (kinds : T.PageKinds)
      (fixedKeys : T.FixedKeys size r)
      (accepted : MetadataPage.FixedAccepts L format store T payload again) :
      again = some payload := by
    obtain ⟨level, tree, bounds, state, next, reference, context, loaded, stored, rfl⟩ := accepted
    obtain ⟨extent, found, encoded⟩ := loadFixedTreePage_canonical kinds fixedKeys loaded
    rw [encoded, ← Option.some.inj (stored.symm.trans found)]
  cases page with
  | catalog => exact fixedCase ⟨rfl, rfl⟩ catalogRole_keys accepted
  | chunkIndex owner => exact fixedCase ⟨rfl, rfl⟩ (chunkIndexRole_keys owner) accepted
  | allocatorLeaf retired =>
    obtain ⟨sized, runs, decoded, rfl⟩ := accepted
    exact decodeAllocatorIndexLeaf_canonical sized decoded
  | allocatorInternal retired =>
    obtain ⟨sized, level, leftmost, separators, isLevel, decoded, rfl⟩ := accepted
    refine allocatorChildren_canonical sized isLevel ?_
    rw [decoded, List.map_map]
    exact congrArg (fun rest => Except.ok (([], leftmost) :: rest)) (List.map_id separators).symm

/-- The root of a catalog with two leaves. -/
theorem metadataPage_canonical_catalog :
    ∃ (store : ExtentStore) (payload : Bytes) (tree : MutableTree 1),
      MetadataPage.catalog.Accepts .default ⟨1, 2 ^ 20⟩ store payload
          (tree.reencodeFixedPage .default 2) ∧
        tree.pairs = [(repeatedId 0).pair, (repeatedId 1).pair] ∧
        tree.reencodeFixedPage .default 2 = some payload := by
  obtain ⟨store, children, holds, -, -⟩ := fixedHolds_two_leaves
  obtain ⟨tree, load, loaded, gathered⟩ := @loadTree_complete _ _ _ _ _ _ _
    (fixedLoader_spec catalogRole_keys) 1 (pageReference 28) _ { entries := [], reachable := [] }
    holds (fun _ impossible => nomatch impossible)
  obtain ⟨-, pairs_eq⟩ := loadFixedTreePage_sound catalogRole_keys loaded
  obtain ⟨payload, header, opened⟩ := fixedHolds_opened holds
  obtain ⟨kind, -, read, -⟩ := opened.read
  have accepted : MetadataPage.catalog.Accepts .default ⟨1, 2 ^ 20⟩ store payload
      (tree.reencodeFixedPage .default 2) :=
    ⟨1, tree, _, _, load, _, _, loaded, read.stored, rfl⟩
  exact ⟨store, payload, tree, accepted, pairs_eq.trans gathered, metadataPage_canonical accepted⟩

end Miare
