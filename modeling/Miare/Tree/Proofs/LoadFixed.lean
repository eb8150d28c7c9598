import Miare.Tree.Proofs.FixedPages
import Miare.Tree.Proofs.Load
import Miare.Tree.Proofs.LoadOrdered

/-!
# Loading a fixed-key tree
-/

namespace Miare

open Misc

variable {L : Limits} {format later : OpenedFormat} {store larger : ExtentStore}
  {reference : ExtentReference} {T : TreeRole} {size : Nat} {r : Bytes → Bytes → Prop}

/-- An entry as the mutable tree sees it. -/
def FixedLeafEntry.pair (entry : FixedLeafEntry) : Bytes × Bytes :=
  (entry.key, encodeExtentReference entry.reference)

/-- A value of the mutable tree that stands for an entry of the tree. -/
def FixedValue (L : Limits) (format : OpenedFormat) (size : Nat) (item : MutableTreeValue) : Prop :=
  ∃ entry : FixedLeafEntry, item = entry.toValue ∧ entry.Fits size ∧
    entry.reference.Placed L format

theorem FixedValue.mono (after : format.Before later) {item : MutableTreeValue}
    (value : FixedValue L format size item) : FixedValue L later size item := by
  obtain ⟨entry, same, fits, placed⟩ := value
  exact ⟨entry, same, fits, placed.mono after⟩

theorem map_toValue_pair (entries : List FixedLeafEntry) :
    (entries.map FixedLeafEntry.toValue).map MutableTreeValue.pair =
      entries.map FixedLeafEntry.pair := by
  rw [List.map_map]
  rfl

theorem increasing_fixedPairs {entries : List FixedLeafEntry} :
    Increasing Prod.fst (entries.map FixedLeafEntry.pair) ↔
      Increasing FixedLeafEntry.key entries :=
  List.pairwise_map

/-- Entries that fit are determined by their pairs. -/
theorem eq_of_fixedPairs {left right : List FixedLeafEntry}
    (fits : ∀ entry ∈ left, entry.reference.Fits) (fits' : ∀ entry ∈ right, entry.reference.Fits)
    (same : left.map FixedLeafEntry.pair = right.map FixedLeafEntry.pair) : left = right := by
  induction left generalizing right with
  | nil => exact (List.map_eq_nil_iff.1 same.symm).symm
  | cons first rest ih =>
    cases right with
    | nil => cases same
    | cons other others =>
      obtain ⟨here, there⟩ := List.cons.inj same
      obtain ⟨key, reference⟩ := first
      obtain ⟨otherKey, otherReference⟩ := other
      obtain ⟨sameKey, encoded⟩ := Prod.mk.inj here
      have decoded := congrArg decodeExtentReference encoded
      rw [decodeExtentReference_encode (fits _ List.mem_cons_self),
        decodeExtentReference_encode (fits' _ List.mem_cons_self)] at decoded
      obtain rfl : key = otherKey := sameKey
      obtain rfl : reference = otherReference := decoded
      rw [ih (fun entry member => fits entry (List.mem_cons_of_mem _ member))
        (fun entry member => fits' entry (List.mem_cons_of_mem _ member)) there]

/-! ## Pages of a store -/

def fixedPages (L : Limits) (format : OpenedFormat) (store : ExtentStore) (T : TreeRole) :
    Pages Bytes ExtentReference (Bytes × Bytes) where
  leaf reference pairs := ∃ entries, fixedLeafEntries L format store T reference = .ok entries ∧
    entries.map FixedLeafEntry.pair = pairs
  inner level reference children := fixedChildren L format store T level reference = .ok children

theorem fixedLoader_spec (fixedKeys : T.FixedKeys size r) :
    LoaderSpec (fixedLoader L format store T) r (fixedPages L format store T)
      (FixedValue L format size) (fun state => state.entries.map FixedLeafEntry.pair)
      (fun state pairs next => ∃ entries, next.entries = state.entries ++ entries ∧
        entries.map FixedLeafEntry.pair = pairs ∧ ∀ entry ∈ entries, entry.Fits size) where
  gathers_nil state := ⟨[], by simp, rfl, by simp⟩
  gathers_append := by
    rintro first second third _ _ ⟨front, middle, rfl, fits⟩ ⟨back, last, rfl, fits'⟩
    refine ⟨front ++ back, by rw [last, middle, List.append_assoc], List.map_append, ?_⟩
    intro entry member
    rcases List.mem_append.1 member with inFront | inBack
    · exact fits entry inFront
    · exact fits' entry inBack
  less left right := fixedKeys.less left right
  trans := fixedKeys.trans
  leaf_sound loaded := by
    obtain ⟨entries, leaf, rest⟩ := bind_eq_ok.1 loaded
    cases rest
    obtain ⟨nonempty, increasing, fits⟩ := fixedLeafEntries_ok fixedKeys leaf
    rw [map_toValue_pair]
    refine ⟨⟨entries, leaf, rfl⟩, by simpa using nonempty, List.pairwise_map.2 increasing, ?_, ?_⟩
    · intro item member
      obtain ⟨entry, inEntries, rfl⟩ := List.mem_map.1 member
      exact ⟨entry, rfl, fits entry inEntries⟩
    · exact ⟨entries, rfl, rfl, fun entry member => (fits entry member).1⟩
  leaf_complete := by
    rintro reference state _ ⟨entries, leaf, rfl⟩ - -
    refine ⟨_, _, bind_eq_ok.2 ⟨entries, leaf, rfl⟩, map_toValue_pair entries, ?_⟩
    rw [List.map_append]
  inner_sound loaded := by
    obtain ⟨children, inner, rest⟩ := bind_eq_ok.1 loaded
    cases rest
    obtain ⟨_, header, -, count⟩ := fixedChildren_opened inner
    exact ⟨inner, List.length_pos_iff.1 (by rw [count]; exact Nat.succ_pos _), [], by simp, rfl,
      by simp⟩
  inner_complete {level reference state children} inner :=
    ⟨{ state with reachable := state.reachable ++ [reference] },
      bind_eq_ok.2 ⟨children, inner, rfl⟩, rfl⟩

/-! ## Later publications -/

theorem fixedHolds_opened {level : Nat} {pairs : List (Bytes × Bytes)}
    (holds : HoldsBy r Prod.fst (fixedPages L format store T) level reference pairs) :
    ∃ payload header, OpenedPage L format store T level reference payload header := by
  cases level with
  | zero =>
    obtain ⟨⟨entries, leaf, -⟩, -⟩ := holds
    obtain ⟨⟨payload, header⟩, opened, -⟩ := bind_eq_ok.1 leaf
    exact ⟨payload, header, openTreePage_eq_ok.1 opened⟩
  | succ level =>
    obtain ⟨children, -, inner, -⟩ := holds
    obtain ⟨⟨payload, header⟩, opened, -⟩ := bind_eq_ok.1 inner
    exact ⟨payload, header, openTreePage_eq_ok.1 opened⟩

/-- What loading leaves behind: nothing for a null root, else the tree at the root. -/
theorem loadFixedTree_ok (fixedKeys : T.FixedKeys size r) {load : FixedLoad} {root : MutableRoot}
    (loaded : loadFixedTree L format store T reference = .ok (load, root)) :
    (reference.null = true ∧ load.entries = [] ∧ root = MutableRoot.empty) ∨
      (reference.null = false ∧
        Loaded r (fixedPages L format store T) (FixedValue L format size) reference root.tree ∧
        root.tree.pairs = load.entries.map FixedLeafEntry.pair ∧
        ∀ entry ∈ load.entries, entry.Fits size) := by
  unfold loadFixedTree at loaded
  split at loaded
  · rename_i null
    cases loaded
    exact Or.inl ⟨null, rfl, rfl⟩
  · rename_i present
    obtain ⟨_, -, loaded⟩ := bind_eq_ok.1 loaded
    obtain ⟨kind, -, loaded⟩ := bind_eq_ok.1 loaded
    obtain ⟨-, loaded⟩ := require_bind_eq_ok.1 loaded
    obtain ⟨payload, -, loaded⟩ := bind_eq_ok.1 loaded
    obtain ⟨-, loaded⟩ := require_bind_eq_ok.1 loaded
    obtain ⟨⟨tree, bounds, state⟩, below, loaded⟩ := bind_eq_ok.1 loaded
    cases loaded
    obtain ⟨facts, -, entries, gathered, pairs_eq, fits⟩ :=
      loadTree_sound (fixedLoader_spec fixedKeys) below
    obtain rfl : load.entries = entries := gathered
    exact Or.inr ⟨Bool.not_eq_true _ ▸ present, facts, pairs_eq.symm, fits⟩

/-- A root that is a leaf or has two children. -/
theorem openedRoot {level : Nat}
    (opened : ∃ payload header, OpenedPage L format store T level reference payload header)
    (branches : level ≠ 0 → ∃ children,
      fixedChildren L format store T level reference = .ok children ∧ 2 ≤ children.length) :
    ∃ payload header, OpenedPage L format store T level reference payload header ∧
      ¬(header.type = 2 ∧ header.entryCount = 0) := by
  by_cases inner : level = 0
  · obtain ⟨payload, header, opened⟩ := opened
    obtain ⟨kind, -, -, accepted⟩ := opened.read
    have leaf : header.type = 1 := accepted.2.2.2.2.2.2.2.1.2
      (accepted.2.2.2.2.2.2.1.trans inner)
    exact ⟨payload, header, opened, fun both => absurd (leaf.symm.trans both.1) (by decide)⟩
  · obtain ⟨children, isInner, two⟩ := branches inner
    obtain ⟨payload, header, opened, count⟩ := fixedChildren_opened isInner
    exact ⟨payload, header, opened, fun both => by omega⟩

theorem loadFixedTree_page {level : Nat} {payload : Bytes} {header : PageHeader}
    (opened : OpenedPage L format store T level reference payload header)
    (filled : ¬(header.type = 2 ∧ header.entryCount = 0)) {tree : MutableTree level}
    {bounds : PageBounds} {next : FixedLoad}
    (loaded : loadFixedTreePage L format store T level reference { entries := [], reachable := [] } =
      .ok (tree, bounds, next)) :
    loadFixedTree L format store T reference = .ok (next, ⟨level, tree⟩) := by
  obtain ⟨kind, known, read, accepted⟩ := opened.read
  have isLevel : (readPageHeader payload).level = level := by
    rw [← opened.is_header]
    exact accepted.2.2.2.2.2.2.1
  unfold loadFixedTree
  rw [if_neg (by rw [read.present]; exact Bool.false_ne_true), opened.reference_ok, ok_bind,
    readUnitKind, read.stored, ok_bind, require_of known, ok_bind,
    readAuthenticatedExtent_eq_ok.2 read, ok_bind]
  dsimp only
  rw [require_of (by rw [← opened.is_header]; exact filled), ok_bind, isLevel]
  exact bind_eq_ok.2 ⟨_, loaded, rfl⟩

/-- A tree at a root that is a leaf or has two children loads as a whole. -/
theorem loadFixedTree_holds (fixedKeys : T.FixedKeys size r) {level : Nat}
    {pairs : List (Bytes × Bytes)}
    (holds : HoldsBy r Prod.fst (fixedPages L format store T) level reference pairs)
    (branches : level ≠ 0 → ∃ children,
      fixedChildren L format store T level reference = .ok children ∧ 2 ≤ children.length) :
    ∃ load tree, loadFixedTree L format store T reference = .ok (load, ⟨level, tree⟩) ∧
      load.entries.map FixedLeafEntry.pair = pairs := by
  obtain ⟨payload, header, opened, filled⟩ := openedRoot (fixedHolds_opened holds) branches
  obtain ⟨tree, next, loaded, gathered⟩ := @loadTree_complete _ _ _ _ _ _ _
    (fixedLoader_spec fixedKeys) level reference pairs { entries := [], reachable := [] } holds
    (fun _ impossible => nomatch impossible)
  exact ⟨next, tree, loadFixedTree_page opened filled loaded, gathered⟩

/-! ## A catalog of one leaf -/

/-- The manifest of the Blob whose id repeats one byte. -/
def repeatedId (byte : Byte) : FixedLeafEntry where
  key := List.replicate 16 byte
  reference :=
    { blockIndex := 16 + byte.val, blockCount := 1, encodedLength := 200, creationGeneration := 1 }

theorem repeatedId_fits {byte : Byte} (small : byte.val ≤ 2) :
    (repeatedId byte).Fits 16 ∧
      (repeatedId byte).reference.Placed .default ⟨1, 2 ^ 20⟩ := by
  have placed : (repeatedId byte).reference.Placed .default ⟨1, 2 ^ 20⟩ := by
    constructor <;> simp [repeatedId, Limits.commonBlocks, commonRegionBytes, Limits.default,
      extentLayoutBytes, authenticationTagBytes, uint64Max] <;> omega
  refine ⟨⟨List.length_replicate, ?_, placed.not_null⟩, placed⟩
  simp only [ExtentReference.Fits, repeatedId]
  omega

/-- A leaf page with one manifest. -/
theorem fixedHolds_single {byte : Byte} {index : Nat} {store : ExtentStore} {payload : Bytes}
    (small : byte.val ≤ 2) (behind : 16 ≤ index) (inside : index ≤ 200)
    (encoded : encodeFixedLeafPage .default 2 [repeatedId byte] = some payload)
    (stored : store (pageReference index) = some { context := { unitKind := 4 }, payload }) :
    Holds Prod.fst (fixedPages .default ⟨1, 2 ^ 20⟩ store catalogRole) 0 (pageReference index)
      [(repeatedId byte).pair] := by
  have loaded := fixedLeafEntries_encode catalogRole_keys encoded (by simp)
    (List.pairwise_singleton _ _) (by simpa using repeatedId_fits small)
    (pageAt_reference behind inside (encodeFixedLeafPage_length encoded) stored)
  exact ⟨⟨_, loaded, rfl⟩, by simp, List.pairwise_singleton _ _⟩

theorem encodeFixedLeafPage_single (byte : Byte) :
    ∃ payload, encodeFixedLeafPage .default 2 [repeatedId byte] = some payload := by
  have room := pagePayloadBytes_lower .default
  refine Option.ne_none_iff_exists'.1 (encodeFixedLeafPage_fits ?_)
  rw [fixedLeafUsedLength_singleton, repeatedId, List.length_replicate]
  omega

end Miare
