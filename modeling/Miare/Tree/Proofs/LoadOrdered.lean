import Miare.Tree.Proofs.Load
import Miare.Tree.Proofs.OrderedPages

/-!
# Loading the ordered tree
-/

namespace Miare

open Misc

variable {L : Limits} {format later : OpenedFormat} {store larger : ExtentStore}
  {reference : ExtentReference} {state : OrderedLoad} {items : List MutableTreeValue}
  {payload : Bytes} {level : Nat} {entries : List (Bytes × Bytes)}

/-! ## The map that a loader fills -/

theorem OrderedLoad.emplace_perm {next : OrderedLoad} {item : MutableTreeValue}
    (emplaced : state.emplace item = .ok next) :
    next.values.entries.Perm (state.values.entries ++ [item.pair]) := by
  unfold OrderedLoad.emplace at emplaced
  split at emplaced
  · cases emplaced
  · rename_i absent
    cases emplaced
    have inserted := Keyed.insertOrAssign_perm state.values (item.key, item.value)
    rw [Keyed.erase_of_find_none absent] at inserted
    exact inserted.trans (List.perm_append_singleton _ _).symm

theorem OrderedLoad.emplace_of_gt {item : MutableTreeValue}
    (above : ∀ entry ∈ state.values.entries, entry.1 < item.key) :
    ∃ next, state.emplace item = .ok next ∧
      next.values.entries = state.values.entries ++ [item.pair] := by
  have absent : state.values.find item.key = none :=
    findKey_eq_none_iff.2 fun entry member => (above entry member).ne
  unfold OrderedLoad.emplace
  rw [absent]
  exact ⟨_, rfl, putEntry_of_gt above⟩

theorem foldlM_emplace_perm {next : OrderedLoad}
    (emplaced : items.foldlM OrderedLoad.emplace state = .ok next) :
    next.values.entries.Perm (state.values.entries ++ items.map MutableTreeValue.pair) := by
  induction items generalizing state with
  | nil =>
    cases emplaced
    simp
  | cons item rest ih =>
    rw [List.foldlM_cons] at emplaced
    obtain ⟨middle, first, emplaced⟩ := bind_eq_ok.1 emplaced
    refine (ih emplaced).trans ?_
    have step := (OrderedLoad.emplace_perm first).append_right (rest.map MutableTreeValue.pair)
    rwa [List.append_assoc] at step

theorem foldlM_emplace_of_gt {items : List MutableTreeValue} {state : OrderedLoad}
    (increasing : Increasing MutableTreeValue.key items)
    (above : ∀ entry ∈ state.values.entries, ∀ item ∈ items, entry.1 < item.key) :
    ∃ next, items.foldlM OrderedLoad.emplace state = .ok next ∧
      next.values.entries = state.values.entries ++ items.map MutableTreeValue.pair := by
  induction items generalizing state with
  | nil => exact ⟨state, rfl, by simp⟩
  | cons item rest ih =>
    obtain ⟨below, increasing⟩ := increasing_cons.1 increasing
    obtain ⟨middle, first, entries⟩ := OrderedLoad.emplace_of_gt
      (fun entry member => above entry member item List.mem_cons_self)
    obtain ⟨next, emplaced, same⟩ := @ih middle increasing (by
      intro entry member other inRest
      rw [entries] at member
      rcases List.mem_append.1 member with old | new
      · exact above entry old other (List.mem_cons_of_mem _ inRest)
      · rw [List.mem_singleton.1 new]
        exact below other inRest)
    refine ⟨next, ?_, ?_⟩
    · rw [List.foldlM_cons, first, ok_bind, emplaced]
    · rw [same, entries, List.append_assoc]
      rfl

/-! ## Leaves -/

theorem orderedLeafStep_eq_ok {shared entry : Bytes}
    {state next : List MutableTreeValue × OrderedLoad} :
    orderedLeafStep L format store shared state entry = .ok next ↔
      ∃ item, decodeLeafEntry L format store shared
          (previousKey MutableTreeValue.key state.1) entry = .ok item ∧
        state.2.emplace item = .ok next.2 ∧ next.1 = state.1 ++ [item] := by
  constructor
  · intro stepped
    obtain ⟨item, decoded, stepped⟩ := bind_eq_ok.1 stepped
    obtain ⟨load, emplaced, stepped⟩ := bind_eq_ok.1 stepped
    cases stepped
    exact ⟨item, decoded, emplaced, rfl⟩
  · rintro ⟨item, decoded, emplaced, values⟩
    refine bind_eq_ok.2 ⟨item, decoded, bind_eq_ok.2 ⟨next.2, emplaced, ?_⟩⟩
    rw [← values]
    rfl

/-- The loader's walk is the plain one with the values put into the map. -/
theorem walkSlots_orderedLeafStep {slotError : String} {minimumLength usedLength : Nat}
    {shared : Bytes} {count slot position stop : Nat} {last : OrderedLoad}
    (walked : walkSlots slotError minimumLength payload usedLength
      (orderedLeafStep L format store shared) count slot position ([], state) =
        .ok ((items, last), stop)) :
    walkSlots slotError minimumLength payload usedLength
      (collectStep fun items => decodeLeafEntry L format store shared
        (previousKey MutableTreeValue.key items)) count slot position [] = .ok (items, stop) ∧
      items.foldlM OrderedLoad.emplace state = .ok last := by
  obtain ⟨final, plain, rfl, emplaced⟩ := walkSlots_simulate
    (collectStep fun items => decodeLeafEntry L format store shared
      (previousKey MutableTreeValue.key items))
    (R := fun (pair : List MutableTreeValue × OrderedLoad) items =>
      items = pair.1 ∧ items.foldlM OrderedLoad.emplace state = .ok pair.2)
    (by
      rintro ⟨items, load⟩ _ entry ⟨longer, next⟩ ⟨rfl, emplaced⟩ stepped
      obtain ⟨item, decoded, added, rfl⟩ := orderedLeafStep_eq_ok.1 stepped
      refine ⟨_, collectStep_eq_ok.2 ⟨item, decoded, rfl⟩, rfl, ?_⟩
      rw [List.foldlM_append, emplaced, ok_bind, List.foldlM_cons, added, ok_bind]
      rfl)
    ⟨rfl, rfl⟩ walked
  exact ⟨plain, emplaced⟩

/-- A plain walk whose values go into the map. -/
theorem walkSlots_collectStep {slotError : String} {minimumLength usedLength : Nat} {shared : Bytes}
    {count slot position stop : Nat} {last : List MutableTreeValue}
    (walked : walkSlots slotError minimumLength payload usedLength
      (collectStep fun items => decodeLeafEntry L format store shared
        (previousKey MutableTreeValue.key items)) count slot position items = .ok (last, stop)) :
    ∃ rest, last = items ++ rest ∧ ∀ state next,
      rest.foldlM OrderedLoad.emplace state = .ok next →
      walkSlots slotError minimumLength payload usedLength
        (orderedLeafStep L format store shared) count slot position (items, state) =
          .ok ((last, next), stop) := by
  induction count generalizing slot position items with
  | zero =>
    cases walked
    refine ⟨[], by simp, fun state next emplaced => ?_⟩
    cases emplaced
    rfl
  | succ count ih =>
    obtain ⟨length, entry, longer, named, stepped, walked⟩ := walkSlots_succ.1 walked
    obtain ⟨item, decoded, rfl⟩ := collectStep_eq_ok.1 stepped
    obtain ⟨rest, rfl, follows⟩ := ih walked
    refine ⟨item :: rest, by simp, fun state next emplaced => ?_⟩
    rw [List.foldlM_cons] at emplaced
    obtain ⟨middle, added, emplaced⟩ := bind_eq_ok.1 emplaced
    have first : orderedLeafStep L format store shared (items, state) entry =
        .ok (items ++ [item], middle) := orderedLeafStep_eq_ok.2 ⟨item, decoded, added, rfl⟩
    exact walkSlots_succ.2 ⟨length, entry, _, named, first, follows _ _ emplaced⟩

theorem loadOrderedLeaf_sound {next : OrderedLoad} {values : List MutableTreeValue}
    (loaded : loadOrderedLeaf L format store reference state = .ok (values, next)) :
    orderedLeaf L format store reference = .ok values ∧
      next.values.entries.Perm (state.values.entries ++ values.map MutableTreeValue.pair) := by
  obtain ⟨⟨payload, header⟩, opened, loaded⟩ := bind_eq_ok.1 loaded
  obtain ⟨⟨⟨items, last⟩, stop⟩, walked, loaded⟩ := bind_eq_ok.1 loaded
  obtain ⟨canonical, loaded⟩ := require_bind_eq_ok.1 loaded
  cases loaded
  obtain ⟨plain, emplaced⟩ := walkSlots_orderedLeafStep walked
  have gathered := foldlM_emplace_perm emplaced
  refine ⟨?_, gathered⟩
  exact bind_eq_ok.2 ⟨_, opened, bind_eq_ok.2 ⟨_, plain,
    require_bind_eq_ok.2 ⟨canonical, rfl⟩⟩⟩

theorem loadOrderedLeaf_complete {state : OrderedLoad} {values : List MutableTreeValue}
    (leaf : orderedLeaf L format store reference = .ok values)
    (above : ∀ entry ∈ state.values.entries, ∀ item ∈ values, entry.1 < item.key) :
    ∃ next, loadOrderedLeaf L format store reference state = .ok (values, next) ∧
      next.values.entries = state.values.entries ++ values.map MutableTreeValue.pair := by
  have increasing := (orderedLeaf_ok leaf).2.1
  obtain ⟨⟨payload, header⟩, opened, leaf⟩ := bind_eq_ok.1 leaf
  obtain ⟨⟨items, stop⟩, walked, leaf⟩ := bind_eq_ok.1 leaf
  obtain ⟨canonical, leaf⟩ := require_bind_eq_ok.1 leaf
  cases leaf
  obtain ⟨rest, rfl, follows⟩ := walkSlots_collectStep walked
  obtain ⟨next, emplaced, entries⟩ := @foldlM_emplace_of_gt _
    { state with reachable := state.reachable ++ [reference] } increasing above
  refine ⟨next, ?_, entries⟩
  exact bind_eq_ok.2 ⟨_, opened, bind_eq_ok.2 ⟨_, follows _ _ emplaced,
    require_bind_eq_ok.2 ⟨canonical, rfl⟩⟩⟩

/-! ## Pages of a store -/

/-- The pages of the ordered tree in a store. -/
def orderedPages (L : Limits) (format : OpenedFormat) (store : ExtentStore) :
    Pages Bytes ExtentReference (Bytes × Bytes) where
  leaf reference entries := ∃ values, orderedLeaf L format store reference = .ok values ∧
    values.map MutableTreeValue.pair = entries
  inner level reference children := orderedChildren L format store level reference = .ok children

theorem orderedLoader_spec (L : Limits) (format : OpenedFormat) (store : ExtentStore) :
    LoaderSpec (orderedLoader L format store) (· < ·) (orderedPages L format store)
      (StoredValue L format store) (fun state => state.values.entries)
      (fun state entries next => next.values.entries.Perm (state.values.entries ++ entries)) where
  gathers_nil state := by rw [List.append_nil]
  gathers_append first second := by
    rw [← List.append_assoc]
    exact second.trans (first.append_right _)
  less left right := decide_eq_true_iff
  trans := lt_trans
  leaf_sound loaded := by
    obtain ⟨leaf, gathered⟩ := loadOrderedLeaf_sound loaded
    obtain ⟨nonempty, increasing, stored⟩ := orderedLeaf_ok leaf
    exact ⟨⟨_, leaf, rfl⟩, nonempty, increasing, stored, gathered⟩
  leaf_complete := by
    rintro reference state _ ⟨values, leaf, rfl⟩ - above
    obtain ⟨next, loaded, entries⟩ := loadOrderedLeaf_complete leaf fun entry old item member =>
      above entry old item.pair (List.mem_map_of_mem member)
    exact ⟨values, next, loaded, rfl, entries⟩
  inner_sound loaded := by
    obtain ⟨children, inner, rest⟩ := bind_eq_ok.1 loaded
    cases rest
    obtain ⟨leftmost, separators, rfl, -⟩ := orderedChildren_ok inner
    exact ⟨inner, List.cons_ne_nil _ _, by rw [List.append_nil]⟩
  inner_complete {level reference state children} inner :=
    ⟨{ state with reachable := state.reachable ++ [reference] },
      bind_eq_ok.2 ⟨children, inner, rfl⟩, rfl⟩

/-! ## Later publications -/

section After

variable (after : format.Before later) (within : store.Within format.generation larger)

include after within

theorem decodeLeafEntry_mono {shared entry : Bytes} {previous : Option Bytes}
    {item : MutableTreeValue}
    (decoded : decodeLeafEntry L format store shared previous entry = .ok item) :
    decodeLeafEntry L later larger shared previous entry = .ok item := by
  obtain ⟨⟨key, suffixLength⟩, keyed, decoded⟩ := bind_eq_ok.1 decoded
  obtain ⟨representation, flagged, decoded⟩ := bind_eq_ok.1 decoded
  obtain ⟨known, decoded⟩ := require_bind_eq_ok.1 decoded
  obtain ⟨valueLength, sized, decoded⟩ := bind_eq_ok.1 decoded
  obtain ⟨valid, decoded⟩ := require_bind_eq_ok.1 decoded
  refine bind_eq_ok.2 ⟨_, keyed, bind_eq_ok.2 ⟨_, flagged, require_bind_eq_ok.2 ⟨known,
    bind_eq_ok.2 ⟨_, sized, require_bind_eq_ok.2 ⟨valid, ?_⟩⟩⟩⟩⟩
  by_cases outside : representation.headD 0 = 1
  · rw [if_pos outside] at decoded ⊢
    obtain ⟨bytes, viewed, decoded⟩ := bind_eq_ok.1 decoded
    obtain ⟨value, found, decoded⟩ := bind_eq_ok.1 decoded
    have read := (readAuthenticatedExtent_eq_ok.1 found).mono after within
    exact bind_eq_ok.2 ⟨_, viewed, bind_eq_ok.2 ⟨_, readAuthenticatedExtent_eq_ok.2 read, decoded⟩⟩
  · rwa [if_neg outside] at decoded ⊢

theorem openTreePage_mono {T : TreeRole} {page : Bytes × PageHeader}
    (opened : openTreePage L format store T level reference = .ok page) :
    openTreePage L later larger T level reference = .ok page :=
  openTreePage_eq_ok.2 ((openTreePage_eq_ok.1 opened).mono after within)

theorem orderedLeaf_mono {values : List MutableTreeValue}
    (loaded : orderedLeaf L format store reference = .ok values) :
    orderedLeaf L later larger reference = .ok values := by
  obtain ⟨⟨payload, header⟩, opened, loaded⟩ := bind_eq_ok.1 loaded
  obtain ⟨⟨items, stop⟩, walked, loaded⟩ := bind_eq_ok.1 loaded
  obtain ⟨_, again, rfl⟩ := walkSlots_simulate
    (collectStep fun items => decodeLeafEntry L later larger (sharedPrefix payload header)
      (previousKey MutableTreeValue.key items)) (R := Eq)
    (by
      rintro items _ entry next rfl stepped
      obtain ⟨item, decoded, rfl⟩ := collectStep_eq_ok.1 stepped
      exact ⟨_, collectStep_eq_ok.2 ⟨item, decodeLeafEntry_mono after within decoded, rfl⟩, rfl⟩)
    rfl walked
  exact bind_eq_ok.2 ⟨_, openTreePage_mono after within opened, bind_eq_ok.2 ⟨_, again, loaded⟩⟩

theorem orderedChildren_mono {children : List (Bytes × ExtentReference)}
    (loaded : orderedChildren L format store level reference = .ok children) :
    orderedChildren L later larger level reference = .ok children := by
  obtain ⟨page, opened, loaded⟩ := bind_eq_ok.1 loaded
  exact bind_eq_ok.2 ⟨page, openTreePage_mono after within opened, loaded⟩

/-- Trees stay where they are while extents are added. -/
theorem holds_mono (holds : Holds Prod.fst (orderedPages L format store) level reference entries) :
    Holds Prod.fst (orderedPages L later larger) level reference entries := by
  refine holds.mono ?_ ?_
  · rintro page _ ⟨values, leaf, rfl⟩
    exact ⟨values, orderedLeaf_mono after within leaf, rfl⟩
  · intro level page children inner
    exact orderedChildren_mono after within inner

end After

/-! ## Whole trees -/

theorem loadTree_reference {σ : Type} {loader : TreeLoader σ} {state next : σ}
    {tree : MutableTree level} {bounds : PageBounds}
    (loaded : loadTree loader level reference state = .ok (tree, bounds, next)) :
    tree.reference = reference := by
  cases level with
  | zero =>
    rw [loadTree] at loaded
    obtain ⟨_, -, loaded⟩ := bind_eq_ok.1 loaded
    cases loaded
    rfl
  | succ level =>
    rw [loadTree] at loaded
    obtain ⟨_, -, loaded⟩ := bind_eq_ok.1 loaded
    obtain ⟨_, -, loaded⟩ := bind_eq_ok.1 loaded
    cases loaded
    rfl

/-- What loading leaves behind: nothing for a null root, else the tree at the root. -/
theorem loadExactValues_ok {load : OrderedLoad} {root : MutableRoot}
    (loaded : loadExactValues L format store reference = .ok (load, root)) :
    (reference.null = true ∧ load.values.entries = [] ∧ root = MutableRoot.empty) ∨
      (reference.null = false ∧ root.tree.reference = reference ∧ root.tree.Shaped ∧
        root.tree.Kept (orderedPages L format store) (StoredValue L format store) ∧
        root.tree.values ≠ [] ∧ root.tree.pairs = load.values.entries) := by
  obtain ⟨level, shallow, loaded⟩ := bind_eq_ok.1 loaded
  unfold shallowValidateOrderedRoot at shallow
  split at shallow
  · rename_i null
    cases shallow
    cases loaded
    exact Or.inl ⟨null, rfl, rfl⟩
  · rename_i present
    obtain ⟨_, -, shallow⟩ := bind_eq_ok.1 shallow
    obtain ⟨kind, -, shallow⟩ := bind_eq_ok.1 shallow
    obtain ⟨-, shallow⟩ := require_bind_eq_ok.1 shallow
    obtain ⟨payload, -, shallow⟩ := bind_eq_ok.1 shallow
    obtain ⟨-, shallow⟩ := require_bind_eq_ok.1 shallow
    obtain ⟨-, shallow⟩ := require_bind_eq_ok.1 shallow
    obtain rfl : level = some (readPageHeader payload).level := by
      split at shallow
      · obtain ⟨_, -, shallow⟩ := bind_eq_ok.1 shallow
        exact (Except.ok.inj shallow).symm
      · exact (Except.ok.inj shallow).symm
    obtain ⟨⟨tree, bounds, state⟩, below, loaded⟩ := bind_eq_ok.1 loaded
    cases loaded
    obtain ⟨facts, -, gathered⟩ := loadTree_sound (orderedLoader_spec L format store) below
    have increasing := increasing_pairs.2 facts.shaped.increasing
    exact Or.inr ⟨Bool.not_eq_true _ ▸ present, loadTree_reference below, facts.shaped, facts.kept,
      facts.values_ne_nil, increasing.eq_of_perm load.values.increasing gathered.symm⟩

/-- The page at the root of a tree. -/
theorem holds_opened (holds : Holds Prod.fst (orderedPages L format store) level reference entries)
    :
    ∃ payload header, OpenedPage L format store orderedRole level reference payload header := by
  cases level with
  | zero =>
    obtain ⟨⟨values, leaf, -⟩, -⟩ := holds
    obtain ⟨⟨payload, header⟩, opened, -⟩ := bind_eq_ok.1 leaf
    exact ⟨payload, header, openTreePage_eq_ok.1 opened⟩
  | succ level =>
    obtain ⟨children, -, inner, -⟩ := holds
    obtain ⟨⟨payload, header⟩, opened, -⟩ := bind_eq_ok.1 inner
    exact ⟨payload, header, openTreePage_eq_ok.1 opened⟩

theorem orderedChildren_opened {children : List (Bytes × ExtentReference)}
    (loaded : orderedChildren L format store level reference = .ok children) :
    ∃ payload header, OpenedPage L format store orderedRole level reference payload header ∧
      children.length = header.entryCount + 1 ∧
      ∃ separators, children = ([], decodeExtentReference header.leftmostChild) :: separators := by
  obtain ⟨⟨payload, header⟩, opened, loaded⟩ := bind_eq_ok.1 loaded
  obtain ⟨⟨separators, stop⟩, walked, loaded⟩ := bind_eq_ok.1 loaded
  obtain ⟨-, loaded⟩ := require_bind_eq_ok.1 loaded
  cases loaded
  have count := walkSlots_length walked
  refine ⟨payload, header, openTreePage_eq_ok.1 opened, ?_, separators, rfl⟩
  simpa using count

/-- The strict check of a page covers the shallow one, up to the number of entries. -/
theorem OpenedPage.rootMatches {header : PageHeader}
    (opened : OpenedPage L format store orderedRole level reference payload header)
    (some : header.entryCount ≠ 0) :
    ∃ kind, (kind = 1 ∨ kind = 2) ∧ readUnitKind store reference = .ok kind ∧
      readAuthenticatedExtent L format store reference { unitKind := kind } none = .ok payload ∧
      (readPageHeader payload).RootMatches kind payload := by
  obtain ⟨kind, known, read, magic, version, type, isKind, length, role, isLevel, leaf, flags,
    reserved⟩ := opened.read
  obtain ⟨-, -, slots, entries, used, inside, -, childless⟩ := opened.bounded
  refine ⟨kind, known, by rw [readUnitKind, read.stored], readAuthenticatedExtent_eq_ok.2 read, ?_⟩
  rw [← opened.is_header]
  exact ⟨magic, version, type, isKind, length, role, isLevel ▸ opened.shallow, leaf, some, flags,
    slots, entries, used, inside, reserved, childless⟩

section Holds

variable (holds : Holds Prod.fst (orderedPages L format store) level reference entries)
  (branches : ∀ children, orderedChildren L format store level reference = .ok children →
    level ≠ 0 → 2 ≤ children.length)

include holds branches

/-- A root that is a leaf, or has two children, passes the shallow check. -/
theorem shallowValidateOrderedRoot_holds :
    shallowValidateOrderedRoot L format store reference = .ok (some level) := by
  obtain ⟨payload, header, opened, count, child⟩ : ∃ payload header,
      OpenedPage L format store orderedRole level reference payload header ∧
        header.entryCount ≠ 0 ∧ (header.type = 2 →
          (decodeExtentReference header.leftmostChild).null = false ∧
          validateOrderedPageReference L format (decodeExtentReference header.leftmostChild) =
            .ok ()) := by
    cases level with
    | zero =>
      obtain ⟨payload, header, opened⟩ := holds_opened holds
      obtain ⟨kind, -, -, accepted⟩ := opened.read
      have leaf : header.type = 1 := accepted.2.2.2.2.2.2.2.1.2 accepted.2.2.2.2.2.2.1
      exact ⟨payload, header, opened, fun none => opened.bounded.1 ⟨leaf, none⟩,
        fun inner => absurd inner (by omega)⟩
    | succ level =>
      obtain ⟨children, blocks, inner, -, below, -⟩ := holds
      obtain ⟨payload, header, opened, length, separators, rfl⟩ := orderedChildren_opened inner
      have two := branches _ inner (Nat.succ_ne_zero _)
      refine ⟨payload, header, opened, by omega, fun _ => ?_⟩
      cases below with
      | cons first rest =>
        obtain ⟨body, childHeader, child⟩ := holds_opened first
        obtain ⟨kind, -, read, -⟩ := child.read
        exact ⟨read.present, child.reference_ok⟩
  obtain ⟨kind, known, isKind, read, accepted⟩ := opened.rootMatches count
  obtain ⟨_, -, found, isLevel⟩ := opened.read
  unfold shallowValidateOrderedRoot
  rw [if_neg (by rw [found.present]; exact Bool.false_ne_true), opened.reference_ok, ok_bind,
    isKind, ok_bind, require_of known, ok_bind, read, ok_bind]
  dsimp only
  rw [require_of accepted, ok_bind, ← opened.is_header, require_of fun inner => (child inner).1,
    ok_bind, isLevel.2.2.2.2.2.2.1]
  by_cases inner : header.type = 2
  · rw [if_pos inner, (child inner).2, ok_bind]
    rfl
  · rw [if_neg inner]
    rfl

/-- A tree at a root that passes the shallow check loads as a whole. -/
theorem loadExactValues_holds :
    ∃ load root, loadExactValues L format store reference = .ok (load, root) ∧
      load.values.entries = entries := by
  obtain ⟨tree, next, loaded, gathered⟩ := @loadTree_complete _ _ _ _ _ _ _
    (orderedLoader_spec L format store) level reference entries
    { values := Keyed.empty, reachable := [] } holds (fun _ impossible => nomatch impossible)
  refine ⟨next, ⟨level, tree⟩, ?_, gathered⟩
  rw [loadExactValues, shallowValidateOrderedRoot_holds holds branches, ok_bind]
  exact bind_eq_ok.2 ⟨_, loaded, rfl⟩

end Holds

/-! ## A tree of two leaves, with and without bytes behind a child reference -/

/-- A page of four blocks. -/
def pageReference (blockIndex : Nat) : ExtentReference :=
  { blockIndex, blockCount := 4, encodedLength := 16384, creationGeneration := 1 }

theorem pageAt_reference {T : TreeRole} {kind blockIndex : Nat} (behind : 16 ≤ blockIndex)
    (inside : blockIndex ≤ 200) {store : ExtentStore}
    (sized : payload.length = Limits.default.pagePayloadBytes)
    (stored : store (pageReference blockIndex) = some
      { context := { unitKind := kind, keyDomain := T.keyDomain, owner := T.owner }, payload }) :
    PageAt .default ⟨1, 2 ^ 20⟩ store T kind (pageReference blockIndex) payload := by
  have placed : (pageReference blockIndex).Placed .default ⟨1, 2 ^ 20⟩ := by
    constructor <;> simp [pageReference, Limits.commonBlocks, commonRegionBytes, Limits.default,
      extentLayoutBytes, authenticationTagBytes, uint64Max] <;> omega
  have valid := validateExtentReference_placed placed
  have span : (pageReference blockIndex).blockCount ≤ Limits.default.pageBlocks ∧
      (pageReference blockIndex).blockCount =
        Limits.default.minimalBlocks (pageReference blockIndex).encodedLength := by
    simp only [pageReference]
    decide
  exact ⟨validateOrderedPageReference_of valid span, placed.not_null, valid, by simp,
    ⟨fun _ => span.1, by simp, span.2⟩, stored, by simp, fun _ => sized⟩

/-- A value of a small tree. -/
def leafItem (byte : Byte) : MutableTreeValue := { key := [byte], value := [] }

/-- A page over two leaves; `slack` stands behind its only child reference. -/
def slackPage (slack : Bytes) : Bytes :=
  encodePage .default 2 1 1 (encodeExtentReference (pageReference 20)) [2]
    [encodeSeparator 1 ⟨pageReference 24, [2], 0⟩ ++ slack]

/-- A store with the page and its leaves. -/
def slackStore (slack first second : Bytes) : ExtentStore := fun reference =>
  if reference = pageReference 20 then some ⟨{ unitKind := 2 }, first⟩
  else if reference = pageReference 24 then some ⟨{ unitKind := 2 }, second⟩
  else some ⟨{ unitKind := 1 }, slackPage slack⟩

theorem encodeLeafPage_single (byte : Byte) :
    ∃ payload, encodeLeafPage .default [leafItem byte] = some payload := by
  have room := pagePayloadBytes_lower .default
  have small : leafUsedLength [leafItem byte] = 125 := by
    simp [leafUsedLength, leafSharedLength, leafItem, commonPrefixLength, pageLayoutBytes,
      inlineLength, ExtentReference.null]
  unfold encodeLeafPage
  rw [if_neg (by rw [small]; omega)]
  exact ⟨_, rfl⟩

section Behind

variable {byte : Byte} {index : Nat} {store : ExtentStore} (behind : 16 ≤ index)
  (inside : index ≤ 200) (encoded : encodeLeafPage .default [leafItem byte] = some payload)
  (stored : store (pageReference index) = some { context := { unitKind := 2 }, payload })

include behind inside encoded stored

/-- A leaf with one value. -/
theorem orderedLeaf_single :
    orderedLeaf .default ⟨1, 2 ^ 20⟩ store (pageReference index) = .ok [leafItem byte] := by
  have good : StoredValue .default ⟨1, 2 ^ 20⟩ store (leafItem byte) :=
    ⟨by simp [leafItem, Limits.default], by simp [leafItem, Limits.default],
      by simp [leafItem, Limits.default], fun present => nomatch present⟩
  have increasing : Increasing MutableTreeValue.key [leafItem byte] := List.pairwise_singleton _ _
  exact orderedLeaf_encode increasing encoded (by simp) (by simpa using good)
    (pageAt_reference behind inside (encodeLeafPage_length increasing encoded) stored)

theorem orderedHolds_single :
    Holds Prod.fst (orderedPages .default ⟨1, 2 ^ 20⟩ store) 0 (pageReference index)
      [(leafItem byte).pair] :=
  ⟨⟨_, orderedLeaf_single behind inside encoded stored, rfl⟩, by simp, List.pairwise_singleton _ _⟩

end Behind

theorem slackPage_used {slack : Bytes} (short : slack.length ≤ 1) :
    pageUsedLength 1 [encodeSeparator 1 ⟨pageReference 24, [2], 0⟩ ++ slack] ≤
      Limits.default.pagePayloadBytes := by
  have room := pagePayloadBytes_lower .default
  simp [pageUsedLength, entriesLength, pageLayoutBytes, encodeSeparator]
  omega

/-- The children of the page, with and without bytes behind its child reference. -/
theorem orderedChildren_slack {slack : Bytes} (short : slack.length ≤ 1) {store : ExtentStore}
    (stored : store (pageReference 28) = some ⟨{ unitKind := 1 }, slackPage slack⟩) :
    orderedChildren .default ⟨1, 2 ^ 20⟩ store 1 (pageReference 28) =
      .ok [([], pageReference 20), ([2], pageReference 24)] := by
  have page : PageAt .default ⟨1, 2 ^ 20⟩ store orderedRole 1 (pageReference 28) (slackPage slack) :=
    pageAt_reference (by decide) (by decide)
      (encodePage_length (encodeExtentReference_length _) (slackPage_used short)) stored
  have fits (index : Nat) (small : index ≤ 200) : (pageReference index).Fits := by
    simp only [ExtentReference.Fits, pageReference]
    omega
  exact @orderedChildren_page .default ⟨1, 2 ^ 20⟩ store
    (pageReference 28) ⟨pageReference 20, [1], 0⟩ [⟨pageReference 24, [2], 0⟩] [2] slack
    (.of_room (@slackPage_used [] (Nat.zero_le _))) (slackPage_used short) (by decide)
    (List.pairwise_singleton _ _) (by simp [Limits.default]) (by simpa using ⟨fits 20 (by decide), fits 24 (by decide)⟩) page

/-- The page loads with and without bytes behind its child reference. -/
theorem orderedHolds_slack {slack first second : Bytes} (short : slack.length ≤ 1)
    (left : encodeLeafPage .default [leafItem 1] = some first)
    (right : encodeLeafPage .default [leafItem 2] = some second) :
    Holds Prod.fst (orderedPages .default ⟨1, 2 ^ 20⟩ (slackStore slack first second)) 1
      (pageReference 28) [(leafItem 1).pair, (leafItem 2).pair] := by
  refine ⟨_, [[(leafItem 1).pair], [(leafItem 2).pair]], orderedChildren_slack short rfl, by simp,
    ?_, ?_, rfl, ?_⟩
  · exact .cons (orderedHolds_single (by decide) (by decide) left rfl)
      (.cons (orderedHolds_single (by decide) (by decide) right rfl) .nil)
  · exact .cons rfl .nil
  · decide

/-- The leaf with the value. -/
def singleLeaf (index : Nat) (byte : Byte) : MutableNode MutableTreeValue :=
  { reference := pageReference index, minimumKey := [byte], items := [leafItem byte] }

/-- The tree of the page. -/
def slackTree : MutableNode (MutableTree 0) :=
  { reference := pageReference 28, minimumKey := [1], items := [singleLeaf 20 1, singleLeaf 24 2] }

theorem loadOrderedPage_single {byte : Byte} {index : Nat} {payload : Bytes}
    (behind : 16 ≤ index) (inside : index ≤ 200)
    (encoded : encodeLeafPage .default [leafItem byte] = some payload)
    (stored : store (pageReference index) = some { context := { unitKind := 2 }, payload })
    {load : OrderedLoad} (above : ∀ entry ∈ load.values.entries, entry.1 < [byte]) :
    ∃ next, loadOrderedPage .default ⟨1, 2 ^ 20⟩ store 0 (pageReference index) load =
        .ok (singleLeaf index byte, ⟨[byte], [byte]⟩, next) ∧
      next.values.entries = load.values.entries ++ [([byte], [])] := by
  obtain ⟨next, loaded, entries⟩ := @loadOrderedLeaf_complete _ _ _ _ load _
    (orderedLeaf_single behind inside encoded stored) (by simpa [leafItem] using above)
  refine ⟨next, ?_, entries⟩
  rw [loadOrderedPage, loadTree]
  exact bind_eq_ok.2 ⟨_, loaded, rfl⟩

variable {first second : Bytes}

theorem shallowValidateOrderedRoot_slack (left : encodeLeafPage .default [leafItem 1] = some first)
    (right : encodeLeafPage .default [leafItem 2] = some second) :
    shallowValidateOrderedRoot .default ⟨1, 2 ^ 20⟩ (slackStore [] first second) (pageReference 28) =
      .ok (some 1) := by
  refine shallowValidateOrderedRoot_holds (orderedHolds_slack (by decide) left right) ?_
  intro children listed _
  rw [orderedChildren_slack (by decide) rfl] at listed
  cases listed
  decide

/-- A whole load. -/
theorem loadExactValues_slack (left : encodeLeafPage .default [leafItem 1] = some first)
    (right : encodeLeafPage .default [leafItem 2] = some second) :
    ∃ load, loadExactValues .default ⟨1, 2 ^ 20⟩ (slackStore [] first second) (pageReference 28) =
        .ok (load, ⟨1, slackTree⟩) ∧
      load.values.entries = [([1], []), ([2], [])] := by
  obtain ⟨middle, low, lowEntries⟩ := @loadOrderedPage_single (slackStore [] first second) _ 20 _
    (by decide) (by decide) left rfl { values := Keyed.empty, reachable := [pageReference 28] }
    (fun _ impossible => nomatch impossible)
  obtain ⟨last, high, highEntries⟩ := @loadOrderedPage_single (slackStore [] first second) _ 24 _
    (by decide) (by decide) right rfl middle (by rw [lowEntries]; decide)
  refine ⟨last, ?_, by rw [highEntries, lowEntries]; rfl⟩
  have below : loadSubtrees (orderedLoader .default ⟨1, 2 ^ 20⟩ (slackStore [] first second))
      (loadTree (orderedLoader .default ⟨1, 2 ^ 20⟩ (slackStore [] first second)) 0) none
      [([], pageReference 20), ([2], pageReference 24)]
      { values := Keyed.empty, reachable := [pageReference 28] } =
        .ok ([(singleLeaf 20 1, ⟨[1], [1]⟩), (singleLeaf 24 2, ⟨[2], [2]⟩)], last) := by
    rw [loadSubtrees]
    refine bind_eq_ok.2 ⟨_, low, require_bind_eq_ok.2 ⟨by simp, require_bind_eq_ok.2 ⟨by simp, ?_⟩⟩⟩
    refine bind_eq_ok.2 ⟨([(singleLeaf 24 2, ⟨[2], [2]⟩)], last), ?_, rfl⟩
    rw [loadSubtrees]
    exact bind_eq_ok.2 ⟨_, high, rfl⟩
  rw [loadExactValues, shallowValidateOrderedRoot_slack left right, ok_bind]
  refine bind_eq_ok.2 ⟨(slackTree, ⟨[1], [2]⟩, last), ?_, rfl⟩
  rw [loadOrderedPage, loadTree]
  refine bind_eq_ok.2 ⟨_, bind_eq_ok.2 ⟨_, orderedChildren_slack (by decide) rfl, rfl⟩, ?_⟩
  exact bind_eq_ok.2 ⟨_, below, rfl⟩

end Miare
