import Miare.Allocator.Proofs.RoundTrip
import Miare.Tree.Proofs.LoadFixed
import Miare.Tree.Proofs.Placement

/-!
# Fixed-key trees that are written at once

`persistFixedTree` writes the pages of a tree from its entries.  The loader gives the entries back,
and reaches each page and each reference of an entry once.
-/

namespace Miare

open Misc

variable {L : Limits} {format : OpenedFormat} {store : ExtentStore} {T : TreeRole} {size : Nat}
  {r : Bytes → Bytes → Prop} {σ : Type*}

/-- The loader finds these entries below a page of the given level, and reaches these extents. -/
def FixedLoads (L : Limits) (format : OpenedFormat) (store : ExtentStore) (T : TreeRole) (level : Nat)
    (reference : ExtentReference) (entries : List FixedLeafEntry) (reached : List ExtentReference) :
    Prop :=
  ∀ state, ∃ tree, loadTree (fixedLoader L format store T) level reference state =
    .ok (tree, keyBounds (entries.map FixedLeafEntry.key),
      { entries := state.entries ++ entries, reachable := state.reachable ++ reached })

/-- What the loader finds below a page that can be read. -/
def FixedFound (L : Limits) (format : OpenedFormat) (store : ExtentStore) (T : TreeRole) :
    Finding FixedLeafEntry := fun level reference entries reached =>
  (reference.Fits ∧ reference.null = false) ∧
    FixedLoads L format store T level reference entries reached

/-- The tree of a role. -/
def fixedCodec (L : Limits) (T : TreeRole) : TreeCodec FixedLeafEntry where
  role := T.role
  leafKind := T.leafKind
  internalKind := T.internalKind
  usedLength := fixedLeafUsedLength
  encode := encodeFixedLeafPage L T.role
  key := FixedLeafEntry.key
  own := fun entry => [entry.reference]

theorem fixedCodec_own (entries : List FixedLeafEntry) :
    entries.flatMap (fixedCodec L T).own = entries.map FixedLeafEntry.reference :=
  List.map_eq_flatMap.symm

/-- Entries in the order of a role, with keys of its size and extents that can be read. -/
structure FixedEntries (L : Limits) (format : OpenedFormat) (size : Nat) (r : Bytes → Bytes → Prop)
    (entries : List FixedLeafEntry) : Prop where
  ordered : entries.Pairwise fun a b => r a.key b.key
  fits : ∀ entry ∈ entries, entry.Fits size ∧ entry.reference.Placed L format

theorem FixedEntries.parts {front back : List FixedLeafEntry}
    (entries : FixedEntries L format size r (front ++ back)) :
    FixedEntries L format size r front ∧ FixedEntries L format size r back := by
  obtain ⟨first, second, -⟩ := List.pairwise_append.1 entries.ordered
  obtain ⟨here, later⟩ := List.forall_mem_append.1 entries.fits
  exact ⟨⟨first, here⟩, second, later⟩

theorem keyBounds_maximum_of_ne_nil {keys : List Bytes} (nonempty : keys ≠ []) :
    (keyBounds keys).maximum ∈ keys := by
  rw [keyBounds, List.getLastD_eq_getLast?, List.getLast?_eq_some_getLast nonempty, Option.getD_some]
  exact List.getLast_mem nonempty

theorem subtreeBounds_cons {τ : Type} (tree : τ) (bounds : PageBounds)
    {subtrees : List (τ × PageBounds)} (some : subtrees ≠ []) :
    subtreeBounds ((tree, bounds) :: subtrees) =
      ⟨bounds.minimum, (subtreeBounds subtrees).maximum⟩ := by
  obtain ⟨next, rest, rfl⟩ := List.exists_cons_of_ne_nil some
  simp [subtreeBounds]

/-- One child in front of others. -/
theorem loadSubtrees_cons {σ τ : Type} {loader : TreeLoader σ}
    {load : ExtentReference → σ → Except LoadError (τ × PageBounds × σ)} {maximum : Option Bytes}
    {separator : Bytes} {child : ExtentReference} {children : List (Bytes × ExtentReference)}
    {state middle next : σ} {tree : τ} {left right : List Bytes} (filled : left ≠ [])
    (first : load child state = .ok (tree, keyBounds left, middle))
    (separated : ∀ _ ∈ maximum, (keyBounds left).minimum = separator)
    (above : ∀ last ∈ maximum, loader.keyLess last (keyBounds left).minimum)
    (rest : ∃ subtrees, loadSubtrees loader load (some (keyBounds left).maximum) children middle =
      .ok (subtrees, next) ∧ subtreeBounds subtrees = keyBounds right ∧
        (subtrees = [] ↔ right = [])) :
    ∃ subtrees, loadSubtrees loader load maximum ((separator, child) :: children) state =
      .ok (subtrees, next) ∧ subtreeBounds subtrees = keyBounds (left ++ right) ∧
        (subtrees = [] ↔ left ++ right = []) := by
  obtain ⟨subtrees, loaded, bounds, empty⟩ := rest
  refine ⟨(tree, keyBounds left) :: subtrees, ?_, ?_, ?_⟩
  · rw [loadSubtrees, first, ok_bind]
    dsimp only
    rw [require_of separated, ok_bind, require_of above, ok_bind, loaded, ok_bind]
    rfl
  · by_cases last : subtrees = []
    · rw [last, empty.1 last, List.append_nil]
      rfl
    · rw [subtreeBounds_cons _ _ last, bounds, keyBounds_append filled fun none => last (empty.2 none)]
  · simp [filled]

section Rows

variable {level : Nat} {nodes : List PreparedTreeNode} {entries : List FixedLeafEntry}
  {reached : List ExtentReference}

/-- The children behind the first of an internal page. -/
theorem fixedRow_subtrees (fixedKeys : T.FixedKeys size r)
    (row : LoadedRow FixedLeafEntry.key (FixedFound L format store T) level nodes entries reached)
    (ordered : entries.Pairwise fun a b => r a.key b.key) {last : Bytes}
    (above : ∀ entry ∈ entries, r last entry.key) (state : FixedLoad) :
    ∃ subtrees, loadSubtrees (fixedLoader L format store T)
        (loadTree (fixedLoader L format store T) level) (some last)
        (nodes.map PreparedTreeNode.entry) state =
      .ok (subtrees, { entries := state.entries ++ entries, reachable := state.reachable ++ reached }) ∧
      subtreeBounds subtrees = keyBounds (entries.map FixedLeafEntry.key) ∧
      (subtrees = [] ↔ entries.map FixedLeafEntry.key = []) := by
  induction row generalizing last state with
  | nil => exact ⟨[], by simp [loadSubtrees], rfl, by simp⟩
  | @cons node nodes lead entries others pages rest isLevel minimum here row ih =>
    obtain ⟨-, behind, across⟩ := List.pairwise_append.1 ordered
    obtain ⟨tree, loaded⟩ := here.2 state
    have filled : (lead :: entries).map FixedLeafEntry.key ≠ [] := List.cons_ne_nil _ _
    obtain ⟨greatest, inEntries, isLast⟩ := List.mem_map.1 (keyBounds_maximum_of_ne_nil filled)
    have further := ih behind (fun entry member => isLast ▸ across greatest inEntries entry member)
      { entries := state.entries ++ lead :: entries, reachable := state.reachable ++ pages }
    rw [List.append_assoc, List.append_assoc] at further
    rw [List.map_append]
    refine loadSubtrees_cons filled loaded (fun _ _ => minimum.symm) ?_ further
    rintro _ ⟨⟩
    exact (fixedKeys.less _ _).2 (above lead (by simp))

/-- An internal page over a row of children. -/
theorem fixedRow_parent (fixedKeys : T.FixedKeys size r) {leftmost : PreparedTreeNode}
    {rest : List PreparedTreeNode}
    (row : LoadedRow FixedLeafEntry.key (FixedFound L format store T) level (leftmost :: rest)
      entries reached)
    (isGood : FixedEntries L format size r entries) (shallow : level + 1 ≤ maximumTreeLevel)
    {reference : ExtentReference} {payload : Bytes}
    (encoded : encodeInternalPage L T.role (leftmost :: rest) = some payload)
    (page : PageAt L format store T T.internalKind reference payload) :
    FixedLoads L format store T (level + 1) reference entries (reference :: reached) ∧
      fixedChildren L format store T (level + 1) reference =
        .ok (([], leftmost.reference) :: rest.map PreparedTreeNode.entry) := by
  have children := row.node
  have isLevel : leftmost.level = level := (children leftmost List.mem_cons_self).1
  have listed := fixedChildren_encode fixedKeys encoded (by rw [isLevel]; exact shallow)
    (row.ordered isGood.ordered).of_cons (fun node member => ?_)
    (fun node member => ?_) page
  · rw [isLevel] at listed
    refine ⟨fun state => ?_, listed⟩
    cases row with
    | @cons _ _ lead entries others pages below _ minimum here row =>
      obtain ⟨-, behind, across⟩ := List.pairwise_append.1 isGood.ordered
      have filled : (lead :: entries).map FixedLeafEntry.key ≠ [] := List.cons_ne_nil _ _
      obtain ⟨greatest, inHere, isLast⟩ := List.mem_map.1 (keyBounds_maximum_of_ne_nil filled)
      obtain ⟨tree, loaded⟩ :=
        here.2 { entries := state.entries, reachable := state.reachable ++ [reference] }
      have further := fixedRow_subtrees fixedKeys row behind
        (fun entry member => isLast ▸ across greatest inHere entry member)
        { entries := state.entries ++ lead :: entries
          reachable := state.reachable ++ [reference] ++ pages }
      obtain ⟨subtrees, loadedAll, bounds, -⟩ :=
        @loadSubtrees_cons _ _ _ _ none [] _ _ _ _ _ _ _ _ filled loaded (by simp) (by simp) further
      rw [List.append_assoc, List.append_assoc, List.append_assoc, List.singleton_append] at loadedAll
      have inner : loadFixedInner L format store T (level + 1) reference state =
          .ok (([], leftmost.reference) :: rest.map PreparedTreeNode.entry,
            { entries := state.entries, reachable := state.reachable ++ [reference] }) := by
        rw [loadFixedInner, listed, ok_bind]
        rfl
      let node : MutableNode (MutableTree level) :=
        { reference, minimumKey := (subtreeBounds subtrees).minimum, items := subtrees.map Prod.fst }
      refine ⟨node, ?_⟩
      rw [List.map_append, ← bounds, loadTree]
      exact bind_eq_ok.2 ⟨_, inner, bind_eq_ok.2 ⟨_, loadedAll, rfl⟩⟩
  · obtain ⟨-, ⟨entry, inEntries, isKey⟩, -⟩ := children node (List.mem_cons_of_mem _ member)
    rw [isKey]
    exact (isGood.fits entry inEntries).1.keySize
  · obtain ⟨-, -, _, _, here⟩ := children node member
    exact here.1

theorem fixedLeaf_loads (fixedKeys : T.FixedKeys size r) {reference : ExtentReference}
    {payload : Bytes} (nonempty : entries ≠ []) (isGood : FixedEntries L format size r entries)
    (encoded : encodeFixedLeafPage L T.role entries = some payload)
    (page : PageAt L format store T T.leafKind reference payload) :
    FixedLoads L format store T 0 reference entries
      (reference :: entries.map FixedLeafEntry.reference) := by
  intro state
  have leaf := fixedLeafEntries_encode fixedKeys encoded nonempty isGood.ordered isGood.fits page
  have keys : (entries.map FixedLeafEntry.toValue).map MutableTreeValue.key =
      entries.map FixedLeafEntry.key := by
    rw [List.map_map]
    rfl
  have loaded : loadFixedLeaf L format store T reference state =
      .ok (entries.map FixedLeafEntry.toValue,
        { entries := state.entries ++ entries
          reachable := state.reachable ++ reference :: entries.map FixedLeafEntry.reference }) := by
    rw [loadFixedLeaf, leaf, ok_bind]
    rfl
  rw [loadTree, ← keys]
  exact ⟨_, bind_eq_ok.2 ⟨_, loaded, rfl⟩⟩

end Rows

/-- The extent can be read as a page of the tree, if it is one. -/
def MetadataExtent.PageOf (L : Limits) (format : OpenedFormat) (store : ExtentStore) (T : TreeRole)
    (extent : MetadataExtent) : Prop :=
  (extent.kind = T.internalKind ∨ extent.kind = T.leafKind) →
    extent.payload.length = L.pagePayloadBytes →
      PageAt L format store T extent.kind extent.reference extent.payload ∧ extent.reference.Fits

/-- The pages of a tree lead to its entries. -/
theorem fixedCodec_reader (fixedKeys : T.FixedKeys size r) :
    (fixedCodec L T).Reader L (FixedEntries L format size r)
      (MetadataExtent.PageOf L format store T)
      (fun level reference count => ∃ children,
        fixedChildren L format store T level reference = .ok children ∧ children.length = count)
      (FixedFound L format store T) where
  parts := FixedEntries.parts
  leaf := by
    intro page payload reference nonempty isGood encoded stored
    obtain ⟨isPage, fits⟩ := stored (Or.inr rfl) (encodeFixedLeafPage_length encoded)
    refine ⟨⟨fits, isPage.read.present⟩, ?_⟩
    rw [fixedCodec_own]
    exact fixedLeaf_loads fixedKeys nonempty isGood encoded isPage
  parent := by
    intro level leftmost rest entries reached payload reference row isGood shallow encoded stored
    obtain ⟨isPage, fits⟩ := stored (Or.inl rfl) (encodeInternalPage_length encoded)
    obtain ⟨loads, listed⟩ := fixedRow_parent fixedKeys row isGood shallow encoded isPage
    exact ⟨⟨⟨fits, isPage.read.present⟩, loads⟩, _, listed, by simp⟩

/-! ## Whole trees -/

theorem loadFixedTreePage_opened {level : Nat} {reference : ExtentReference} {state next : FixedLoad}
    {tree : MutableTree level} {bounds : PageBounds}
    (loaded : loadFixedTreePage L format store T level reference state = .ok (tree, bounds, next)) :
    ∃ payload header, OpenedPage L format store T level reference payload header := by
  cases level with
  | zero =>
    rw [loadFixedTreePage, loadTree] at loaded
    obtain ⟨_, leaf, -⟩ := bind_eq_ok.1 loaded
    obtain ⟨_, entries, -⟩ := bind_eq_ok.1 leaf
    obtain ⟨⟨payload, header⟩, opened, -⟩ := bind_eq_ok.1 entries
    exact ⟨payload, header, openTreePage_eq_ok.1 opened⟩
  | succ level =>
    rw [loadFixedTreePage, loadTree] at loaded
    obtain ⟨_, inner, -⟩ := bind_eq_ok.1 loaded
    obtain ⟨_, children, -⟩ := bind_eq_ok.1 inner
    obtain ⟨⟨payload, header⟩, opened, -⟩ := bind_eq_ok.1 children
    exact ⟨payload, header, openTreePage_eq_ok.1 opened⟩

theorem FixedLoads.tree {level : Nat} {reference : ExtentReference} {entries : List FixedLeafEntry}
    {reached : List ExtentReference}
    (loads : FixedLoads L format store T level reference entries reached)
    (branches : level = 0 ∨ ∃ children,
      fixedChildren L format store T level reference = .ok children ∧ 2 ≤ children.length) :
    ∃ tree, loadFixedTree L format store T reference =
      .ok ({ entries, reachable := reached }, ⟨level, tree⟩) := by
  obtain ⟨tree, loaded⟩ := loads { entries := [], reachable := [] }
  obtain ⟨payload, header, opened, filled⟩ := openedRoot (loadFixedTreePage_opened loaded)
    fun inner => branches.resolve_left inner
  exact ⟨tree, loadFixedTree_page opened filled loaded⟩

section Whole

variable {place : Placement σ} {written : σ → List MetadataExtent} {entries : List FixedLeafEntry}

/-- The parts of a tree that was written. -/
theorem persistFixedTree_ok {turns : Nat} {state after : σ} {root : ExtentReference}
    (some : entries ≠ [])
    (persisted : persistFixedTree L T.role T.internalKind T.leafKind place turns entries state =
      .ok (root, after)) :
    ∃ pages nodes middle top,
      splitPages L.pagePayloadBytes (fixedCodec L T).usedLength entries = Option.some pages ∧
      placePages place (fixedCodec L T).leafKind (fixedCodec L T).encode .outOfRange
        (fixedCodec L T).minimum (fun _ => 0) pages state = .ok (nodes, middle) ∧
      growRoot L (fixedCodec L T).role (fixedCodec L T).internalKind place turns nodes middle =
        .ok (top, after) ∧ root = top.reference := by
  unfold persistFixedTree at persisted
  rw [if_neg some] at persisted
  split at persisted
  · cases persisted
  rename_i pages split
  split at persisted
  · cases persisted
  rename_i nodes middle placed
  split at persisted
  · cases persisted
  rename_i top last grown
  cases persisted
  exact ⟨pages, nodes, middle, top, split, placed, grown, rfl⟩

/-- Entries with short keys can always be written. -/
theorem persistFixedTree_complete (short : ∀ entry ∈ entries, entry.key.length ≤ 16) (state : σ) :
    ∃ enough, ∀ turns, enough ≤ turns → ∃ root after,
      persistFixedTree L T.role T.internalKind T.leafKind place turns entries state =
        .ok (root, after) := by
  by_cases empty : entries = []
  · exact ⟨0, fun turns _ => ⟨{}, state, by rw [persistFixedTree, if_pos empty]⟩⟩
  have room := pagePayloadBytes_lower L
  obtain ⟨pages, nodes, middle, split, placed, growth⟩ := (fixedCodec L T).complete short empty
    (by simp [fixedCodec, fixedLeafUsedLength, sharedPrefixLength, pageLayoutBytes]; omega)
    (fun entry member => by
      have size := short entry member
      exact (fixedLeafUsedLength_singleton entry).trans_le (by omega))
    (fun page _ fits => encodeFixedLeafPage_fits fits) .outOfRange place state
  refine ⟨nodes.length, fun turns enough => ?_⟩
  obtain ⟨root, after, grown⟩ := growth turns enough
  refine ⟨root.reference, after, ?_⟩
  rw [persistFixedTree, if_neg empty,
    show splitPages L.pagePayloadBytes fixedLeafUsedLength entries = some pages from split]
  dsimp only
  rw [show placePages place T.leafKind (encodeFixedLeafPage L T.role) .outOfRange
    (fun page => (page.head?.map FixedLeafEntry.key).getD []) (fun _ => 0) pages state =
      .ok (nodes, middle) from placed]
  dsimp only
  rw [show growRoot L T.role T.internalKind place turns nodes middle = .ok (root, after)
    from grown]

/-- The loader gives the entries back, and reaches each written page and each reference once. -/
theorem persistFixedTree_loads (fixedKeys : T.FixedKeys size r) (records : place.Records written)
    (short : size ≤ 16) (few : entries.length ≤ 4 ^ maximumTreeLevel)
    (ordered : entries.Pairwise fun a b => r a.key b.key)
    (fits : ∀ entry ∈ entries, entry.Fits size) {turns : Nat} {state after : σ}
    {root : ExtentReference}
    (persisted : persistFixedTree L T.role T.internalKind T.leafKind place turns entries state =
      .ok (root, after)) :
    ∃ extents, written after = written state ++ extents ∧
      ∀ {format store}, (∀ extent ∈ extents, extent.PageOf L format store T) →
        (∀ entry ∈ entries, entry.reference.Placed L format) →
        (root.null = true ↔ entries = []) ∧ ∃ reached tree,
          loadFixedTree L format store T root = .ok ({ entries, reachable := reached }, tree) ∧
          reached.Perm (extents.map MetadataExtent.reference ++
            entries.map FixedLeafEntry.reference) := by
  by_cases empty : entries = []
  · rw [persistFixedTree, if_pos empty] at persisted
    cases persisted
    subst empty
    exact ⟨[], by simp, fun _ _ => ⟨by simp [ExtentReference.null], [], MutableRoot.empty, rfl, .refl _⟩⟩
  · obtain ⟨pages, nodes, middle, top, split, placed, grown, rfl⟩ :=
      persistFixedTree_ok empty persisted
    have height := (fixedCodec L T).height empty split placed grown
      (fun entry member => (fits entry member).keySize.trans_le short) few
    obtain ⟨extents, isAfter, finds⟩ :=
      (fixedCodec L T).found_root empty split placed grown records height
    refine ⟨extents, isAfter, fun stored inside => ?_⟩
    obtain ⟨⟨reached, found, order⟩, wide⟩ := finds (fixedCodec_reader fixedKeys) stored
      ⟨ordered, fun entry member => ⟨fits entry member, inside entry member⟩⟩
    obtain ⟨tree, loaded⟩ := found.2.tree (wide.imp_right (by
      rintro ⟨count, ⟨children, listed, same⟩, two⟩
      exact ⟨children, listed, same ▸ two⟩))
    refine ⟨by simp [found.1.2, empty], reached, _, loaded, ?_⟩
    rwa [fixedCodec_own] at order

theorem persistFixedTree_keeps {P : σ → Prop} (keeps : place.Keeps P)
    {turns : Nat} {state after : σ} {root : ExtentReference} (before : P state)
    (persisted : persistFixedTree L T.role T.internalKind T.leafKind place turns entries state =
      .ok (root, after)) : P after := by
  by_cases empty : entries = []
  · rw [persistFixedTree, if_pos empty] at persisted
    cases persisted
    exact before
  · obtain ⟨pages, nodes, middle, top, split, placed, grown, rfl⟩ :=
      persistFixedTree_ok empty persisted
    exact (growRoot_grows grown).keeps keeps (placePages_keeps keeps before placed)

end Whole

end Miare
