import Miare.Tree.Proofs.Growth
import Miare.Tree.Proofs.Mutable
import Miare.Tree.Proofs.OrderedPages
import Miare.Tree.Proofs.Placement

/-!
# Writing changed trees

The pages that `persistNode` and the growth loop write hold the values of the tree in memory.  The
two trees of a commit differ in their leaves and in how their pages are read; `WriterSpec` is what
the argument needs of both.
-/

namespace Miare

open Misc

variable {L : Limits} {input : CommitInput} {later : OpenedFormat} {after : ExtentStore}
  {state next : CommitState}

/-! ## What is written, whatever it holds -/

/-- Failures are among the allowed ones; on success some pages of one level are written, which
begin at some of the keys. -/
def Writes (L : Limits) (input : CommitInput) (allowed : TreeError → Prop) (keys : List Bytes)
    (level : Nat) (state : CommitState) :
    Except TreeError (List PreparedTreeNode × CommitState) → Prop
  | .error error => allowed error
  | .ok (nodes, next) => Prepares L input state next ∧ nodes ≠ [] ∧
    (∀ node ∈ nodes, node.level = level) ∧ (nodes.map PreparedTreeNode.minimumKey).Sublist keys

section Writing

variable {allowed : TreeError → Prop} {keys : List Bytes}

theorem Writes.behind {level : Nat} {middle : CommitState}
    {result : Except TreeError (List PreparedTreeNode × CommitState)}
    (first : Prepares L input state middle)
    (rest : Writes L input allowed keys level middle result) :
    Writes L input allowed keys level state result := by
  cases result with
  | error error => exact rest
  | ok written => exact ⟨first.trans rest.1, rest.2⟩

theorem prepareExtent_keeps (L : Limits) (input : CommitInput) (state : CommitState) :
    (prepareExtent L input).Keeps (Prepares L input state) :=
  fun _ payload kind before => before.trans (.extent payload kind (.refl _))

theorem placePages_ok {α : Type*} {kind level : Nat} {encode : List α → Option Bytes}
    {overflow : TreeError} {minimum : List α → Bytes} {levelOf : List α → Nat}
    {pages : List (List α)} {nodes : List PreparedTreeNode} (nonempty : pages ≠ [])
    (levels : ∀ page ∈ pages, levelOf page = level) (begins : (pages.map minimum).Sublist keys)
    (placed : placePages (prepareExtent L input) kind encode overflow minimum levelOf pages state =
      .ok (nodes, next)) : Writes L input allowed keys level state (.ok (nodes, next)) := by
  refine ⟨placePages_keeps (prepareExtent_keeps L input state) (.refl state) placed, ?_, ?_, ?_⟩
  · rintro rfl
    have count := placePages_length placed
    exact nonempty (List.eq_nil_of_length_eq_zero count.symm)
  · intro node member
    have isLevel := List.mem_map_of_mem (f := PreparedTreeNode.level) member
    rw [placePages_levels placed] at isLevel
    obtain ⟨page, inPages, same⟩ := List.mem_map.1 isLevel
    exact same ▸ levels page inPages
  · rw [placePages_minimumKeys placed]
    exact begins

theorem placePages_writes {α : Type*} {kind level : Nat} {encode : List α → Option Bytes}
    {overflow : TreeError} {minimum : List α → Bytes} {levelOf : List α → Nat}
    {pages : List (List α)} (nonempty : pages ≠ [])
    (levels : ∀ page ∈ pages, levelOf page = level) (begins : (pages.map minimum).Sublist keys)
    (known : (∃ page ∈ pages, encode page = none) → allowed overflow) (state : CommitState) :
    Writes L input allowed keys level state
      (placePages (prepareExtent L input) kind encode overflow minimum levelOf pages state) := by
  cases placed : placePages (prepareExtent L input) kind encode overflow minimum levelOf pages
      state with
  | error error =>
    obtain ⟨rfl, failed⟩ := placePages_error placed
    exact known failed
  | ok result => exact placePages_ok nonempty levels begins placed

theorem splitPages_ne_nil {α : Type*} {capacity : Nat} {size : List α → Nat} {items : List α}
    {pages : List (List α)} (nonempty : items ≠ [])
    (split : splitPages capacity size items = some pages) : pages ≠ [] := by
  rintro rfl
  exact nonempty (splitPages_flatten nonempty split).1.symm

theorem levelUp_writes (role kind : Nat) {level : Nat} {nodes : List PreparedTreeNode}
    (nonempty : nodes ≠ []) (levels : ∀ node ∈ nodes, node.level = level)
    (begins : (nodes.map PreparedTreeNode.minimumKey).Sublist keys) (state : CommitState) :
    Writes L input allowed keys (level + 1) state
      (levelUp L role kind (prepareExtent L input) nodes state) := by
  obtain ⟨parents, next, up⟩ :=
    @levelUp_complete _ L (prepareExtent L input) role kind nodes nonempty state
  obtain ⟨-, pages, split, placed⟩ := levelUp_ok up
  obtain ⟨whole, filled⟩ := splitPages_flatten nonempty split
  rw [up]
  refine placePages_ok (splitPages_ne_nil nonempty split) (fun page member => ?_) ?_ placed
  · obtain ⟨leftmost, rest, rfl⟩ := List.exists_cons_of_ne_nil (filled page member)
    exact congrArg (· + 1)
      (levels leftmost (whole ▸ List.mem_flatten.2 ⟨_, member, List.mem_cons_self⟩))
  · rw [← whole] at begins
    exact (heads_sublist groupMinimum _ filled fun _ _ => rfl).trans begins

theorem Grows.writes {role kind level : Nat} {nodes : List PreparedTreeNode}
    {root : PreparedTreeNode} (grows : Grows L role kind (prepareExtent L input) nodes state root next)
    (levels : ∀ node ∈ nodes, node.level = level) :
    Prepares L input state next ∧ level ≤ root.level :=
  ⟨grows.keeps (prepareExtent_keeps L input _) (.refl _), grows.level_le levels⟩

end Writing

/-! ## What the pages hold -/

/-- A page that was placed can be read as a page of the tree. -/
theorem prepareExtent_page (publishes : input.Publishes later) (bounded : state.pool.Bounded L)
    {T : TreeRole} (plain : T.keyDomain = 2 ∧ T.owner = []) {payload : Bytes} {kind : Nat}
    (settled : (prepareExtent L input state payload kind).2.Settled L later after)
    (isPage : isPageKind kind) (sized : payload.length = L.pagePayloadBytes) :
    PageAt L later after T kind (prepareExtent L input state payload kind).1 payload := by
  have read : ReadExtent L later after (prepareExtent L input state payload kind).1
      { unitKind := kind } none payload :=
    prepareExtent_read publishes bounded settled (fun _ => sized) (by simp)
  refine ⟨validateOrderedPageReference_of read.valid ⟨read.span.1 isPage, read.span.2.2⟩, ?_⟩
  rw [plain.1, plain.2]
  exact read

theorem placePages_read {α : Type*} (publishes : input.Publishes later)
    (bounded : state.pool.Bounded L) {T : TreeRole} (plain : T.keyDomain = 2 ∧ T.owner = [])
    {kind : Nat} {encode : List α → Option Bytes} {overflow : TreeError}
    {minimum : List α → Bytes} {level : List α → Nat} {pages : List (List α)}
    {nodes : List PreparedTreeNode} (isPage : isPageKind kind)
    (sized : ∀ page ∈ pages, ∀ payload, encode page = some payload →
      payload.length = L.pagePayloadBytes)
    (placed : placePages (prepareExtent L input) kind encode overflow minimum level pages state =
      .ok (nodes, next)) (settled : next.Settled L later after) :
    List.Forall₂ (fun page node => ∃ payload, encode page = some payload ∧
      PageAt L later after T kind node.reference payload ∧ node.minimumKey = minimum page)
      pages nodes := by
  induction pages generalizing state nodes with
  | nil =>
    obtain ⟨rfl, -⟩ := placePages_nil placed
    exact .nil
  | cons page rest ih =>
    obtain ⟨payload, others, encoded, tail, rfl⟩ := placePages_cons placed
    have further := placePages_keeps (prepareExtent_keeps L input _) (.refl _) tail
    obtain ⟨length, lengths⟩ := List.forall_mem_cons.1 sized
    refine .cons ⟨payload, encoded, ?_, rfl⟩ (ih (prepareExtent_bounded bounded _ _) lengths tail)
    exact prepareExtent_page publishes bounded plain (settled.earlier further.extends) isPage
      (length payload encoded)

/-- A writer that places its pages with `prepareExtent` and writes leaves with values that are
`good`. -/
structure WriterBasics (L : Limits) (input : CommitInput) (writer : TreeWriter)
    (good : MutableTreeValue → Prop) (allowed : TreeError → Prop) : Prop where
  place : writer.place = prepareExtent L input
  leaf_writes : ∀ {items}, items ≠ [] → (∀ item ∈ items, good item) → ∀ state,
    Writes L input allowed (items.map MutableTreeValue.key) 0 state (writer.writeLeaf items state)

theorem WriterBasics.imp {writer : TreeWriter} {good better : MutableTreeValue → Prop}
    {allowed : TreeError → Prop} (less : ∀ {item}, better item → good item)
    (basics : WriterBasics L input writer good allowed) :
    WriterBasics L input writer better allowed :=
  ⟨basics.place, fun nonempty values =>
    basics.leaf_writes nonempty fun item member => less (values item member)⟩

/-- What the writer of a tree must do.  `T` is the role under which the pages are read, `keyOk` is
what the tree asks of keys. -/
structure WriterSpec (L : Limits) (input : CommitInput) (later : OpenedFormat)
    (after : ExtentStore) (writer : TreeWriter) (T : TreeRole)
    (pages : Pages Bytes ExtentReference (Bytes × Bytes)) (good : MutableTreeValue → Prop)
    (allowed : TreeError → Prop) (keyOk : Bytes → Prop) :
    Prop extends WriterBasics L input writer good allowed where
  keys : ∀ {item}, good item → keyOk item.key
  plain : T.keyDomain = 2 ∧ T.owner = []
  internal_page : isPageKind writer.internalKind
  fits : ∀ {level reference entries}, Holds Prod.fst pages level reference entries →
    reference.Fits ∧ reference.null = false
  inner : ∀ {reference leftmost rest payload},
    encodeInternalPage L writer.role (leftmost :: rest) = some payload →
    leftmost.level + 1 ≤ maximumTreeLevel → Increasing PreparedTreeNode.minimumKey rest →
    (∀ node ∈ rest, keyOk node.minimumKey) →
    (∀ node ∈ leftmost :: rest, node.reference.Fits ∧ node.reference.null = false) →
    PageAt L later after T writer.internalKind reference payload →
    ∃ first, pages.inner (leftmost.level + 1) reference
      ((first, leftmost.reference) :: rest.map PreparedTreeNode.entry)
  leaf : ∀ {items state nodes next}, items ≠ [] → Increasing MutableTreeValue.key items →
    (∀ item ∈ items, good item) → state.pool.Bounded L →
    writer.writeLeaf items state = .ok (nodes, next) → next.Settled L later after →
    Row Prod.fst pages 0 (nodes.map PreparedTreeNode.entry) (items.map MutableTreeValue.pair)

section Spec

variable {writer : TreeWriter} {T : TreeRole} {pages : Pages Bytes ExtentReference (Bytes × Bytes)}
  {good : MutableTreeValue → Prop} {allowed : TreeError → Prop} {keyOk : Bytes → Prop} {level : Nat}
  {nodes : List PreparedTreeNode} {entries : List (Bytes × Bytes)}

theorem encodeInternalPage_length {role : Nat} {group : List PreparedTreeNode} {payload : Bytes}
    (encoded : encodeInternalPage L role group = some payload) :
    payload.length = L.pagePayloadBytes := by
  cases group with
  | nil => cases encoded
  | cons leftmost rest =>
    obtain ⟨shared, items, rfl⟩ := encodeInternalPage_eq_some encoded
    exact encodePage_length (encodeExtentReference_length _) items.used

theorem encodeInternalPage_level {role : Nat} {leftmost : PreparedTreeNode}
    {rest : List PreparedTreeNode} {payload : Bytes} (roleFits : role < 2 ^ 32)
    (levelFits : leftmost.level + 1 < 2 ^ 32)
    (encoded : encodeInternalPage L role (leftmost :: rest) = some payload) :
    (readPageHeader payload).level = leftmost.level + 1 := by
  obtain ⟨shared, items, rfl⟩ := encodeInternalPage_eq_some encoded
  rw [readPageHeader_encodePage (encodeExtentReference_length _) (by decide) roleFits levelFits
    items.used_lt]
  rfl

/-- The parents of groups of siblings are siblings with the same values. -/
theorem row_parents (spec : WriterSpec L input later after writer T pages good allowed keyOk)
    {groups : List (List PreparedTreeNode)} {parents : List PreparedTreeNode}
    (placed : List.Forall₂ (fun group parent => ∃ payload,
      encodeInternalPage L writer.role group = some payload ∧
        PageAt L later after T writer.internalKind parent.reference payload ∧
        parent.minimumKey = groupMinimum group) groups parents)
    (filled : ∀ group ∈ groups, group ≠ []) (shallow : level + 1 ≤ maximumTreeLevel)
    (levels : ∀ node ∈ groups.flatten, node.level = level)
    (row : Row Prod.fst pages level (groups.flatten.map PreparedTreeNode.entry) entries)
    (increasing : Increasing Prod.fst entries) (keys : ∀ entry ∈ entries, keyOk entry.1) :
    Row Prod.fst pages (level + 1) (parents.map PreparedTreeNode.entry) entries ∧
      List.Forall₂ (fun group parent => ∃ children,
        pages.inner (level + 1) parent.reference children ∧ children.length = group.length)
        groups parents := by
  induction placed generalizing entries with
  | nil =>
    obtain ⟨blocks, all, rfl⟩ := row
    cases all
    exact ⟨.nil, .nil⟩
  | @cons group parent groups parents here _ ih =>
    obtain ⟨payload, encoded, page, minimum⟩ := here
    obtain ⟨leftmost, rest, rfl⟩ := List.exists_cons_of_ne_nil (filled group List.mem_cons_self)
    rw [List.flatten_cons] at row levels
    rw [List.map_append] at row
    obtain ⟨front, back, rfl, first, others⟩ := row.split
    obtain ⟨sorted, sortedBack, -⟩ := increasing_append.1 increasing
    have isLevel : leftmost.level = level := levels leftmost (by simp)
    have separated : Increasing PreparedTreeNode.minimumKey rest := by
      have behind := (increasing_cons.1 (first.keys_increasing sorted)).2
      rw [Increasing, List.pairwise_map] at behind
      exact behind
    obtain ⟨low, isInner⟩ := spec.inner encoded (isLevel ▸ shallow) separated
      (fun node member => by
        obtain ⟨entry, inFront, same⟩ := first.key_mem
          (List.mem_map_of_mem (f := PreparedTreeNode.entry) (List.mem_cons_of_mem _ member))
        have accepted := keys entry (List.mem_append_left _ inFront)
        rwa [same] at accepted)
      (fun node member => by
        obtain ⟨block, holds⟩ := first.holds_mem
          (List.mem_map_of_mem (f := PreparedTreeNode.entry) member)
        exact spec.fits holds)
      page
    rw [isLevel] at isInner
    obtain ⟨holds, isFirst⟩ := first.inner isInner sorted
    obtain ⟨rows, counts⟩ := ih (fun group member => filled group (List.mem_cons_of_mem _ member))
      (fun node member => levels node (List.mem_append_right _ member)) others sortedBack
      (fun entry member => keys entry (List.mem_append_right _ member))
    refine ⟨.cons holds ?_ rows, .cons ⟨_, isInner, by simp⟩ counts⟩
    rw [isFirst]
    exact congrArg some minimum.symm

theorem levelUp_row (spec : WriterSpec L input later after writer T pages good allowed keyOk)
    (publishes : input.Publishes later) (bounded : state.pool.Bounded L)
    {parents : List PreparedTreeNode}
    (row : Row Prod.fst pages level (nodes.map PreparedTreeNode.entry) entries)
    (levels : ∀ node ∈ nodes, node.level = level) (shallow : level + 1 ≤ maximumTreeLevel)
    (increasing : Increasing Prod.fst entries) (keys : ∀ entry ∈ entries, keyOk entry.1)
    (up : levelUp L writer.role writer.internalKind (prepareExtent L input) nodes state =
      .ok (parents, next)) (settled : next.Settled L later after) :
    Row Prod.fst pages (level + 1) (parents.map PreparedTreeNode.entry) entries ∧
      ∀ parent, parents = [parent] → ∃ children,
        pages.inner (level + 1) parent.reference children ∧ children.length = nodes.length := by
  obtain ⟨nonempty, groups, split, placed⟩ := levelUp_ok up
  obtain ⟨whole, filled⟩ := splitPages_flatten nonempty split
  have read := placePages_read publishes bounded spec.plain spec.internal_page
    (fun _ _ _ encoded => encodeInternalPage_length encoded) placed settled
  rw [← whole] at row levels
  obtain ⟨rows, counts⟩ := row_parents spec read filled shallow levels row increasing keys
  refine ⟨rows, ?_⟩
  rintro parent rfl
  cases counts with
  | cons here rest =>
    cases rest
    obtain ⟨children, isInner, count⟩ := here
    refine ⟨children, isInner, ?_⟩
    rw [count, ← whole]
    simp

/-! ## Nodes -/

theorem persistChildren_ok {τ : Type} {child : τ} {rest : List τ}
    {persist : τ → CommitState → Except TreeError (List PreparedTreeNode × CommitState)}
    (persisted : persistChildren persist (child :: rest) state = .ok (nodes, next)) :
    ∃ first middle others, persist child state = .ok (first, middle) ∧
      persistChildren persist rest middle = .ok (others, next) ∧ nodes = first ++ others := by
  rw [persistChildren] at persisted
  obtain ⟨⟨first, middle⟩, here, persisted⟩ := bind_eq_ok.1 persisted
  obtain ⟨⟨others, last⟩, behind, persisted⟩ := bind_eq_ok.1 persisted
  cases persisted
  exact ⟨first, middle, others, here, behind, rfl⟩

theorem persistChildren_writes {τ : Type} {children : List τ} {keysOf : τ → List Bytes}
    {persist : τ → CommitState → Except TreeError (List PreparedTreeNode × CommitState)}
    (each : ∀ child ∈ children, ∀ state,
      Writes L input allowed (keysOf child) level state (persist child state))
    (state : CommitState) :
    match persistChildren persist children state with
    | .error error => allowed error
    | .ok (nodes, next) => Prepares L input state next ∧ children.length ≤ nodes.length ∧
        (∀ node ∈ nodes, node.level = level) ∧
        (nodes.map PreparedTreeNode.minimumKey).Sublist (children.flatMap keysOf) := by
  induction children generalizing state with
  | nil => exact ⟨.refl state, le_rfl, by simp, .slnil⟩
  | cons child rest ih =>
    obtain ⟨here, behind⟩ := List.forall_mem_cons.1 each
    have wrote := here state
    rw [persistChildren]
    cases first : persist child state with
    | error error =>
      rw [first] at wrote
      exact wrote
    | ok result =>
      obtain ⟨front, middle⟩ := result
      rw [first] at wrote
      obtain ⟨prepares, some, levels, begins⟩ := wrote
      have others := ih behind middle
      rw [ok_bind]
      dsimp only
      cases second : persistChildren persist rest middle with
      | error error =>
        rw [second] at others
        exact others
      | ok result =>
        rw [second] at others
        obtain ⟨further, count, more, follow⟩ := others
        have filled := List.length_pos_iff.2 some
        refine ⟨prepares.trans further, ?_, List.forall_mem_append.2 ⟨levels, more⟩, ?_⟩
        · rw [List.length_cons, List.length_append]
          omega
        · rw [List.map_append, List.flatMap_cons]
          exact begins.append follow

theorem persistChildren_row {τ : Type} {children : List τ} {keysOf : τ → List Bytes}
    {entriesOf : τ → List (Bytes × Bytes)}
    {persist : τ → CommitState → Except TreeError (List PreparedTreeNode × CommitState)}
    (writes : ∀ child ∈ children, ∀ state,
      Writes L input allowed (keysOf child) level state (persist child state))
    (each : ∀ child ∈ children, ∀ {state nodes next}, state.pool.Bounded L →
      persist child state = .ok (nodes, next) → next.Settled L later after →
        Row Prod.fst pages level (nodes.map PreparedTreeNode.entry) (entriesOf child))
    (bounded : state.pool.Bounded L)
    (persisted : persistChildren persist children state = .ok (nodes, next))
    (settled : next.Settled L later after) :
    Row Prod.fst pages level (nodes.map PreparedTreeNode.entry) (children.flatMap entriesOf) := by
  induction children generalizing state nodes with
  | nil =>
    cases persisted
    exact .nil
  | cons child rest ih =>
    obtain ⟨front, middle, others, here, behind, rfl⟩ := persistChildren_ok persisted
    obtain ⟨write, more⟩ := List.forall_mem_cons.1 writes
    have wrote := write state
    rw [here] at wrote
    have further := persistChildren_writes more middle
    rw [behind] at further
    rw [List.map_append, List.flatMap_cons]
    refine Row.append (each child List.mem_cons_self bounded here
      (settled.earlier further.1.extends)) ?_
    exact ih more (fun child member => each child (List.mem_cons_of_mem _ member))
      (wrote.1.bounded bounded) behind

open MutableTree

/-- The keys of a tree in memory. -/
def keysOf {level : Nat} (tree : MutableTree level) : List Bytes :=
  tree.values.map MutableTreeValue.key

/-- The key of a clean node is the key of one of its values. -/
theorem minimumKey_sublist {tree : MutableTree level} (sound : Sound pages good tree)
    (nonempty : tree.values ≠ []) : [tree.minimumKey].Sublist (keysOf tree) := by
  have isFirst := sound.shaped.firstKey_eq nonempty
  obtain ⟨entry, member, same⟩ := firstKey_mem isFirst
  obtain ⟨item, inValues, rfl⟩ := List.mem_map.1 member
  exact List.singleton_sublist.2 (List.mem_map.2 ⟨item, inValues, same⟩)

theorem persistNode_writes (basics : WriterBasics L input writer good allowed)
    {tree : MutableTree level} (sound : Sound pages good tree) (nonempty : tree.values ≠ [])
    (state : CommitState) :
    Writes L input allowed (keysOf tree) level state (persistNode L writer tree state) := by
  have isKey := minimumKey_sublist sound nonempty
  induction level generalizing state with
  | zero =>
    rw [persistNode.eq_1]
    split
    · exact ⟨.retain _ (.refl _), List.cons_ne_nil _ _, List.forall_mem_singleton.2 rfl, isKey⟩
    · exact basics.leaf_writes nonempty sound.kept.2 state
  | succ level ih =>
    rw [persistNode.eq_2]
    split
    · exact ⟨.retain _ (.refl _), List.cons_ne_nil _ _, List.forall_mem_singleton.2 rfl, isKey⟩
    · have wrote := persistChildren_writes (fun child (member : child ∈ MutableNode.items tree) =>
        fun state => ih (sound.children member).1 (sound.children member).2 state
          (minimumKey_sublist (sound.children member).1 (sound.children member).2)) state
      cases below : persistChildren (persistNode L writer) (MutableNode.items tree) state with
      | error error =>
        rw [below] at wrote
        exact wrote
      | ok result =>
        obtain ⟨children, middle⟩ := result
        rw [below] at wrote
        obtain ⟨prepares, count, levels, begins⟩ := wrote
        have filled := List.length_pos_iff.2 (items_ne_nil nonempty)
        have some : children ≠ [] := List.length_pos_iff.1 (filled.trans_le count)
        have whole : (MutableNode.items tree).flatMap keysOf = keysOf tree :=
          List.map_flatMap.symm
        have up : Writes L input allowed (keysOf tree) (level + 1) middle
            (levelUp L writer.role writer.internalKind writer.place children middle) := by
          rw [basics.place, ← whole]
          exact levelUp_writes _ _ some levels begins middle
        rw [ok_bind]
        exact Writes.behind prepares up

/-- The pages written for a node hold its values; a single page has at least as many children as
the node. -/
theorem persistNode_row (spec : WriterSpec L input later after writer T pages good allowed keyOk)
    (publishes : input.Publishes later) {tree : MutableTree level} (sound : Sound pages good tree)
    (nonempty : tree.values ≠ []) (shallow : level ≤ maximumTreeLevel)
    (bounded : state.pool.Bounded L)
    (persisted : persistNode L writer tree state = .ok (nodes, next))
    (settled : next.Settled L later after) :
    Row Prod.fst pages level (nodes.map PreparedTreeNode.entry) tree.pairs ∧
      ∀ node, nodes = [node] → level ≠ 0 → ∃ children,
        pages.inner level node.reference children ∧ tree.width ≤ children.length := by
  have isFirst := sound.shaped.firstKey_eq nonempty
  induction level generalizing state nodes next with
  | zero =>
    refine ⟨?_, fun _ _ inner => absurd rfl inner⟩
    rw [persistNode.eq_1] at persisted
    split at persisted
    · rename_i clean
      cases persisted
      exact .single (sound.kept.1 clean nonempty) isFirst
    · exact spec.leaf nonempty sound.shaped.1 sound.kept.2 bounded persisted settled
  | succ level ih =>
    have filled := items_ne_nil nonempty
    rw [persistNode.eq_2] at persisted
    split at persisted
    · rename_i clean
      cases persisted
      obtain ⟨holds, children, isInner, count⟩ := sound.kept.1 clean filled
      refine ⟨.single holds isFirst, ?_⟩
      rintro node same -
      cases same
      exact ⟨children, isInner, count.ge⟩
    · obtain ⟨⟨below, middle⟩, inside, up⟩ := bind_eq_ok.1 persisted
      have writes := fun child (member : child ∈ MutableNode.items tree) =>
        persistNode_writes spec.toWriterBasics (sound.children member).1
          (sound.children member).2
      have wrote := persistChildren_writes writes state
      rw [inside] at wrote
      obtain ⟨prepares, count, levels, -⟩ := wrote
      have some : below ≠ [] :=
        List.length_pos_iff.1 ((List.length_pos_iff.2 filled).trans_le count)
      rw [spec.place] at up
      dsimp only at up
      have raised : Writes L input allowed _ (level + 1) middle _ :=
        levelUp_writes writer.role writer.internalKind some levels (.refl _) middle
      rw [up] at raised
      have row := persistChildren_row writes
        (fun child member {_ _ _} inBounds wrote written =>
          (ih (sound.children member).1 (sound.children member).2 (by omega) inBounds wrote
            written ((sound.children member).1.shaped.firstKey_eq (sound.children member).2)).1)
        bounded inside (settled.earlier raised.1.extends)
      have whole : (MutableNode.items tree).flatMap MutableTree.pairs = tree.pairs :=
        (pairs_flatMap _).symm
      rw [whole] at row
      obtain ⟨rows, branches⟩ := levelUp_row spec publishes (prepares.bounded bounded) row
        levels shallow sound.increasing_pairs (fun entry member => by
          obtain ⟨item, inValues, rfl⟩ := List.mem_map.1 member
          exact spec.keys (sound.kept.good inValues)) up settled
      refine ⟨rows, fun node single _ => ?_⟩
      obtain ⟨children, isInner, same⟩ := branches node single
      exact ⟨children, isInner, by rw [same]; exact count⟩

/-- The root page holds the whole level; it has two children unless it was there before. -/
theorem Grows.holds (spec : WriterSpec L input later after writer T pages good allowed keyOk)
    (publishes : input.Publishes later) {root : PreparedTreeNode}
    (grows : Grows L writer.role writer.internalKind (prepareExtent L input) nodes state root next)
    (row : Row Prod.fst pages level (nodes.map PreparedTreeNode.entry) entries)
    (levels : ∀ node ∈ nodes, node.level = level)
    (increasing : Increasing Prod.fst entries) (keys : ∀ entry ∈ entries, keyOk entry.1)
    (bounded : state.pool.Bounded L) (settled : next.Settled L later after)
    (shallow : root.level ≤ maximumTreeLevel) :
    Holds Prod.fst pages root.level root.reference entries ∧
      (nodes = [root] ∨ ∃ children, pages.inner root.level root.reference children ∧
        2 ≤ children.length) := by
  induction grows generalizing level with
  | root root =>
    rw [levels root List.mem_cons_self]
    exact ⟨row.holds_of_single, Or.inl rfl⟩
  | @up nodes parents root state middle next several up rest ih =>
    have nonempty := (levelUp_ok up).1
    have wrote : Writes L input allowed _ (level + 1) state _ :=
      levelUp_writes writer.role writer.internalKind nonempty levels (.refl _) state
    rw [up] at wrote
    obtain ⟨prepares, -, above, -⟩ := wrote
    obtain ⟨further, high⟩ := rest.writes above
    obtain ⟨rows, branches⟩ := levelUp_row spec publishes bounded row
      levels (high.trans shallow) increasing keys up (settled.earlier further.extends)
    obtain ⟨holds, isRoot⟩ := ih rows above (prepares.bounded bounded) settled shallow
    refine ⟨holds, Or.inr ?_⟩
    rcases isRoot with rfl | found
    · obtain ⟨children, isInner, count⟩ := branches root rfl
      have filled := List.length_pos_iff.2 nonempty
      rw [above root List.mem_cons_self]
      exact ⟨children, isInner, by omega⟩
    · exact found

/-! ## Whole trees -/

/-- Beside the failures of its leaves, a tree can only fail to come to one root.  With keys that
climb, as many turns lead to one, as many levels above the tree. -/
theorem persistTree_writes (basics : WriterBasics L input writer good allowed)
    {root : MutableRoot} (sound : Sound pages good root.tree) (nonempty : root.tree.values ≠ [])
    (turns : Nat) (state : CommitState) :
    match persistTree L writer turns root state with
    | .error error => allowed error ∨ error = .endless ∧
        ∀ depth, Climbs L depth (keysOf root.tree) → turns < depth
    | .ok (page, next) => Prepares L input state next ∧
        ∀ depth, Climbs L depth (keysOf root.tree) → page.level ≤ root.level + depth := by
  have wrote := persistNode_writes basics sound nonempty state
  rw [persistTree]
  cases persisted : persistNode L writer root.tree state with
  | error error =>
    rw [persisted] at wrote
    exact Or.inl wrote
  | ok result =>
    obtain ⟨nodes, middle⟩ := result
    rw [persisted] at wrote
    obtain ⟨prepares, some, levels, begins⟩ := wrote
    have one := fun depth (climbs : Climbs L depth (keysOf root.tree)) =>
      iterate_parentKeys_of_climbs (by simpa using some) (climbs.sublist begins)
    have divides := @growRoot_divides _ L (prepareExtent L input) writer.role writer.internalKind
      turns root.level nodes middle some levels
    rw [ok_bind, basics.place]
    dsimp only
    cases grown : growRoot L writer.role writer.internalKind (prepareExtent L input) turns nodes
        middle with
    | error error =>
      rw [grown] at divides
      exact Or.inr ⟨divides.1, fun depth climbs => Nat.lt_of_not_le fun enough =>
        divides.2 (iterate_parentKeys_mono enough (one depth climbs))⟩
    | ok result =>
      rw [grown] at divides
      exact ⟨prepares.trans ((growRoot_grows grown).writes levels).1, fun depth climbs =>
        (divides.2 depth).1 (one depth climbs)⟩

/-- The root page of a written tree holds its values; it is a leaf or has two children. -/
theorem persistTree_holds (spec : WriterSpec L input later after writer T pages good allowed keyOk)
    (publishes : input.Publishes later) {root : MutableRoot} (sound : Sound pages good root.tree)
    (nonempty : root.tree.values ≠ []) (wide : root.level ≠ 0 → 2 ≤ root.tree.width)
    (bounded : state.pool.Bounded L) {turns : Nat} {page : PreparedTreeNode}
    (persisted : persistTree L writer turns root state = .ok (page, next))
    (settled : next.Settled L later after) (shallow : page.level ≤ maximumTreeLevel) :
    Holds Prod.fst pages page.level page.reference root.tree.pairs ∧
      (page.level ≠ 0 → ∃ children, pages.inner page.level page.reference children ∧
        2 ≤ children.length) := by
  rw [persistTree] at persisted
  obtain ⟨⟨nodes, middle⟩, inside, grown⟩ := bind_eq_ok.1 persisted
  rw [spec.place] at grown
  have wrote := persistNode_writes spec.toWriterBasics sound nonempty state
  rw [inside] at wrote
  obtain ⟨prepares, some, levels, -⟩ := wrote
  have grows := growRoot_grows grown
  have further := grows.writes levels
  obtain ⟨row, branches⟩ := persistNode_row spec publishes sound nonempty
    (further.2.trans shallow) bounded inside (settled.earlier further.1.extends)
  obtain ⟨holds, isRoot⟩ := grows.holds spec publishes row levels sound.increasing_pairs
    (fun entry member => by
      obtain ⟨item, inValues, rfl⟩ := List.mem_map.1 member
      exact spec.keys (sound.kept.good inValues))
    (prepares.bounded bounded) settled shallow
  refine ⟨holds, fun inner => ?_⟩
  rcases isRoot with rfl | found
  · have isLevel := levels page List.mem_cons_self
    rw [isLevel] at inner ⊢
    obtain ⟨children, isInner, count⟩ := branches page rfl inner
    exact ⟨children, isInner, (wide inner).trans count⟩
  · exact found

end Spec

end Miare
