import Miare.Cursor.Proofs.Range
import Miare.Tree.Proofs.CanonicalOrdered
import Miare.Tree.Proofs.Fill

/-!
# Repeated lazy loads

`ensureValuesLoaded` fills `session.cursorTree` in place, and a load that throws leaves there what it
has read.  A later load appends to that: the tree is the one of a first load just when the loads
before it have put no value and no child into its root.
-/

namespace Miare

open Misc

/-! ## The tree of a node -/

/-- The tree of a node of a known level. -/
def CursorNode.treeAt : (level : Nat) → CursorNode → MutableTree level
  | 0, node =>
    ({ reference := node.reference, minimumKey := node.minimumKey, dirty := node.dirty
       items := node.values } : MutableNode MutableTreeValue)
  | level + 1, node =>
    ({ reference := node.reference, minimumKey := node.minimumKey, dirty := node.dirty
       items := node.children.map (CursorNode.treeAt level) } : MutableNode (MutableTree level))

/-- The tree that a cursor walks, whose children are one level below their parent. -/
def CursorNode.root (node : CursorNode) : MutableRoot := ⟨node.level, node.treeAt node.level⟩

theorem CursorNode.root_asLoaded {level : Nat} {tree : MutableTree level}
    (same : tree.asLoaded.treeAt level = tree) : tree.asLoaded.root = ⟨level, tree⟩ := by
  have isLevel : tree.asLoaded.level = level := by
    cases level with
    | zero => rfl
    | succ level => rfl
  unfold CursorNode.root
  rw [isLevel, same]

theorem loadSubtrees_all {σ τ : Type} {loader : TreeLoader σ}
    {load : ExtentReference → σ → Except LoadError (τ × PageBounds × σ)} {P : τ → Prop}
    (each : ∀ {child state tree bounds next}, load child state = .ok (tree, bounds, next) → P tree)
    {maximum : Option Bytes} {children : List (Bytes × ExtentReference)} {state next : σ}
    {subtrees : List (τ × PageBounds)}
    (loaded : loadSubtrees loader load maximum children state = .ok (subtrees, next)) :
    ∀ subtree ∈ subtrees, P subtree.1 := by
  induction children generalizing maximum state subtrees with
  | nil =>
    cases loaded
    simp
  | cons child rest ih =>
    rw [loadSubtrees] at loaded
    obtain ⟨⟨tree, bounds, after⟩, first, loaded⟩ := bind_eq_ok.1 loaded
    obtain ⟨-, loaded⟩ := require_bind_eq_ok.1 loaded
    obtain ⟨-, loaded⟩ := require_bind_eq_ok.1 loaded
    obtain ⟨⟨others, last⟩, remaining, loaded⟩ := bind_eq_ok.1 loaded
    cases loaded
    intro subtree member
    rcases List.mem_cons.1 member with rfl | member
    · exact each first
    · exact ih remaining subtree member

/-- A loader makes nodes that are not dirty, so the node of its tree has all of it. -/
theorem loadTree_asLoaded {σ : Type} {loader : TreeLoader σ} {level : Nat}
    {reference : ExtentReference} {state next : σ} {tree : MutableTree level} {bounds : PageBounds}
    (loaded : loadTree loader level reference state = .ok (tree, bounds, next)) :
    tree.asLoaded.treeAt level = tree := by
  induction level generalizing reference state next bounds with
  | zero =>
    rw [loadTree] at loaded
    obtain ⟨⟨values, after⟩, -, loaded⟩ := bind_eq_ok.1 loaded
    cases loaded
    rfl
  | succ level ih =>
    rw [loadTree] at loaded
    obtain ⟨⟨children, after⟩, -, loaded⟩ := bind_eq_ok.1 loaded
    obtain ⟨⟨subtrees, last⟩, below, loaded⟩ := bind_eq_ok.1 loaded
    cases loaded
    have each := @loadSubtrees_all _ _ _ _ (fun tree => tree.asLoaded.treeAt level = tree)
      (fun first => ih first) _ _ _ _ _ below
    have items : ((subtrees.map Prod.fst).map MutableTree.asLoaded).map (CursorNode.treeAt level) =
        subtrees.map Prod.fst := by
      rw [List.map_map, List.map_map]
      exact List.map_congr_left fun subtree member => each subtree member
    change ({ reference := reference, minimumKey := (subtreeBounds subtrees).minimum
              items := ((subtrees.map Prod.fst).map MutableTree.asLoaded).map
                (CursorNode.treeAt level) } : MutableNode (MutableTree level)) = _
    rw [items]

/-! ## Filling a node that is not new -/

/-- Nothing has been appended to the lists of the node. -/
def CursorNode.Bare (node : CursorNode) : Prop := node.values = [] ∧ node.children = []

/-- A load overwrites the other fields, so the lists decide whether it makes the tree of a first
load. -/
theorem MutableTree.fillInto_eq_iff {level : Nat} (tree : MutableTree level) {node : CursorNode}
    (clean : node.dirty = false) : tree.fillInto node = tree.fillInto {} ↔ node.Bare := by
  cases level with
  | zero =>
    let leaf : MutableNode MutableTreeValue := tree
    constructor
    · intro same
      have values : node.values ++ leaf.items = [] ++ leaf.items := congrArg CursorNode.values same
      have children : node.children = [] := congrArg CursorNode.children same
      exact ⟨List.append_cancel_right values, children⟩
    · rintro ⟨values, children⟩
      cases node
      cases values
      cases children
      cases clean
      rfl
  | succ level =>
    let inner : MutableNode (MutableTree level) := tree
    constructor
    · intro same
      have values : node.values = [] := congrArg CursorNode.values same
      have children := congrArg List.length (congrArg CursorNode.children same)
      change (fillFirst MutableTree.fillInto inner.items
          (node.children ++ List.replicate inner.items.length ({} : CursorNode))).length =
        (fillFirst MutableTree.fillInto inner.items
          ([] ++ List.replicate inner.items.length ({} : CursorNode))).length at children
      rw [fillFirst_length, fillFirst_length, List.length_append, List.length_append] at children
      exact ⟨values, List.length_eq_zero_iff.1 (by simpa using children)⟩
    · rintro ⟨values, children⟩
      cases node
      cases values
      cases children
      cases clean
      rfl

/-! ## Attempts -/

section Attempts

variable {L : Limits} {format : OpenedFormat} {store : ExtentStore} {reference : ExtentReference}

theorem fillExactValues_null (null : reference.null = true) (state : FillState) :
    fillExactValues L format store reference state = .ok () state := by
  have nothing : shallowValidateOrderedRoot L format store reference = .ok none := by
    rw [shallowValidateOrderedRoot, if_pos null]
  unfold fillExactValues
  rw [run_bind (run_attempt nothing)]
  rfl

/-- The load of a root that is not null. -/
theorem loadExactValues_page {load : OrderedLoad} {root : MutableRoot}
    (present : reference.null = false)
    (loaded : loadExactValues L format store reference = .ok (load, root)) :
    shallowValidateOrderedRoot L format store reference = .ok (some root.level) ∧
      ∃ bounds, loadOrderedPage L format store root.level reference
        { values := Keyed.empty, reachable := [] } = .ok (root.tree, bounds, load) := by
  have filled : root.tree.values ≠ [] := by
    rcases loadExactValues_ok loaded with ⟨null, -⟩ | ⟨-, -, -, -, filled, -⟩
    · rw [present] at null
      cases null
    · exact filled
  obtain ⟨level, shallow, loaded⟩ := bind_eq_ok.1 loaded
  cases level with
  | none =>
    cases loaded
    exact absurd rfl filled
  | some level =>
    obtain ⟨⟨tree, bounds, state⟩, below, loaded⟩ := bind_eq_ok.1 loaded
    cases loaded
    exact ⟨shallow, bounds, below⟩

theorem fillExactValues_eq {load : OrderedLoad} {root : MutableRoot}
    (present : reference.null = false)
    (loaded : loadExactValues L format store reference = .ok (load, root)) (node : CursorNode) :
    fillExactValues L format store reference
        { node, load := { values := Keyed.empty, reachable := [] } } =
      .ok () { node := root.tree.fillInto node, load } := by
  obtain ⟨shallow, bounds, below⟩ := loadExactValues_page present loaded
  unfold fillExactValues
  rw [run_bind (run_attempt shallow)]
  dsimp only
  rw [run_bind (fillOrderedPage_eq below node)]
  rfl

/-- Behind the read of a page above the leaves its children stand in the node, however the load
ends. -/
theorem fillOrderedPage_reached {level : Nat} {children : List (Bytes × ExtentReference)}
    (listed : orderedChildren L format store (level + 1) reference = .ok children)
    (start : FillState) :
    Ends (fillOrderedPage L format store (level + 1) reference) start
      (fun _ after => children.length ≤ after.node.children.length)
      fun _ after => children.length ≤ after.node.children.length := by
  obtain ⟨⟨payload, header⟩, opened, decoded⟩ := bind_eq_ok.1 listed
  have isChildren : pageChildren L payload header = .ok children := decoded
  have below : Moves FillState.Grows (do
      let subtrees ← fillSubtrees (fillOrderedPage L format store level) 0 none children
      modifyNode fun node => { node with minimumKey := (joinBounds subtrees).minimum }
      pure (joinBounds subtrees)) :=
    .bind (fillSubtrees_grows _ _ _ _) fun _ => .bind (.modify fun _ => ⟨le_rfl, le_rfl, rfl⟩)
      fun _ => .pure _
  unfold fillOrderedPage Ends
  rw [run_bind (fillHeader_eq (openTreePage_eq_ok.1 opened) start.node start.load)]
  dsimp only
  rw [run_bind (run_attempt isChildren), run_bind (run_modifyNode _ _ _)]
  have added (node : CursorNode) : children.length ≤
      (node.children ++ List.replicate children.length ({} : CursorNode)).length := by
    rw [List.length_append, List.length_replicate]
    exact Nat.le_add_left _ _
  exact (below _).imp (fun _ _ grows => (added start.node).trans grows.children)
    fun _ _ grows => (added start.node).trans grows.children

namespace LazyValues

theorem ensureLoaded_of {session : LazyValues} {after : FillState}
    (notLoaded : session.valuesLoaded = false)
    (filled : fillExactValues L format store reference
      { node := session.cursorTree, load := { values := Keyed.empty, reachable := [] } } =
        .ok () after) :
    ensureLoaded L format store reference session =
      .ok () { values := after.load.values, valuesLoaded := true, cursorTree := after.node } := by
  unfold ensureLoaded
  rw [if_neg (by rw [notLoaded]; exact Bool.false_ne_true), filled]

/-- An attempt that returns has done what an attempt without failing reads does. -/
theorem ensureLoaded_whole {attempt : ExtentStore} (interrupts : attempt.Interrupts store)
    {session final : LazyValues} (notLoaded : session.valuesLoaded = false)
    (ran : ensureLoaded L format attempt reference session = .ok () final) :
    ensureLoaded L format store reference session = .ok () final := by
  unfold ensureLoaded at ran ⊢
  rw [if_neg (by rw [notLoaded]; exact Bool.false_ne_true)] at ran ⊢
  rcases fillExactValues_interrupts interrupts reference
    { node := session.cursorTree, load := { values := Keyed.empty, reachable := [] } } with
    same | ⟨after, stopped⟩
  · rw [same] at ran
    exact ran
  · rw [stopped] at ran
    cases ran

/-- The node behind an attempt is as the loader leaves it, however it ends. -/
theorem afterAttempt_ends {P : CursorNode → Prop} {attempt : ExtentStore} {session : LazyValues}
    (notLoaded : session.valuesLoaded = false)
    (ends : Ends (fillExactValues L format attempt reference)
      { node := session.cursorTree, load := { values := Keyed.empty, reachable := [] } }
      (fun _ after => P after.node) fun _ after => P after.node) :
    P (afterAttempt L format reference session attempt).cursorTree := by
  unfold afterAttempt ensureLoaded
  rw [if_neg (by rw [notLoaded]; exact Bool.false_ne_true)]
  cases ran : fillExactValues L format attempt reference
      { node := session.cursorTree, load := { values := Keyed.empty, reachable := [] } } with
  | ok value after => exact ends.ok ran
  | error error after => exact ends.error ran

/-- What the loader keeps of the node is kept by an attempt. -/
theorem afterAttempt_keeps {P : CursorNode → Prop} {attempt : ExtentStore}
    (fills : ∀ start : FillState, P start.node →
      Ends (fillExactValues L format attempt reference) start (fun _ after => P after.node)
        fun _ after => P after.node)
    {session : LazyValues} (before : P session.cursorTree) :
    P (afterAttempt L format reference session attempt).cursorTree := by
  cases done : session.valuesLoaded with
  | false => exact afterAttempt_ends done (fills _ before)
  | true =>
    unfold afterAttempt ensureLoaded
    rw [if_pos done]
    exact before

theorem afterAttempts_keeps {P : CursorNode → Prop}
    (fills : ∀ (attempt : ExtentStore) (start : FillState), P start.node →
      Ends (fillExactValues L format attempt reference) start (fun _ after => P after.node)
        fun _ after => P after.node)
    (attempts : List ExtentStore) {session : LazyValues} (before : P session.cursorTree) :
    P (afterAttempts L format reference session attempts).cursorTree := by
  induction attempts generalizing session with
  | nil => exact before
  | cons attempt attempts ih => exact ih (afterAttempt_keeps (fills attempt) before)

/-- No load marks a node as dirty. -/
theorem afterAttempts_clean (attempts : List ExtentStore) :
    (afterAttempts L format reference {} attempts).cursorTree.dirty = false := by
  refine afterAttempts_keeps (P := fun node => node.dirty = false) (fun attempt start clean => ?_)
    attempts rfl
  refine (fillExactValues_grows reference start).imp (fun _ after grows => ?_) fun _ after grows => ?_
  · exact grows.dirty.trans clean
  · exact grows.dirty.trans clean

/-- The load of a null root leaves the node alone. -/
theorem afterAttempts_null (null : reference.null = true) (attempts : List ExtentStore) :
    (afterAttempts L format reference {} attempts).cursorTree = {} := by
  refine afterAttempts_keeps (P := fun node => node = {}) (fun attempt start isNew => ?_) attempts rfl
  unfold Ends
  rw [fillExactValues_null null]
  exact isNew

/-- An attempt that cannot read the root page changes nothing. -/
theorem afterAttempt_missing (present : reference.null = false) {attempt : ExtentStore}
    (missing : attempt reference = none) (session : LazyValues) :
    afterAttempt L format reference session attempt = session := by
  obtain ⟨error, failed⟩ : ∃ error, shallowValidateOrderedRoot L format attempt reference =
      .error error := by
    unfold shallowValidateOrderedRoot readUnitKind
    rw [present, if_neg Bool.false_ne_true, missing]
    cases validateOrderedPageReference L format reference with
    | error error => exact ⟨error, rfl⟩
    | ok _ => exact ⟨.extent, rfl⟩
  unfold afterAttempt ensureLoaded fillExactValues
  split_ifs with done
  · rfl
  · rw [failed]
    rfl

/-- An attempt that reads a root page above the leaves puts its children into the root. -/
theorem afterAttempt_reached {load : OrderedLoad} {root : MutableRoot}
    (present : reference.null = false)
    (committed : loadExactValues L format store reference = .ok (load, root))
    (inner : root.level ≠ 0) {attempt : ExtentStore} (reached : attempt reference = store reference)
    {session : LazyValues} (notLoaded : session.valuesLoaded = false) :
    0 < (afterAttempt L format reference session attempt).cursorTree.children.length := by
  obtain ⟨shallow, bounds, below⟩ := loadExactValues_page present committed
  obtain ⟨level, tree⟩ := root
  cases level with
  | zero => exact absurd rfl inner
  | succ level =>
    obtain ⟨facts, -⟩ := loadTree_sound (orderedLoader_spec L format store) below
    obtain ⟨-, -, ⟨children, listed, -⟩, -⟩ := facts
    obtain ⟨leftmost, separators, rfl, -⟩ := orderedChildren_ok listed
    -- both checks read the root page only
    have sameShallow : shallowValidateOrderedRoot L format attempt reference =
        .ok (some (level + 1)) := by
      rw [← shallow]
      unfold shallowValidateOrderedRoot readUnitKind readAuthenticatedExtent
      rw [reached]
    have sameListed : orderedChildren L format attempt (level + 1) reference =
        .ok (([], leftmost) :: separators) := by
      rw [← listed]
      unfold orderedChildren openTreePage readTreePage readUnitKind readAuthenticatedExtent
      rw [reached]
    refine afterAttempt_ends (P := fun node => 0 < node.children.length) notLoaded ?_
    unfold fillExactValues Ends
    rw [run_bind (run_attempt sameShallow)]
    refine ends_bind ((fillOrderedPage_reached sameListed _).imp ?_ ?_)
    · intro _ after grown
      exact Nat.lt_of_lt_of_le (Nat.succ_pos _) grown
    · intro _ after grown
      exact Nat.lt_of_lt_of_le (Nat.succ_pos _) grown

/-- For a root above the leaves, the failed attempts have appended nothing to the root just when none
of them could read its page. -/
theorem afterAttempts_bare_iff {load : OrderedLoad} {root : MutableRoot}
    (committed : loadExactValues L format store reference = .ok (load, root))
    (inner : root.level ≠ 0) {attempts : List ExtentStore}
    (interrupts : ∀ attempt ∈ attempts, attempt.Interrupts store) :
    (afterAttempts L format reference {} attempts).cursorTree.Bare ↔
      ∀ attempt ∈ attempts, attempt reference = none := by
  have present : reference.null = false := by
    cases null : reference.null with
    | false => rfl
    | true =>
      rw [loadExactValues, shallowValidateOrderedRoot, null] at committed
      cases committed
      exact absurd rfl inner
  induction attempts with
  | nil => exact iff_of_true ⟨rfl, rfl⟩ (by simp)
  | cons attempt rest ih =>
    obtain ⟨first, others⟩ := List.forall_mem_cons.1 interrupts
    rw [afterAttempts, List.foldl_cons, List.forall_mem_cons]
    by_cases missing : attempt reference = none
    · rw [afterAttempt_missing present missing]
      exact (ih others).trans (and_iff_right missing).symm
    · have filled := @afterAttempt_reached _ _ _ _ _ _ present committed inner _
        ((first reference).resolve_left missing) {} rfl
      have kept := @afterAttempts_keeps L format reference (fun node => 0 < node.children.length)
        (fun next start some => (fillExactValues_grows reference start).imp
          (fun _ _ grows => some.trans_le grows.children)
          fun _ _ grows => some.trans_le grows.children) rest _ filled
      refine iff_of_false (fun bare => ?_) fun all => missing all.1
      rw [afterAttempts, bare.2] at kept
      exact Nat.lt_irrefl 0 kept

end LazyValues

end Attempts

/-! ## Two leaves, the second of which cannot be read at first -/

section TwoLeaves

variable {first second : Bytes} {store : ExtentStore}

/-- The reads of an attempt that does not get the second leaf. -/
def interruptedStore (first second : Bytes) : ExtentStore := fun reference =>
  if reference = pageReference 24 then none else slackStore [] first second reference

theorem interruptedStore_interrupts :
    (interruptedStore first second).Interrupts (slackStore [] first second) := by
  intro reference
  unfold interruptedStore
  by_cases missing : reference = pageReference 24
  · rw [if_pos missing]
    exact Or.inl rfl
  · rw [if_neg missing]
    exact Or.inr rfl

theorem inChild_error {α : Type} {program : Fill α} {error : LoadError} {index : Nat}
    {state after : FillState} {child : CursorNode}
    (isChild : state.node.children[index]? = some child)
    (ran : program { node := child, load := state.load } = .error error after) :
    inChild index program state = .error error (state.putChild index after) := by
  unfold inChild
  rw [isChild]
  dsimp only
  rw [ran]

/-- The load of a page that cannot be read. -/
theorem fillOrderedPage_missing {level : Nat} {L : Limits} {format : OpenedFormat}
    {reference : ExtentReference} (shallow : level ≤ maximumTreeLevel)
    (valid : validateOrderedPageReference L format reference = .ok ())
    (missing : store reference = none) (state : FillState) :
    fillOrderedPage L format store level reference state = .error .extent state := by
  have failed : readTreePage L format store orderedRole level reference = .error .extent := by
    rw [readTreePage, require_of shallow, ok_bind, valid, ok_bind, readUnitKind, missing]
    rfl
  have header : fillHeader L format store level reference state = .error .extent state := by
    unfold fillHeader
    rw [failed]
    rfl
  cases level with
  | zero =>
    exact run_bind_error header
  | succ level =>
    exact run_bind_error header

/-- The node that the interrupted attempt leaves. -/
def interruptedNode : CursorNode :=
  { reference := pageReference 28
    level := 1
    children := [{ reference := pageReference 20, minimumKey := [1], values := [leafItem 1] }, {}] }

theorem fillOrderedPage_interrupted (left : encodeLeafPage .default [leafItem 1] = some first)
    (load : OrderedLoad) (isNew : load.values.entries = []) :
    ∃ after, fillOrderedPage .default ⟨1, 2 ^ 20⟩ (interruptedStore first second) 1
        (pageReference 28) { node := {}, load } =
      .error .extent { node := interruptedNode, load := after } := by
  obtain ⟨⟨payload, header⟩, opened, decoded⟩ :=
    bind_eq_ok.1 (@orderedChildren_slack [] (by decide) (interruptedStore first second) rfl)
  have isChildren : pageChildren .default payload header = .ok _ := decoded
  obtain ⟨middle, low, -⟩ := @loadOrderedPage_single (interruptedStore first second) _ 20 _
    (by decide) (by decide) left rfl
    { load with reachable := load.reachable ++ [pageReference 28] } (by simp [isNew])
  have valid : validateOrderedPageReference .default ⟨1, 2 ^ 20⟩ (pageReference 24) = .ok () := by
    decide
  refine ⟨middle, ?_⟩
  unfold fillOrderedPage
  rw [run_bind (fillHeader_eq (openTreePage_eq_ok.1 opened) {} load)]
  dsimp only
  rw [run_bind (run_attempt isChildren), run_bind (run_modifyNode _ _ _)]
  refine run_bind_error ?_
  unfold fillSubtrees
  rw [run_bind (inChild_eq rfl (fillOrderedPage_eq low {})), run_bind (run_demand (by simp)),
    run_bind (run_demand (by simp))]
  refine run_bind_error ?_
  refine (run_bind_error (inChild_error rfl (fillOrderedPage_missing (by decide) valid rfl _))).trans ?_
  rfl

/-- The session that the interrupted attempt leaves. -/
theorem afterAttempt_interrupted (left : encodeLeafPage .default [leafItem 1] = some first)
    (right : encodeLeafPage .default [leafItem 2] = some second) :
    LazyValues.afterAttempts .default ⟨1, 2 ^ 20⟩ (pageReference 28) {}
      [interruptedStore first second] = { cursorTree := interruptedNode } := by
  have shallow : shallowValidateOrderedRoot .default ⟨1, 2 ^ 20⟩ (interruptedStore first second)
      (pageReference 28) = .ok (some 1) := by
    rw [← shallowValidateOrderedRoot_slack left right]
    rfl
  obtain ⟨after, stopped⟩ := @fillOrderedPage_interrupted first second left
    { values := Keyed.empty, reachable := [] } rfl
  have failed : fillExactValues .default ⟨1, 2 ^ 20⟩ (interruptedStore first second) (pageReference 28)
      { node := {}, load := { values := Keyed.empty, reachable := [] } } =
        .error .extent { node := interruptedNode, load := after } := by
    unfold fillExactValues
    rw [run_bind (run_attempt shallow)]
    exact run_bind_error stopped
  rw [LazyValues.afterAttempts, List.foldl_cons, List.foldl_nil]
  unfold LazyValues.afterAttempt LazyValues.ensureLoaded
  rw [if_neg (by decide), failed]

end TwoLeaves

/-! ## The tree behind some failed attempts -/

section Atomic

variable {L : Limits} {format : OpenedFormat} {store : ExtentStore} {reference : ExtentReference}

/-- Every cursor over the tree answers as a position in the list of the values of its range, and a
scan sees each value once, in order. -/
structure LazyValues.Scans (L : Limits) (session : LazyValues) : Prop where
  run : ∀ {liveCursors : Nat} {range : OrderedRange} {cursor : OrderedCursor},
    makeOrderedCursor L liveCursors session.cursorTree.root range = .ok cursor → ∀ calls,
      cursor.run L calls = ListCursor.run L
        { entries := session.values.entries.filter fun entry => decide (range.Contains entry.1) } calls
  scan : ∀ {liveCursors : Nat} {cursor : OrderedCursor},
    makeOrderedCursor L liveCursors session.cursorTree.root .all = .ok cursor →
      cursor.run L (.first :: List.replicate session.values.entries.length .next) =
        session.values.entries.map (fun entry => (.ok true, some entry)) ++ [(.ok false, none)]

theorem LazyValues.scans_of {session : LazyValues} (shaped : session.cursorTree.root.tree.Shaped)
    (pairs : session.cursorTree.root.tree.pairs = session.values.entries) : session.Scans L := by
  have run : ∀ {liveCursors : Nat} {range : OrderedRange} {cursor : OrderedCursor},
      makeOrderedCursor L liveCursors session.cursorTree.root range = .ok cursor → ∀ calls,
        cursor.run L calls = ListCursor.run L
          { entries := session.values.entries.filter fun entry => decide (range.Contains entry.1) }
          calls := by
    intro liveCursors range cursor made calls
    obtain ⟨isRoot, isNew, contains⟩ := makeOrderedCursor_eq_ok made
    rw [← isRoot] at shaped pairs
    rw [(OrderedCursor.refines_new shaped isNew).run_eq calls,
      OrderedCursor.entries_eq_filter shaped, pairs]
    simp only [contains]
  refine ⟨run, fun made => ?_⟩
  have all : session.values.entries.filter
      (fun entry => decide (OrderedRange.all.Contains entry.1)) = session.values.entries :=
    List.filter_eq_self.2 fun _ _ => rfl
  rw [run made, all, ListCursor.run_scan]

/-- The session behind a first load. -/
theorem LazyValues.scans_first {load : OrderedLoad} {root : MutableRoot}
    (committed : loadExactValues L format store reference = .ok (load, root))
    {session : LazyValues} (isValues : session.values = load.values)
    (isTree : session.cursorTree = root.tree.fillInto {}) (present : reference.null = false) :
    session.Scans L := by
  obtain ⟨-, bounds, below⟩ := loadExactValues_page present committed
  obtain ⟨facts, pairs⟩ := loadOrderedPage_sound below
  have isRoot : session.cursorTree.root = root := by
    rw [isTree, MutableTree.fillInto_new, CursorNode.root_asLoaded (loadTree_asLoaded below)]
  refine LazyValues.scans_of ?_ ?_
  · rw [isRoot]
    exact facts.shaped
  · rw [isRoot, isValues]
    exact pairs

/-- A load that returns behind loads that failed makes the tree of a first load, and its cursors visit
the values of the session, exactly when the failed loads have appended nothing to the root of
`cursorTree`. -/
theorem ensureValuesLoaded_atomic_iff {load : OrderedLoad} {root : MutableRoot}
    (committed : loadExactValues L format store reference = .ok (load, root))
    {attempts : List ExtentStore} {last : ExtentStore} (interrupts : last.Interrupts store)
    {session : LazyValues}
    (failed : (LazyValues.afterAttempts L format reference {} attempts).valuesLoaded = false)
    (returned : LazyValues.ensureLoaded L format last reference
      (LazyValues.afterAttempts L format reference {} attempts) = .ok () session) :
    ∃ first, LazyValues.ensureLoaded L format store reference {} = .ok () first ∧
      session.values = first.values ∧
      ((session.cursorTree = first.cursorTree ∧ session.Scans L) ↔
        (LazyValues.afterAttempts L format reference {} attempts).cursorTree.Bare) := by
  have whole := LazyValues.ensureLoaded_whole interrupts failed returned
  cases null : reference.null with
  | true =>
    have isNew := @LazyValues.afterAttempts_null L format reference null attempts
    rw [LazyValues.ensureLoaded_of failed (fillExactValues_null null _)] at whole
    cases whole
    refine ⟨_, LazyValues.ensureLoaded_of rfl (fillExactValues_null null _), rfl, ?_⟩
    rw [isNew]
    refine iff_of_true ⟨rfl, LazyValues.scans_of ?_ rfl⟩ ⟨rfl, rfl⟩
    exact ⟨List.Pairwise.nil, fun filled => absurd rfl filled⟩
  | false =>
    rw [LazyValues.ensureLoaded_of failed (fillExactValues_eq null committed _)] at whole
    cases whole
    refine ⟨_, LazyValues.ensureLoaded_of rfl (fillExactValues_eq null committed _), rfl, ?_⟩
    have clean := @LazyValues.afterAttempts_clean L format reference attempts
    rw [← root.tree.fillInto_eq_iff clean]
    constructor
    · intro atomic
      exact atomic.1
    · intro same
      exact ⟨same, LazyValues.scans_first committed rfl same null⟩

/-- A tree of two leaves whose root page cannot be read at first. -/
theorem ensureValuesLoaded_atomic_missing_root :
    ∃ (store attempt : ExtentStore) (session : LazyValues),
      LazyValues.ensureLoaded .default ⟨1, 2 ^ 20⟩ attempt (pageReference 28) {} =
        .error .extent {} ∧
      LazyValues.ensureLoaded .default ⟨1, 2 ^ 20⟩ store (pageReference 28)
        (LazyValues.afterAttempts .default ⟨1, 2 ^ 20⟩ (pageReference 28) {} [attempt]) =
          .ok () session ∧
      session.values.entries = [([1], []), ([2], [])] ∧ session.Scans .default := by
  obtain ⟨first, left⟩ := encodeLeafPage_single 1
  obtain ⟨second, right⟩ := encodeLeafPage_single 2
  obtain ⟨load, committed, entries⟩ := loadExactValues_slack left right
  let attempt : ExtentStore := fun _ => none
  have unchanged : LazyValues.afterAttempts .default ⟨1, 2 ^ 20⟩ (pageReference 28) {} [attempt] =
      {} := by
    rw [LazyValues.afterAttempts, List.foldl_cons, List.foldl_nil]
    exact LazyValues.afterAttempt_missing rfl rfl {}
  have returned := @LazyValues.ensureLoaded_of _ _ _ _ {} _ rfl (fillExactValues_eq rfl committed {})
  rw [← unchanged] at returned
  refine ⟨_, attempt, _, rfl, returned, entries, ?_⟩
  obtain ⟨whole, -, -, atomic⟩ := ensureValuesLoaded_atomic_iff committed (fun _ => Or.inr rfl)
    (by rw [unchanged]) returned
  refine (atomic.2 ((LazyValues.afterAttempts_bare_iff committed one_ne_zero ?_).2 ?_)).2
  · intro attempt member
    obtain rfl := List.mem_singleton.1 member
    exact fun _ => Or.inl rfl
  · simp [attempt]

/-- The first load does not get the second leaf.  The next one appends to what it has left, and a
cursor visits the first key twice. -/
theorem ensureValuesLoaded_duplicates :
    ∃ (store attempt : ExtentStore) (load : OrderedLoad) (root : MutableRoot) (session : LazyValues)
      (cursor : OrderedCursor),
      loadExactValues .default ⟨1, 2 ^ 20⟩ store (pageReference 28) = .ok (load, root) ∧
      attempt.Interrupts store ∧
      (LazyValues.afterAttempts .default ⟨1, 2 ^ 20⟩ (pageReference 28) {} [attempt]).valuesLoaded =
        false ∧
      LazyValues.ensureLoaded .default ⟨1, 2 ^ 20⟩ store (pageReference 28)
        (LazyValues.afterAttempts .default ⟨1, 2 ^ 20⟩ (pageReference 28) {} [attempt]) =
          .ok () session ∧
      session.values.entries = [([1], []), ([2], [])] ∧
      session.cursorTree.children.map CursorNode.values =
        [[leafItem 1, leafItem 1], [leafItem 2], [], []] ∧
      makeOrderedCursor .default 0 session.cursorTree.root .all = .ok cursor ∧
      cursor.run .default [.first, .next, .next, .next] =
        [(.ok true, some ([1], [])), (.ok true, some ([1], [])), (.ok true, some ([2], [])),
          (.ok false, none)] := by
  obtain ⟨first, left⟩ := encodeLeafPage_single 1
  obtain ⟨second, right⟩ := encodeLeafPage_single 2
  obtain ⟨load, committed, entries⟩ := loadExactValues_slack left right
  have between := afterAttempt_interrupted left right
  have returned := @LazyValues.ensureLoaded_of _ _ _ _ { cursorTree := interruptedNode } _ rfl
    (fillExactValues_eq rfl committed interruptedNode)
  have visible : ((⟨1, slackTree⟩ : MutableRoot).tree.fillInto interruptedNode).children.map
      CursorNode.values = [[leafItem 1, leafItem 1], [leafItem 2], [], []] := by
    decide
  have made : makeOrderedCursor .default 0
      ((⟨1, slackTree⟩ : MutableRoot).tree.fillInto interruptedNode).root .all = .ok _ := rfl
  refine ⟨slackStore [] first second, interruptedStore first second, load, _, _, _, committed,
    interruptedStore_interrupts, ?_, by rw [between]; exact returned, entries, visible, made, ?_⟩
  · rw [between]
  · decide

end Atomic

end Miare
