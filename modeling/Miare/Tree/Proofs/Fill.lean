import Miare.Cursor.Proofs.Range
import Miare.Tree.Fill
import Miare.Tree.Proofs.LoadSound

/-!
# Repeated lazy loads

A load that is interrupted leaves what it has filled in; the next one fills the same nodes again.
So the tree behind some attempts is that of a first load exactly when the attempts before left the
root without values and children.
-/

namespace Miare

open Misc

/-! ## Interrupted reads -/

/-- The attempt gets an extent as the store has it, or not at all. -/
def ExtentStore.Interrupts (attempt store : ExtentStore) : Prop :=
  ∀ reference, attempt reference = none ∨ attempt reference = store reference

section Interrupted

variable {L : Limits} {format : OpenedFormat} {attempt store : ExtentStore}
  {reference : ExtentReference}

section Interrupts

variable (interrupts : attempt.Interrupts store)

include interrupts

theorem readUnitKind_stopped :
    StoppedAt .extent (readUnitKind attempt reference) (readUnitKind store reference) := by
  unfold readUnitKind
  rcases interrupts reference with missing | same
  · rw [missing]
    exact Or.inr rfl
  · rw [same]
    exact .refl _

theorem readAuthenticatedExtent_stopped (context : ExtentContext) (expected : Option Nat) :
    StoppedAt .extent (readAuthenticatedExtent L format attempt reference context expected)
      (readAuthenticatedExtent L format store reference context expected) := by
  refine .bind (.refl _) fun _ => .bind (.refl _) fun _ => .bind (.refl _) fun _ =>
    .bind (.refl _) fun _ => ?_
  rcases interrupts reference with missing | same
  · rw [missing]
    exact Or.inr rfl
  · rw [same]
    exact .refl _

theorem readTreePage_stopped (T : TreeRole) (level : Nat) :
    StoppedAt .extent (readTreePage L format attempt T level reference)
      (readTreePage L format store T level reference) := by
  refine .bind (.refl _) fun _ => .bind (.refl _) fun _ =>
    .bind (readUnitKind_stopped interrupts) fun _ => .bind (.refl _) fun _ => ?_
  exact .bind (readAuthenticatedExtent_stopped interrupts _ _) fun _ => .refl _

theorem decodeLeafEntry_stopped (shared : Bytes) (previous : Option Bytes) (entry : Bytes) :
    StoppedAt .extent (decodeLeafEntry L format attempt shared previous entry)
      (decodeLeafEntry L format store shared previous entry) := by
  refine .bind (.refl _) fun key => .bind (.refl _) fun representation => .bind (.refl _) fun _ =>
    .bind (.refl _) fun valueLength => .bind (.refl _) fun _ => ?_
  by_cases overflow : representation.headD 0 = 1
  · simp only [overflow, if_true]
    refine .bind (.refl _) fun bytes => ?_
    exact .bind (readAuthenticatedExtent_stopped interrupts _ _) fun _ => .refl _
  · simp only [overflow, if_false]
    exact .refl _

theorem shallowValidateOrderedRoot_stopped :
    StoppedAt .extent (shallowValidateOrderedRoot L format attempt reference)
      (shallowValidateOrderedRoot L format store reference) := by
  unfold shallowValidateOrderedRoot
  by_cases null : reference.null
  · rw [if_pos null, if_pos null]
    exact .refl _
  · rw [if_neg null, if_neg null]
    refine .bind (.refl _) fun _ => .bind (readUnitKind_stopped interrupts) fun _ =>
      .bind (.refl _) fun _ => ?_
    exact .bind (readAuthenticatedExtent_stopped interrupts _ _) fun _ => .refl _

theorem fillHeader_interrupts (level : Nat) :
    Interrupts .extent (fillHeader L format attempt level reference)
      (fillHeader L format store level reference) := by
  exact .bind (.attempt (readTreePage_stopped interrupts _ _)) fun _ => .refl _

theorem fillSlots_interrupts (shared payload : Bytes) (usedLength count slot expectedEntry : Nat)
    (items : List MutableTreeValue) :
    Interrupts .extent
      (fillSlots L format attempt shared payload usedLength count slot expectedEntry items)
      (fillSlots L format store shared payload usedLength count slot expectedEntry items) := by
  induction count generalizing slot expectedEntry items with
  | zero => exact .refl _
  | succ count ih =>
    refine .bind (.refl _) fun _ => .bind (.refl _) fun entryLength => .bind (.refl _) fun _ =>
      .bind (.refl _) fun entry => .bind ?_ fun items => ih _ _ items
    exact .bind (.attempt (decodeLeafEntry_stopped interrupts _ _ _)) fun _ => .refl _

end Interrupts

theorem inChild_interrupts {α : Type} {program other : Fill α}
    (interrupts : Interrupts .extent program other) (index : Nat) :
    Interrupts .extent (inChild index program) (inChild index other) := by
  intro state
  unfold inChild
  cases state.node.children[index]? with
  | none => exact Or.inl rfl
  | some child =>
    dsimp only
    rcases interrupts { node := child, load := state.load } with same | ⟨after, stopped⟩
    · rw [same]
      exact Or.inl rfl
    · rw [stopped]
      exact Or.inr ⟨_, rfl⟩

theorem fillSubtrees_interrupts {fill other : ExtentReference → Fill PageBounds}
    (interrupts : ∀ child, Interrupts .extent (fill child) (other child)) (index : Nat)
    (maximum : Option Bytes) (children : List (Bytes × ExtentReference)) :
    Interrupts .extent (fillSubtrees fill index maximum children)
      (fillSubtrees other index maximum children) := by
  induction children generalizing index maximum with
  | nil => exact .refl _
  | cons child rest ih =>
    refine .bind (inChild_interrupts (interrupts _) _) fun bounds => .bind (.refl _) fun _ =>
      .bind (.refl _) fun _ => ?_
    exact .bind (ih _ _) fun _ => .refl _

theorem fillOrderedPage_interrupts (interrupts : attempt.Interrupts store) (level : Nat)
    (reference : ExtentReference) :
    Interrupts .extent (fillOrderedPage L format attempt level reference)
      (fillOrderedPage L format store level reference) := by
  induction level generalizing reference with
  | zero =>
    refine .bind (fillHeader_interrupts interrupts _) fun page => ?_
    exact .bind (fillSlots_interrupts interrupts _ _ _ _ _ _ _) fun _ => .refl _
  | succ level ih =>
    refine .bind (fillHeader_interrupts interrupts _) fun page => .bind (.refl _) fun children =>
      .bind (.refl _) fun _ => ?_
    exact .bind (fillSubtrees_interrupts ih _ _ _) fun _ => .refl _

theorem fillExactValues_interrupts (interrupts : attempt.Interrupts store)
    (reference : ExtentReference) :
    Interrupts .extent (fillExactValues L format attempt reference)
      (fillExactValues L format store reference) := by
  refine .bind (.attempt (shallowValidateOrderedRoot_stopped interrupts)) fun root => ?_
  cases root with
  | none => exact .refl _
  | some level => exact .bind (fillOrderedPage_interrupts interrupts level reference) fun _ => .refl _

end Interrupted

/-! ## What a load adds -/

/-- A load takes nothing out of the node that it fills. -/
structure FillState.Grows (before after : FillState) : Prop where
  values : before.node.values.length ≤ after.node.values.length
  children : before.node.children.length ≤ after.node.children.length
  dirty : after.node.dirty = before.node.dirty

instance fillGrows_refl : Std.Refl FillState.Grows := ⟨fun _ => ⟨le_rfl, le_rfl, rfl⟩⟩

instance fillGrows_trans : IsTrans FillState FillState.Grows :=
  ⟨fun _ _ _ first second => ⟨first.values.trans second.values,
    first.children.trans second.children, second.dirty.trans first.dirty⟩⟩

section Grows

variable {L : Limits} {format : OpenedFormat} {store : ExtentStore}

theorem fillHeader_grows (level : Nat) (reference : ExtentReference) :
    Moves FillState.Grows (fillHeader L format store level reference) := by
  refine .bind (.attempt _) fun page => .bind (.modify ?_) fun _ => .bind (.demand _ _) fun _ =>
    .bind (.demand _ _) fun _ => .bind (.modify ?_) fun _ => .pure _
  · intro state
    exact ⟨le_rfl, le_rfl, rfl⟩
  · intro state
    exact ⟨le_rfl, le_rfl, rfl⟩

theorem fillEntry_grows (shared : Bytes) (items : List MutableTreeValue) (entry : Bytes) :
    Moves FillState.Grows (fillEntry L format store shared items entry) := by
  refine .bind (.attempt _) fun item => .bind (.modify ?_) fun _ => .bind .get fun _ =>
    .bind (.attempt _) fun _ => .bind (.modify ?_) fun _ => .pure _
  · intro state
    exact ⟨by simp, le_rfl, rfl⟩
  · intro state
    exact ⟨le_rfl, le_rfl, rfl⟩

theorem fillSlots_grows (shared payload : Bytes) (usedLength count slot expectedEntry : Nat)
    (items : List MutableTreeValue) :
    Moves FillState.Grows
      (fillSlots L format store shared payload usedLength count slot expectedEntry items) := by
  induction count generalizing slot expectedEntry items with
  | zero => exact .pure _
  | succ count ih =>
    refine .bind (.attempt _) fun _ => .bind (.attempt _) fun _ => .bind (.demand _ _) fun _ =>
      .bind (.attempt _) fun _ => .bind (fillEntry_grows _ _ _) fun items => ih _ _ items

theorem inChild_grows {α : Type} (index : Nat) (program : Fill α) :
    Moves FillState.Grows (inChild index program) := by
  intro state
  refine .of ?_ ?_
  · intro value after ran
    unfold inChild at ran
    split at ran
    · cases ran
    · split at ran
      · cases ran
        exact ⟨le_rfl, by simp [FillState.putChild], rfl⟩
      · cases ran
  · intro error after ran
    unfold inChild at ran
    split at ran
    · cases ran
      exact ⟨le_rfl, le_rfl, rfl⟩
    · split at ran
      · cases ran
      · cases ran
        exact ⟨le_rfl, by simp [FillState.putChild], rfl⟩

theorem fillSubtrees_grows (fill : ExtentReference → Fill PageBounds) (index : Nat)
    (maximum : Option Bytes) (children : List (Bytes × ExtentReference)) :
    Moves FillState.Grows (fillSubtrees fill index maximum children) := by
  induction children generalizing index maximum with
  | nil => exact .pure _
  | cons child rest ih =>
    refine .bind (inChild_grows _ _) fun bounds => .bind (.demand _ _) fun _ =>
      .bind (.demand _ _) fun _ => ?_
    exact .bind (ih _ _) fun _ => .pure _

theorem fillOrderedPage_grows (level : Nat) (reference : ExtentReference) :
    Moves FillState.Grows (fillOrderedPage L format store level reference) := by
  cases level with
  | zero =>
    refine .bind (fillHeader_grows _ _) fun page => .bind (fillSlots_grows _ _ _ _ _ _ _) fun _ =>
      .bind (.demand _ _) fun _ => .bind (.modify ?_) fun _ => .pure _
    intro state
    exact ⟨le_rfl, le_rfl, rfl⟩
  | succ level =>
    refine .bind (fillHeader_grows _ _) fun page => .bind (.attempt _) fun children =>
      .bind (.modify ?_) fun _ => .bind (fillSubtrees_grows _ _ _ _) fun _ =>
      .bind (.modify ?_) fun _ => .pure _
    · intro state
      exact ⟨le_rfl, by simp, rfl⟩
    · intro state
      exact ⟨le_rfl, le_rfl, rfl⟩

theorem fillExactValues_grows (reference : ExtentReference) :
    Moves FillState.Grows (fillExactValues L format store reference) := by
  refine .bind (.attempt _) fun root => ?_
  cases root with
  | none => exact .pure _
  | some level => exact .bind (fillOrderedPage_grows level reference) fun _ => .pure _

end Grows

/-! ## What a whole load fills in -/

/-- Fill the first nodes with the items. -/
def fillFirst {α : Type} (fill : α → CursorNode → CursorNode) :
    List α → List CursorNode → List CursorNode
  | item :: items, node :: nodes => fill item node :: fillFirst fill items nodes
  | _, nodes => nodes

theorem fillFirst_length {α : Type} (fill : α → CursorNode → CursorNode) (items : List α)
    (nodes : List CursorNode) : (fillFirst fill items nodes).length = nodes.length := by
  induction items generalizing nodes with
  | nil => rfl
  | cons item items ih =>
    cases nodes with
    | nil => rfl
    | cons node nodes =>
      rw [fillFirst, List.length_cons, List.length_cons, ih]

/-- The node behind the loading of a tree into it. -/
def MutableTree.fillInto : {level : Nat} → MutableTree level → CursorNode → CursorNode
  | 0, tree, node =>
    let leaf : MutableNode MutableTreeValue := tree
    { node with
      reference := leaf.reference
      minimumKey := leaf.minimumKey
      level := 0
      values := node.values ++ leaf.items }
  | level + 1, tree, node =>
    let inner : MutableNode (MutableTree level) := tree
    { node with
      reference := inner.reference
      minimumKey := inner.minimumKey
      level := level + 1
      children := fillFirst MutableTree.fillInto inner.items
        (node.children ++ List.replicate inner.items.length {}) }

/-- The node of a tree that was loaded at once. -/
def MutableTree.asLoaded : {level : Nat} → MutableTree level → CursorNode
  | 0, tree =>
    let leaf : MutableNode MutableTreeValue := tree
    { reference := leaf.reference, minimumKey := leaf.minimumKey, values := leaf.items }
  | level + 1, tree =>
    let inner : MutableNode (MutableTree level) := tree
    { reference := inner.reference
      minimumKey := inner.minimumKey
      level := level + 1
      children := inner.items.map MutableTree.asLoaded }

/-- A first load fills in the tree. -/
theorem MutableTree.fillInto_new {level : Nat} (tree : MutableTree level) :
    tree.fillInto {} = tree.asLoaded := by
  induction level with
  | zero => rfl
  | succ level ih =>
    have all (items : List (MutableTree level)) :
        fillFirst MutableTree.fillInto items (List.replicate items.length {}) =
          items.map MutableTree.asLoaded := by
      induction items with
      | nil => rfl
      | cons item items step =>
        rw [List.length_cons, List.replicate_succ, fillFirst, step, ih, List.map_cons]
    let inner : MutableNode (MutableTree level) := tree
    change ({ reference := inner.reference, minimumKey := inner.minimumKey, level := level + 1
              children := fillFirst MutableTree.fillInto inner.items
                ([] ++ List.replicate inner.items.length {}) } : CursorNode) = _
    rw [List.nil_append, all]
    rfl

section Whole

variable {L : Limits} {format : OpenedFormat} {store : ExtentStore} {reference : ExtentReference}

theorem run_modifyNode (change : CursorNode → CursorNode) (node : CursorNode) (load : OrderedLoad) :
    modifyNode change { node, load } = .ok () { node := change node, load } := rfl

theorem fillHeader_eq {level : Nat} {payload : Bytes} {header : PageHeader}
    (opened : OpenedPage L format store orderedRole level reference payload header)
    (node : CursorNode) (load : OrderedLoad) :
    fillHeader L format store level reference { node, load } =
      .ok (payload, header) { node := { node with reference, level }
                              load := { load with reachable := load.reachable ++ [reference] } } := by
  obtain ⟨kind, known, read, accepted⟩ := opened.read
  have isKind : readUnitKind store reference = .ok kind := by
    rw [readUnitKind, read.stored]
  have page : readTreePage L format store orderedRole level reference = .ok (kind, payload) := by
    unfold readTreePage
    rw [require_of opened.shallow, ok_bind, opened.reference_ok, ok_bind, isKind, ok_bind,
      require_of known, ok_bind, readAuthenticatedExtent_eq_ok.2 read, ok_bind]
    rfl
  have isLevel : header.level = level := accepted.2.2.2.2.2.2.1
  have bounded := opened.bounded
  have isHeader := opened.is_header
  subst isHeader
  unfold fillHeader
  rw [run_bind (run_attempt page)]
  dsimp only
  rw [run_bind (run_modifyNode _ node load), run_bind (run_demand accepted),
    run_bind (run_demand bounded), run_bind (run_modify _ _), ← isLevel]
  rfl

theorem fillEntry_eq {shared entry : Bytes} {items : List MutableTreeValue} {item : MutableTreeValue}
    {load next : OrderedLoad}
    (decoded : decodeLeafEntry L format store shared (previousKey MutableTreeValue.key items) entry =
      .ok item) (emplaced : load.emplace item = .ok next) (node : CursorNode) :
    fillEntry L format store shared items entry { node, load } =
      .ok (items ++ [item]) { node := { node with values := node.values ++ [item] }, load := next } := by
  unfold fillEntry
  rw [run_bind (run_attempt decoded), run_bind (run_modifyNode _ node load), run_bind (run_get _),
    run_bind (run_attempt emplaced), run_bind (run_modify _ _)]
  rfl

theorem fillSlots_eq {shared payload : Bytes} {usedLength count slot position stop : Nat}
    {items last : List MutableTreeValue} {load next : OrderedLoad}
    (walked : walkSlots "ordered page slot is invalid" 20 payload usedLength
      (orderedLeafStep L format store shared) count slot position (items, load) =
        .ok ((last, next), stop)) (node : CursorNode) :
    ∃ added, last = items ++ added ∧
      fillSlots L format store shared payload usedLength count slot position items { node, load } =
        .ok (last, stop) { node := { node with values := node.values ++ added }, load := next } := by
  induction count generalizing slot position items load node with
  | zero =>
    cases walked
    refine ⟨[], (List.append_nil _).symm, ?_⟩
    rw [List.append_nil]
    -- A nested structure has no definitional eta.
    cases node
    rfl
  | succ count ih =>
    obtain ⟨length, entry, ⟨further, after⟩, named, stepped, walked⟩ := walkSlots_succ.1 walked
    obtain ⟨item, decoded, emplaced, isFurther⟩ := orderedLeafStep_eq_ok.1 stepped
    obtain ⟨added, isLast, filled⟩ := ih walked { node with values := node.values ++ [item] }
    subst isFurther
    refine ⟨item :: added, by rw [isLast, List.append_assoc]; rfl, ?_⟩
    unfold fillSlots
    rw [run_bind (run_attempt named.offset), run_bind (run_attempt named.sized),
      run_bind (run_demand named.accepted), run_bind (run_attempt named.viewed),
      run_bind (fillEntry_eq decoded emplaced node), filled]
    rw [List.append_assoc]
    rfl

theorem inChild_eq {α : Type} {program : Fill α} {value : α} {index : Nat} {state after : FillState}
    {child : CursorNode} (isChild : state.node.children[index]? = some child)
    (ran : program { node := child, load := state.load } = .ok value after) :
    inChild index program state = .ok value (state.putChild index after) := by
  unfold inChild
  rw [isChild]
  dsimp only
  rw [ran]

/-- The children behind the first `front` are filled one by one. -/
theorem fillSubtrees_eq {level : Nat}
    (fills : ∀ {child load tree bounds next},
      loadOrderedPage L format store level child load = .ok (tree, bounds, next) → ∀ node,
        fillOrderedPage L format store level child { node, load } =
          .ok bounds { node := tree.fillInto node, load := next })
    {children : List (Bytes × ExtentReference)} {maximum : Option Bytes} {load next : OrderedLoad}
    {subtrees : List (MutableTree level × PageBounds)}
    (loaded : loadSubtrees (orderedLoader L format store) (loadOrderedPage L format store level)
      maximum children load = .ok (subtrees, next))
    (node : CursorNode) (front nodes : List CursorNode) (enough : children.length ≤ nodes.length) :
    fillSubtrees (fillOrderedPage L format store level) front.length maximum children
        { node := { node with children := front ++ nodes }, load } =
      .ok (subtrees.map Prod.snd)
        { node := { node with
            children := front ++ fillFirst MutableTree.fillInto (subtrees.map Prod.fst) nodes }
          load := next } := by
  induction children generalizing maximum load subtrees front nodes with
  | nil =>
    cases loaded
    rfl
  | cons child rest ih =>
    obtain ⟨separator, below⟩ := child
    rw [loadSubtrees] at loaded
    obtain ⟨⟨tree, bounds, after⟩, first, loaded⟩ := bind_eq_ok.1 loaded
    obtain ⟨separated, loaded⟩ := require_bind_eq_ok.1 loaded
    obtain ⟨ordered, loaded⟩ := require_bind_eq_ok.1 loaded
    change ∀ last ∈ maximum, unsignedBytesLess last bounds.minimum at ordered
    obtain ⟨⟨others, last⟩, remaining, loaded⟩ := bind_eq_ok.1 loaded
    cases loaded
    cases nodes with
    | nil => simp at enough
    | cons place nodes =>
      have isPlace : (front ++ place :: nodes)[front.length]? = some place := by simp
      have step := ih remaining (front ++ [tree.fillInto place]) nodes (by simpa using enough)
      rw [List.length_append, List.length_singleton, List.append_assoc, List.append_assoc,
        List.singleton_append, List.singleton_append] at step
      unfold fillSubtrees
      rw [run_bind (inChild_eq isPlace (fills first place)), run_bind (run_demand separated),
        run_bind (run_demand ordered)]
      unfold FillState.putChild
      rw [List.set_append_right _ _ le_rfl, Nat.sub_self, List.set_cons_zero, run_bind step]
      rfl

theorem joinBounds_eq {τ : Type} (subtrees : List (τ × PageBounds)) :
    joinBounds (subtrees.map Prod.snd) = subtreeBounds subtrees := by
  unfold joinBounds subtreeBounds
  rw [List.head?_map, List.getLast?_map, Option.map_map, Option.map_map]
  rfl

/-- What a load gives is what it fills in, on top of what stands there. -/
theorem fillOrderedPage_eq {level : Nat} {load next : OrderedLoad} {tree : MutableTree level}
    {bounds : PageBounds}
    (loaded : loadOrderedPage L format store level reference load = .ok (tree, bounds, next))
    (node : CursorNode) :
    fillOrderedPage L format store level reference { node, load } =
      .ok bounds { node := tree.fillInto node, load := next } := by
  induction level generalizing reference load next bounds node with
  | zero =>
    rw [loadOrderedPage, loadTree] at loaded
    obtain ⟨⟨values, after⟩, leaf, loaded⟩ := bind_eq_ok.1 loaded
    cases loaded
    change loadOrderedLeaf L format store reference load = .ok (values, next) at leaf
    obtain ⟨⟨payload, header⟩, opened, leaf⟩ := bind_eq_ok.1 leaf
    obtain ⟨⟨⟨items, last⟩, stop⟩, walked, leaf⟩ := bind_eq_ok.1 leaf
    obtain ⟨canonical, leaf⟩ := require_bind_eq_ok.1 leaf
    cases leaf
    obtain ⟨added, isLast, filled⟩ :=
      fillSlots_eq walked { node with reference := reference, level := 0 }
    rw [List.nil_append] at isLast
    subst isLast
    unfold fillOrderedPage
    rw [run_bind (fillHeader_eq (openTreePage_eq_ok.1 opened) node load)]
    dsimp only
    rw [run_bind filled]
    rw [run_bind (run_demand canonical), run_bind (run_modifyNode _ _ _)]
    rfl
  | succ level ih =>
    rw [loadOrderedPage, loadTree] at loaded
    obtain ⟨⟨children, after⟩, inner, loaded⟩ := bind_eq_ok.1 loaded
    obtain ⟨⟨subtrees, last⟩, below, loaded⟩ := bind_eq_ok.1 loaded
    cases loaded
    change loadOrderedInner L format store (level + 1) reference load = .ok (children, after) at inner
    obtain ⟨listed, page, isState⟩ := bind_eq_ok.1 inner
    obtain ⟨⟨payload, header⟩, opened, decoded⟩ := bind_eq_ok.1 page
    cases isState
    have isChildren : pageChildren L payload header = .ok children := decoded
    have filled := fillSubtrees_eq (fun first place => ih first place) below
      { node with reference := reference, level := level + 1 } []
      (node.children ++ List.replicate children.length ({} : CursorNode))
      (by rw [List.length_append, List.length_replicate]; omega)
    rw [List.length_nil, List.nil_append, List.nil_append] at filled
    unfold fillOrderedPage
    rw [run_bind (fillHeader_eq (openTreePage_eq_ok.1 opened) node load)]
    dsimp only
    rw [run_bind (run_attempt isChildren), run_bind (run_modifyNode _ _ _)]
    rw [run_bind filled, run_bind (run_modifyNode _ _ _), joinBounds_eq]
    have sameLength : (subtrees.map Prod.fst).length = children.length := by
      rw [List.length_map]
      exact loadSubtrees_length below
    rw [← sameLength]
    rfl

end Whole

end Miare
