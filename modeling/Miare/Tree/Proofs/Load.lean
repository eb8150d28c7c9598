import Miare.Tree.Load
import Miare.Tree.Proofs.Shape

/-!
# What a loader accepts

A tree that loads is well formed and stands for its pages; and pages that hold a tree load.
-/

namespace Miare

open Misc

variable {entries : List (Bytes × Bytes)} {children : List (Bytes × ExtentReference)} {level : Nat}
  {reference : ExtentReference} {tree : MutableTree level}

/-- What the two page parsers of a loader do, in terms of the pages of a store.  `r` is the order
of the keys; `collected` is the part of the loader's state that gathers the entries;
`gathers before entries after` says that just these entries came to it. -/
structure LoaderSpec {σ : Type} (loader : TreeLoader σ) (r : Bytes → Bytes → Prop)
    (pages : Pages Bytes ExtentReference (Bytes × Bytes)) (good : MutableTreeValue → Prop)
    (collected : σ → List (Bytes × Bytes)) (gathers : σ → List (Bytes × Bytes) → σ → Prop) :
    Prop where
  gathers_nil : ∀ state, gathers state [] state
  gathers_append : ∀ {first second third front back}, gathers first front second →
    gathers second back third → gathers first (front ++ back) third
  less : ∀ left right, loader.keyLess left right = true ↔ r left right
  trans : ∀ {a b c}, r a b → r b c → r a c
  leaf_sound : ∀ {reference state values next},
    loader.leafPage reference state = .ok (values, next) →
      pages.leaf reference (values.map MutableTreeValue.pair) ∧ values ≠ [] ∧
        (values.Pairwise fun a b => r a.key b.key) ∧ (∀ item ∈ values, good item) ∧
        gathers state (values.map MutableTreeValue.pair) next
  leaf_complete : ∀ {reference state entries}, pages.leaf reference entries →
    (entries.Pairwise fun a b => r a.1 b.1) →
    (∀ before ∈ collected state, ∀ entry ∈ entries, r before.1 entry.1) →
      ∃ values next, loader.leafPage reference state = .ok (values, next) ∧
        values.map MutableTreeValue.pair = entries ∧
        collected next = collected state ++ entries
  inner_sound : ∀ {level reference state children next},
    loader.innerPage level reference state = .ok (children, next) →
      pages.inner level reference children ∧ children ≠ [] ∧ gathers state [] next
  inner_complete : ∀ {level reference state children}, pages.inner level reference children →
    ∃ next, loader.innerPage level reference state = .ok (children, next) ∧
      collected next = collected state

/-! ## Bounds -/

theorem keyBounds_pairs (values : List MutableTreeValue) :
    keyBounds ((values.map MutableTreeValue.pair).map Prod.fst) =
      keyBounds (values.map MutableTreeValue.key) := by
  rw [List.map_map]
  rfl

theorem keyBounds_minimum (values : List MutableTreeValue) :
    (keyBounds (values.map MutableTreeValue.key)).minimum = valuesMinimum values := by
  cases values <;> rfl

theorem keyBounds_minimum_of_firstKey {first : Bytes}
    (isFirst : firstKey Prod.fst entries = some first) :
    (keyBounds (entries.map Prod.fst)).minimum = first := by
  cases entries with
  | nil => cases isFirst
  | cons entry rest => exact Option.some.inj isFirst

/-- Every key is the maximum or before it. -/
theorem rel_keyBounds_maximum {r : Bytes → Bytes → Prop} {entry : Bytes × Bytes}
    (ordered : entries.Pairwise fun a b => r a.1 b.1) (member : entry ∈ entries) :
    Relation.ReflGen r entry.1 (keyBounds (entries.map Prod.fst)).maximum := by
  have sorted : (entries.map Prod.fst).Pairwise (Relation.ReflGen r) :=
    List.pairwise_map.2 (ordered.imp fun less => .single less)
  have inKeys : entry.1 ∈ entries.map Prod.fst := List.mem_map_of_mem member
  have nonempty := List.ne_nil_of_mem inKeys
  rw [keyBounds, List.getLastD_eq_getLast?, List.getLast?_eq_some_getLast nonempty,
    Option.getD_some]
  exact sorted.rel_getLast inKeys

theorem keyBounds_maximum_mem (nonempty : entries ≠ []) :
    ∃ entry ∈ entries, entry.1 = (keyBounds (entries.map Prod.fst)).maximum := by
  have some : entries.map Prod.fst ≠ [] := by simpa using nonempty
  have member := List.getLast_mem some
  obtain ⟨entry, inEntries, isLast⟩ := List.mem_map.1 member
  refine ⟨entry, inEntries, ?_⟩
  rw [keyBounds, List.getLastD_eq_getLast?, List.getLast?_eq_some_getLast some, Option.getD_some,
    isLast]

/-- Bounds of adjacent blocks. -/
theorem keyBounds_append {left right : List Bytes} (first : left ≠ []) (last : right ≠ []) :
    keyBounds (left ++ right) = ⟨(keyBounds left).minimum, (keyBounds right).maximum⟩ := by
  obtain ⟨head, tail, rfl⟩ := List.exists_cons_of_ne_nil first
  unfold keyBounds
  rw [List.getLastD_eq_getLast?, List.getLast?_append_of_ne_nil _ last,
    ← List.getLastD_eq_getLast?]
  rfl

/-- The bounds of the children are the bounds of all their entries. -/
theorem subtreeBounds_eq {τ : Type} {subtrees : List (τ × PageBounds)}
    {blocks : List (List (Bytes × Bytes))} (some : blocks ≠ [])
    (nonempty : ∀ block ∈ blocks, block ≠ [])
    (bounds : subtrees.map Prod.snd = blocks.map fun block => keyBounds (block.map Prod.fst)) :
    subtreeBounds subtrees = keyBounds (blocks.flatten.map Prod.fst) := by
  have first : (subtreeBounds subtrees).minimum =
      ((subtrees.map Prod.snd).head?.map PageBounds.minimum).getD [] := by
    rw [List.head?_map, Option.map_map]
    rfl
  have last : (subtreeBounds subtrees).maximum =
      ((subtrees.map Prod.snd).getLast?.map PageBounds.maximum).getD [] := by
    rw [List.getLast?_map, Option.map_map]
    rfl
  have both : subtreeBounds subtrees =
      ⟨((subtrees.map Prod.snd).head?.map PageBounds.minimum).getD [],
        ((subtrees.map Prod.snd).getLast?.map PageBounds.maximum).getD []⟩ := by
    rw [← first, ← last]
  rw [both, bounds]
  clear both first last bounds
  induction blocks with
  | nil => exact absurd rfl some
  | cons block rest ih =>
    have filled := nonempty block List.mem_cons_self
    have keys : block.map Prod.fst ≠ [] := by simpa using filled
    cases rest with
    | nil => simp
    | cons next rest =>
      have inner := ih (List.cons_ne_nil _ _)
        fun other member => nonempty other (List.mem_cons_of_mem _ member)
      have behind : ((next :: rest).flatten.map Prod.fst) ≠ [] := by
        have := nonempty next (List.mem_cons_of_mem _ List.mem_cons_self)
        simp [this]
      rw [List.flatten_cons, List.map_append, keyBounds_append keys behind, ← inner]
      simp

section Loader

variable {σ : Type} {loader : TreeLoader σ} {r : Bytes → Bytes → Prop}
  {pages : Pages Bytes ExtentReference (Bytes × Bytes)} {good : MutableTreeValue → Prop}
  {collected : σ → List (Bytes × Bytes)} {gathers : σ → List (Bytes × Bytes) → σ → Prop}

/-! ## Pages that hold a tree load -/

/-- There is one subtree for each child. -/
theorem loadSubtrees_length {τ : Type}
    {load : ExtentReference → σ → Except LoadError (τ × PageBounds × σ)} {maximum : Option Bytes}
    {state next : σ} {subtrees : List (τ × PageBounds)}
    (loaded : loadSubtrees loader load maximum children state = .ok (subtrees, next)) :
    subtrees.length = children.length := by
  induction children generalizing maximum state subtrees with
  | nil =>
    cases loaded
    rfl
  | cons child rest ih =>
    rw [loadSubtrees] at loaded
    obtain ⟨⟨tree, bounds, after⟩, -, loaded⟩ := bind_eq_ok.1 loaded
    obtain ⟨-, loaded⟩ := require_bind_eq_ok.1 loaded
    obtain ⟨-, loaded⟩ := require_bind_eq_ok.1 loaded
    obtain ⟨⟨others, last⟩, remaining, loaded⟩ := bind_eq_ok.1 loaded
    cases loaded
    rw [List.length_cons, List.length_cons, ih remaining]

/-- The children load one after the other, each behind what was collected before. -/
theorem loadSubtrees_complete (spec : LoaderSpec loader r pages good collected gathers) {τ : Type}
    {load : ExtentReference → σ → Except LoadError (τ × PageBounds × σ)}
    {blocks : List (List (Bytes × Bytes))}
    (loads : List.Forall₂ (fun child block => block ≠ [] ∧ ∀ state,
      (∀ before ∈ collected state, ∀ entry ∈ block, r before.1 entry.1) →
        ∃ tree next, load child.2 state = .ok (tree, keyBounds (block.map Prod.fst), next) ∧
          collected next = collected state ++ block) children blocks)
    (increasing : blocks.flatten.Pairwise fun a b => r a.1 b.1) {maximum : Option Bytes} {state : σ}
    (above : ∀ last ∈ maximum, ∀ entry ∈ blocks.flatten, r last entry.1)
    (separated : maximum.isSome → List.Forall₂ (fun child block =>
      firstKey Prod.fst block = some child.1) children blocks)
    (others : List.Forall₂ (fun child block => firstKey Prod.fst block = some child.1)
      children.tail blocks.tail)
    (fresh : ∀ before ∈ collected state, ∀ entry ∈ blocks.flatten, r before.1 entry.1) :
    ∃ subtrees next, loadSubtrees loader load maximum children state = .ok (subtrees, next) ∧
      subtrees.map Prod.snd = blocks.map (fun block => keyBounds (block.map Prod.fst)) ∧
      collected next = collected state ++ blocks.flatten := by
  induction loads generalizing maximum state with
  | nil => exact ⟨[], state, rfl, rfl, by simp⟩
  | @cons child block children blocks first rest ih =>
    obtain ⟨separator, reference⟩ := child
    obtain ⟨nonempty, loadsFirst⟩ := first
    rw [List.flatten_cons] at increasing above fresh
    obtain ⟨here, there, across⟩ := List.pairwise_append.1 increasing
    obtain ⟨tree, middle, loaded, gathered⟩ := loadsFirst state fun before old entry member =>
      fresh before old entry (List.mem_append_left _ member)
    obtain ⟨lead, tail, isCons⟩ := List.exists_cons_of_ne_nil nonempty
    have isFirst : (keyBounds (block.map Prod.fst)).minimum = lead.1 := by rw [isCons]; rfl
    -- the rest lies behind the last key of the first block
    have behind : ∀ last ∈ some (keyBounds (block.map Prod.fst)).maximum,
        ∀ entry ∈ blocks.flatten, r last entry.1 := by
      rintro last isLast entry member
      cases isLast
      obtain ⟨greatest, inBlock, same⟩ := keyBounds_maximum_mem nonempty
      rw [← same]
      exact across greatest inBlock entry member
    have freshRest : ∀ before ∈ collected middle, ∀ entry ∈ blocks.flatten,
        r before.1 entry.1 := by
      intro before old entry member
      rw [gathered] at old
      rcases List.mem_append.1 old with earlier | inBlock
      · exact fresh before earlier entry (List.mem_append_right _ member)
      · exact across before inBlock entry member
    have tailSeparated : List.Forall₂ (fun child block => firstKey Prod.fst block = some child.1)
        children.tail blocks.tail := by
      cases others with
      | nil => exact List.Forall₂.nil
      | cons _ later => exact later
    obtain ⟨subtrees, next, loadedRest, boundsRest, gatheredRest⟩ :=
      ih there behind (fun _ => others) tailSeparated freshRest
    refine ⟨(tree, keyBounds (block.map Prod.fst)) :: subtrees, next, ?_, ?_, ?_⟩
    · rw [loadSubtrees, loaded, ok_bind]
      dsimp only
      rw [require_of, ok_bind, require_of, ok_bind, loadedRest, ok_bind]
      · rfl
      · intro last isLast
        rw [spec.less, isFirst]
        exact above last isLast lead (by simp [isCons])
      · intro last isLast
        have matched := separated (Option.isSome_iff_exists.2 ⟨last, isLast⟩)
        cases matched with
        | cons same _ => exact keyBounds_minimum_of_firstKey same
    · rw [List.map_cons, List.map_cons, boundsRest]
    · rw [gatheredRest, gathered, List.flatten_cons, List.append_assoc]

theorem loadTree_complete (spec : LoaderSpec loader r pages good collected gathers) {level : Nat}
    {reference : ExtentReference} {entries : List (Bytes × Bytes)} {state : σ}
    (holds : HoldsBy r Prod.fst pages level reference entries)
    (fresh : ∀ before ∈ collected state, ∀ entry ∈ entries, r before.1 entry.1) :
    ∃ tree next, loadTree loader level reference state =
        .ok (tree, keyBounds (entries.map Prod.fst), next) ∧
      collected next = collected state ++ entries := by
  induction level generalizing reference entries state with
  | zero =>
    obtain ⟨isLeaf, -, increasing⟩ := holds
    obtain ⟨values, next, loaded, rfl, gathered⟩ := spec.leaf_complete isLeaf increasing fresh
    let leaf : MutableNode MutableTreeValue :=
      { reference, minimumKey := (keyBounds (values.map MutableTreeValue.key)).minimum,
        items := values }
    refine ⟨leaf, next, ?_, gathered⟩
    rw [loadTree, loaded, ok_bind, keyBounds_pairs]
    rfl
  | succ level ih =>
    obtain ⟨children, blocks, isInner, some, below, separated, rfl, increasing⟩ := holds
    obtain ⟨middle, opened, same⟩ : ∃ next,
        loader.innerPage (level + 1) reference state = .ok (children, next) ∧
          collected next = collected state := spec.inner_complete isInner
    have loads : List.Forall₂ (fun (child : Bytes × ExtentReference) block => block ≠ [] ∧
        ∀ state, (∀ before ∈ collected state, ∀ entry ∈ block, r before.1 entry.1) →
          ∃ tree next, loadTree loader level child.2 state =
              .ok (tree, keyBounds (block.map Prod.fst), next) ∧
            collected next = collected state ++ block) children blocks :=
      below.imp fun child block holds => ⟨holds.ne_nil, fun state fresh => ih holds fresh⟩
    have blocksSome : blocks ≠ [] := by
      rintro rfl
      cases below
      exact some rfl
    have filled : ∀ block ∈ blocks, block ≠ [] := by
      intro block member
      obtain ⟨child, -, holds⟩ := exists_left_of_forall₂ below member
      exact holds.ne_nil
    obtain ⟨subtrees, next, loaded, bounds, gathered⟩ : ∃ subtrees next,
        loadSubtrees loader (loadTree loader level) none children middle =
          .ok (subtrees, next) ∧ _ ∧ _ :=
      loadSubtrees_complete spec loads increasing (by simp) (by simp) separated (by rwa [same])
    let inner : MutableNode (MutableTree level) :=
      { reference, minimumKey := (subtreeBounds subtrees).minimum,
        items := subtrees.map Prod.fst }
    refine ⟨inner, next, ?_, by rw [gathered, same]⟩
    rw [loadTree, opened, ok_bind]
    dsimp only
    rw [loaded, ok_bind, ← subtreeBounds_eq blocksSome filled bounds]
    rfl

/-! ## A tree that loads is well formed -/

/-- A tree in memory that stands for the pages it was loaded from. -/
def Loaded (r : Bytes → Bytes → Prop) (pages : Pages Bytes ExtentReference (Bytes × Bytes))
    (good : MutableTreeValue → Prop) :
    {level : Nat} → ExtentReference → MutableTree level → Prop
  | 0, reference, node =>
    let leaf : MutableNode MutableTreeValue := node
    leaf.reference = reference ∧ leaf.minimumKey = valuesMinimum leaf.items ∧
      (∀ item ∈ leaf.items, good item) ∧
      HoldsBy r Prod.fst pages 0 reference (leaf.items.map MutableTreeValue.pair)
  | level + 1, reference, node =>
    let inner : MutableNode (MutableTree level) := node
    inner.reference = reference ∧
      inner.minimumKey = valuesMinimum (inner.items.flatMap MutableTree.values) ∧
      (∃ children, pages.inner (level + 1) reference children ∧
        List.Forall₂ (fun child tree => Loaded r pages good child.2 tree) children inner.items ∧
        List.Forall₂ (fun child tree => firstKey Prod.fst (MutableTree.pairs tree) = some child.1)
          children.tail inner.items.tail) ∧
      HoldsBy r Prod.fst pages (level + 1) reference
        ((inner.items.flatMap MutableTree.values).map MutableTreeValue.pair)

theorem Loaded.holds (loaded : Loaded r pages good reference tree) :
    HoldsBy r Prod.fst pages level reference tree.pairs := by
  cases level with
  | zero => exact loaded.2.2.2
  | succ level => exact loaded.2.2.2

theorem Loaded.values_ne_nil (loaded : Loaded r pages good reference tree) : tree.values ≠ [] :=
  fun none => loaded.holds.ne_nil (congrArg (List.map MutableTreeValue.pair) none)

theorem Loaded.firstKey_eq (loaded : Loaded r pages good reference tree) :
    firstKey Prod.fst tree.pairs = some (keyBounds (tree.pairs.map Prod.fst)).minimum := by
  obtain ⟨first, rest, isCons⟩ := List.exists_cons_of_ne_nil loaded.holds.ne_nil
  rw [isCons]
  rfl

/-- In the order of bytes, a loaded tree is well formed. -/
theorem Loaded.shaped (loaded : Loaded (· < ·) pages good reference tree) : tree.Shaped := by
  induction level generalizing reference with
  | zero => exact ⟨increasing_pairs.1 loaded.holds.pairwise, fun _ => loaded.2.1⟩
  | succ level ih =>
    refine ⟨fun child member => ?_, increasing_pairs.1 loaded.holds.pairwise,
      fun _ => loaded.2.1⟩
    obtain ⟨-, -, ⟨children, -, all, -⟩, -⟩ := loaded
    obtain ⟨entry, -, below⟩ := exists_left_of_forall₂ all member
    exact ⟨ih below, below.values_ne_nil⟩

theorem Loaded.kept (loaded : Loaded (· < ·) pages good reference tree) : tree.Kept pages good := by
  induction level generalizing reference with
  | zero =>
    obtain ⟨isReference, -, all, holds⟩ := loaded
    exact ⟨fun _ _ => by rw [isReference]; exact holds, all⟩
  | succ level ih =>
    obtain ⟨isReference, -, ⟨children, isInner, all, -⟩, holds⟩ := loaded
    refine ⟨fun _ _ => ?_, fun child member => ?_⟩
    · rw [isReference]
      exact ⟨holds, children, isInner, all.length_eq⟩
    · obtain ⟨entry, -, below⟩ := exists_left_of_forall₂ all member
      exact ih below

/-- What the loop over the children has established about them. -/
structure LoadedSubtrees (r : Bytes → Bytes → Prop)
    (pages : Pages Bytes ExtentReference (Bytes × Bytes)) (good : MutableTreeValue → Prop)
    {level : Nat} (maximum : Option Bytes) (children : List (Bytes × ExtentReference))
    (subtrees : List (MutableTree level × PageBounds)) : Prop where
  all : List.Forall₂ (fun child subtree => Loaded r pages good child.2 subtree.1 ∧
    subtree.2 = keyBounds (subtree.1.pairs.map Prod.fst)) children subtrees
  separated : maximum.isSome → List.Forall₂ (fun child subtree =>
    firstKey Prod.fst subtree.1.pairs = some child.1) children subtrees
  others : List.Forall₂ (fun child subtree =>
    firstKey Prod.fst subtree.1.pairs = some child.1) children.tail subtrees.tail
  ordered : (subtrees.flatMap fun subtree => subtree.1.pairs).Pairwise fun a b => r a.1 b.1
  above : ∀ last ∈ maximum, ∀ entry ∈ subtrees.flatMap fun subtree => subtree.1.pairs,
    r last entry.1

theorem loadSubtrees_sound (spec : LoaderSpec loader r pages good collected gathers)
    (sound : ∀ {reference state tree bounds next},
      loadTree loader level reference state = .ok (tree, bounds, next) →
        Loaded r pages good reference tree ∧ bounds = keyBounds (tree.pairs.map Prod.fst) ∧
          gathers state tree.pairs next) {maximum : Option Bytes} {state next : σ}
    {subtrees : List (MutableTree level × PageBounds)}
    (loaded : loadSubtrees loader (loadTree loader level) maximum children state =
      .ok (subtrees, next)) :
    LoadedSubtrees r pages good maximum children subtrees ∧
      gathers state (subtrees.flatMap fun subtree => subtree.1.pairs) next := by
  induction children generalizing maximum state subtrees with
  | nil =>
    cases loaded
    exact ⟨⟨.nil, fun _ => .nil, .nil, List.Pairwise.nil, by simp⟩, spec.gathers_nil _⟩
  | cons child rest ih =>
    obtain ⟨separator, reference⟩ := child
    rw [loadSubtrees] at loaded
    obtain ⟨⟨tree, bounds, middle⟩, loadedFirst, loaded⟩ := bind_eq_ok.1 loaded
    obtain ⟨matches_, loaded⟩ := require_bind_eq_ok.1 loaded
    obtain ⟨ordered, loaded⟩ := require_bind_eq_ok.1 loaded
    obtain ⟨⟨others, final⟩, loadedRest, loaded⟩ := bind_eq_ok.1 loaded
    cases loaded
    obtain ⟨first, isBounds, gathered⟩ := sound loadedFirst
    obtain ⟨later, gatheredRest⟩ := ih loadedRest
    have sorted := first.holds.pairwise
    -- the first subtree ends before the rest begins
    have across : ∀ entry ∈ tree.pairs,
        ∀ other ∈ others.flatMap (fun subtree => subtree.1.pairs), r entry.1 other.1 := by
      intro entry member other inRest
      have beyond := later.above _ rfl other inRest
      rw [isBounds] at beyond
      rcases Relation.reflGen_iff _ _ _ |>.1 (rel_keyBounds_maximum sorted member) with last | upper
      · rw [last] at beyond
        exact beyond
      · exact spec.trans upper beyond
    refine ⟨⟨.cons ⟨first, isBounds⟩ later.all, fun isSome => ?_, later.separated rfl, ?_, ?_⟩, ?_⟩
    · refine .cons ?_ (later.separated rfl)
      obtain ⟨last, isLast⟩ := Option.isSome_iff_exists.1 isSome
      rw [first.firstKey_eq, ← isBounds, matches_ last isLast]
    · rw [List.flatMap_cons]
      exact List.pairwise_append.2 ⟨sorted, later.ordered, across⟩
    · intro last isLast entry member
      have below : r last bounds.minimum := (spec.less _ _).1 (ordered last isLast)
      obtain ⟨lead, tail, isCons⟩ := List.exists_cons_of_ne_nil first.holds.ne_nil
      have minimum : bounds.minimum = lead.1 := by rw [isBounds, isCons]; rfl
      rw [minimum] at below
      rw [List.flatMap_cons] at member
      rcases List.mem_append.1 member with here | there
      · rw [isCons] at here sorted
        rcases List.mem_cons.1 here with rfl | behind
        · exact below
        · exact spec.trans below ((List.pairwise_cons.1 sorted).1 entry behind)
      · exact spec.trans below (across lead (by simp [isCons]) entry there)
    · rw [List.flatMap_cons]
      exact spec.gathers_append gathered gatheredRest

theorem loadTree_sound (spec : LoaderSpec loader r pages good collected gathers) {state next : σ}
    {bounds : PageBounds}
    (loaded : loadTree loader level reference state = .ok (tree, bounds, next)) :
    Loaded r pages good reference tree ∧ bounds = keyBounds (tree.pairs.map Prod.fst) ∧
      gathers state tree.pairs next := by
  induction level generalizing reference state next bounds with
  | zero =>
    rw [loadTree] at loaded
    obtain ⟨⟨values, after⟩, leaf, loaded⟩ := bind_eq_ok.1 loaded
    cases loaded
    obtain ⟨isLeaf, nonempty, ordered, all, gathered⟩ := spec.leaf_sound leaf
    exact ⟨⟨rfl, keyBounds_minimum values, all, isLeaf, by simpa using nonempty,
      List.pairwise_map.2 ordered⟩, (keyBounds_pairs values).symm, gathered⟩
  | succ level ih =>
    rw [loadTree] at loaded
    obtain ⟨⟨children, middle⟩, opened, loaded⟩ := bind_eq_ok.1 loaded
    obtain ⟨⟨subtrees, after⟩, below, loaded⟩ := bind_eq_ok.1 loaded
    cases loaded
    obtain ⟨isInner, some, same⟩ := spec.inner_sound opened
    obtain ⟨facts, gathered⟩ := loadSubtrees_sound spec ih below
    have whole : ((subtrees.map Prod.fst).flatMap MutableTree.values).map MutableTreeValue.pair =
        subtrees.flatMap fun subtree => subtree.1.pairs := by
      rw [pairs_flatMap, List.flatMap_map]
    have blocks : (subtrees.flatMap fun subtree => subtree.1.pairs) =
        (subtrees.map fun subtree => subtree.1.pairs).flatten := rfl
    have subtreesSome : subtrees ≠ [] := by
      rintro rfl
      cases facts.all
      exact some rfl
    have holds : HoldsBy r Prod.fst pages (level + 1) reference
        (subtrees.flatMap fun subtree => subtree.1.pairs) := by
      refine ⟨children, subtrees.map fun subtree => subtree.1.pairs, isInner, some, ?_, ?_,
        blocks, facts.ordered⟩
      · exact List.forall₂_map_right_iff.2 (facts.all.imp fun _ _ both => both.1.holds)
      · rw [← List.map_tail]
        exact List.forall₂_map_right_iff.2 facts.others
    have bounds : subtreeBounds subtrees =
        keyBounds ((subtrees.flatMap fun subtree => subtree.1.pairs).map Prod.fst) := by
      rw [blocks]
      apply subtreeBounds_eq (by simpa using subtreesSome)
      · intro block member
        obtain ⟨subtree, inSubtrees, rfl⟩ := List.mem_map.1 member
        obtain ⟨child, -, both⟩ := exists_left_of_forall₂ facts.all inSubtrees
        exact both.1.holds.ne_nil
      · rw [List.map_map]
        apply List.map_congr_left
        intro subtree inSubtrees
        obtain ⟨child, -, both⟩ := exists_left_of_forall₂ facts.all inSubtrees
        exact both.2
    have gathered := spec.gathers_append same gathered
    rw [List.nil_append] at gathered
    rw [← whole] at holds bounds gathered
    refine ⟨⟨rfl, ?_, ⟨children, isInner, ?_, ?_⟩, holds⟩, bounds, gathered⟩
    · dsimp only
      rw [bounds, keyBounds_pairs, keyBounds_minimum]
    · exact List.forall₂_map_right_iff.2 (facts.all.imp fun _ _ both => both.1)
    · rw [← List.map_tail]
      exact List.forall₂_map_right_iff.2 facts.others

end Loader

end Miare
