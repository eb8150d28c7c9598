import Miare.Tree.Persist
import Miare.Tree.Proofs.Shape

/-!
# Editing mutable trees

`putMutableTree` and `eraseMutableTree` change one leaf.  Everything outside the child that
`mutableChildFor` picks has smaller or larger keys, so on the list of all values they are
`putEntry` and `removeKey`.
-/

namespace Miare

open Misc

/-! ## The child for a key -/

theorem mutableChildFor_split (key : Bytes) {minimums : List Bytes} (nonempty : minimums ≠ []) :
    ∃ front minimum back, minimums = front ++ minimum :: back ∧
      mutableChildFor key minimums = some front.length ∧ (front ≠ [] → minimum ≤ key) ∧
      ∀ next ∈ back.head?, key < next := by
  induction minimums with
  | nil => exact absurd rfl nonempty
  | cons first rest ih =>
    cases rest with
    | nil => exact ⟨[], first, [], rfl, rfl, by simp, by simp⟩
    | cons next rest =>
      by_cases before : key < next
      · exact ⟨[], first, next :: rest, rfl, if_pos before, by simp, by simpa using before⟩
      · obtain ⟨front, minimum, back, split, found, least, above⟩ := ih (List.cons_ne_nil _ _)
        refine ⟨first :: front, minimum, back, by rw [split]; rfl, ?_, fun _ => ?_, above⟩
        · rw [mutableChildFor, if_neg before, found]
          rfl
        · cases front with
          | nil =>
            obtain rfl : next = minimum := (List.cons.inj split).1
            exact not_lt.1 before
          | cons _ _ => exact least (List.cons_ne_nil _ _)

namespace MutableTree

variable {level : Nat}

/-- `child` is the one for `key` among `items`. -/
structure Routed (key : Bytes) (items front : List (MutableTree level)) (child : MutableTree level)
    (back : List (MutableTree level)) : Prop where
  split : items = front ++ child :: back
  found : mutableChildFor key (items.map minimumKey) = some front.length
  below : ∀ item ∈ front.flatMap values, item.key < key
  above : ∀ item ∈ back.flatMap values, key < item.key

/-- The least key of the first of some nonempty children. -/
theorem firstMinimum_children {items : List (MutableTree level)}
    (children : ∀ child ∈ items, Shaped child ∧ child.values ≠ []) :
    firstMinimum (items.map minimumKey) = valuesMinimum (items.flatMap values) := by
  cases items with
  | nil => rfl
  | cons first rest =>
    obtain ⟨shaped, some⟩ := children first List.mem_cons_self
    rw [List.flatMap_cons, valuesMinimum_append some]
    exact shaped.minimumKey_eq some

theorem exists_routed (key : Bytes) {items : List (MutableTree level)}
    (children : ∀ child ∈ items, Shaped child ∧ child.values ≠ [])
    (increasing : Increasing MutableTreeValue.key (items.flatMap values)) (nonempty : items ≠ []) :
    ∃ front child back, Routed key items front child back := by
  obtain ⟨low, minimum, high, split, found, least, above⟩ :=
    mutableChildFor_split key (List.map_eq_nil_iff.not.2 nonempty : items.map minimumKey ≠ [])
  obtain ⟨front, rest, rfl, rfl, tail⟩ := List.map_eq_append_iff.1 split
  obtain ⟨child, back, rfl, rfl, rfl⟩ := List.map_eq_cons_iff.1 tail
  obtain ⟨shaped, some⟩ := children child (by simp)
  rw [List.flatMap_append, List.flatMap_cons] at increasing
  obtain ⟨-, later, across⟩ := increasing_append.1 increasing
  refine ⟨front, child, back, rfl, by rw [found, List.length_map], ?_, ?_⟩
  · intro item member
    have filled : front.map minimumKey ≠ [] := by
      rintro none
      rw [List.map_eq_nil_iff.1 none] at member
      cases member
    obtain ⟨first, inChild, isLeast⟩ := valuesMinimum_mem some
    have less := across item member first (List.mem_append_left _ inChild)
    rw [isLeast, ← shaped.minimumKey_eq some] at less
    exact less.trans_le (least filled)
  · intro item member
    cases back with
    | nil => cases member
    | cons next others =>
      have isMinimum := firstMinimum_children fun c inBack => children c
        (List.mem_append_right front (List.mem_cons_of_mem child inBack))
      have less : key < next.minimumKey := above _ rfl
      refine less.trans_le ?_
      change firstMinimum ((next :: others).map minimumKey) ≤ item.key
      rw [isMinimum]
      exact valuesMinimum_le (increasing_append.1 later).2.1 member

/-! ## Changed nodes -/

variable {pages : Pages Bytes ExtentReference (Bytes × Bytes)} {good : MutableTreeValue → Prop}

/-- Well formed, and in agreement with the pages. -/
structure Sound (pages : Pages Bytes ExtentReference (Bytes × Bytes))
    (good : MutableTreeValue → Prop) (tree : MutableTree level) : Prop where
  shaped : tree.Shaped
  kept : tree.Kept pages good

/-- A changed leaf has no page to agree with. -/
theorem sound_leaf {node : MutableNode MutableTreeValue} (dirty : node.dirty = true)
    (least : node.items ≠ [] →
      node.minimumKey = firstMinimum (node.items.map MutableTreeValue.key))
    (increasing : Increasing MutableTreeValue.key node.items)
    (all : ∀ item ∈ node.items, good item) :
    @Sound 0 pages good node := by
  refine ⟨⟨increasing, fun some => ?_⟩, fun clean => ?_, all⟩
  · rw [least some]
    cases node.items <;> rfl
  · rw [dirty] at clean
    cases clean

theorem sound_inner {node : MutableNode (MutableTree level)} (dirty : node.dirty = true)
    (least : node.items ≠ [] → node.minimumKey = firstMinimum (node.items.map minimumKey))
    (children : ∀ child ∈ node.items, Sound pages good child ∧ child.values ≠ [])
    (increasing : Increasing MutableTreeValue.key (node.items.flatMap values)) :
    @Sound (level + 1) pages good node := by
  have shaped := fun child member => (⟨(children child member).1.shaped,
    (children child member).2⟩ : Shaped child ∧ child.values ≠ [])
  refine ⟨⟨shaped, increasing, fun some => ?_⟩, fun clean => ?_, fun child member => ?_⟩
  · rw [least some, firstMinimum_children shaped]
  · rw [dirty] at clean
    cases clean
  · exact (children child member).1.kept

/-- The children of a sound node. -/
theorem Sound.children {tree : MutableTree (level + 1)} (sound : Sound pages good tree)
    {child : MutableTree level} (member : child ∈ MutableNode.items tree) :
    Sound pages good child ∧ child.values ≠ [] :=
  ⟨⟨(sound.shaped.1 child member).1, sound.kept.2 child member⟩, (sound.shaped.1 child member).2⟩

theorem items_ne_nil {tree : MutableTree (level + 1)} (nonempty : tree.values ≠ []) :
    MutableNode.items tree ≠ [] := by
  intro none
  apply nonempty
  change List.flatMap values (MutableNode.items tree) = []
  rw [none]
  rfl

/-- `putMutableTree` puts an entry into the values of a tree. -/
theorem putMutableTree_spec {key value : Bytes} (fresh : good { key, value })
    {tree : MutableTree level} (sound : Sound pages good tree)
    (ready : level = 0 ∨ tree.values ≠ []) :
    ∃ next, putMutableTree key value tree = some next ∧ Sound pages good next ∧
      next.values = putEntry MutableTreeValue.key { key, value } tree.values := by
  induction level with
  | zero =>
    obtain ⟨⟨increasing, -⟩, -, all⟩ := sound
    refine ⟨_, rfl, sound_leaf rfl (fun _ => rfl) (putEntry_increasing _ increasing) ?_, rfl⟩
    intro item member
    rcases (mem_putEntry increasing).1 member with rfl | ⟨old, -⟩
    · exact fresh
    · exact all item old
  | succ level ih =>
    let inner : MutableNode (MutableTree level) := tree
    have nonempty : inner.items ≠ [] :=
      items_ne_nil (ready.resolve_left (Nat.succ_ne_zero level))
    have increasing : Increasing MutableTreeValue.key (inner.items.flatMap values) :=
      sound.shaped.2.1
    obtain ⟨front, child, back, routed⟩ :=
      exists_routed key sound.shaped.1 increasing nonempty
    have among : ∀ other ∈ front ++ child :: back, Sound pages good other ∧ other.values ≠ [] :=
      fun other member => sound.children (routed.split ▸ member)
    obtain ⟨soundChild, filled⟩ := among child (by simp)
    obtain ⟨next, put, soundNext, values_eq⟩ := ih soundChild (Or.inr filled)
    have whole : (front ++ next :: back).flatMap values =
        putEntry MutableTreeValue.key { key, value } (inner.items.flatMap values) := by
      rw [routed.split, List.flatMap_append, List.flatMap_cons, List.flatMap_append,
        List.flatMap_cons, putEntry_append_right routed.below, putEntry_append_left routed.above,
        values_eq]
    have replaced : inner.items.set front.length next = front ++ next :: back := by
      rw [routed.split, List.set_append_right _ _ le_rfl, Nat.sub_self, List.set_cons_zero]
    let node : MutableNode (MutableTree level) := { inner with
      dirty := true, items := front ++ next :: back
      minimumKey := firstMinimum ((front ++ next :: back).map minimumKey) }
    refine ⟨node, ?_, sound_inner rfl (fun _ => rfl) ?_ ?_, whole⟩
    · have isChild : inner.items[front.length]? = some child := by
        rw [routed.split]
        simp
      rw [putMutableTree.eq_2, routed.found]
      dsimp only
      rw [isChild]
      dsimp only
      rw [put]
      dsimp only
      rw [replaced]
    · intro other member
      rcases List.mem_append.1 member with inFront | inRest
      · exact among other (by simp [inFront])
      · rcases List.mem_cons.1 inRest with rfl | inBack
        · refine ⟨soundNext, ?_⟩
          rw [values_eq]
          exact putEntry_ne_nil _ _
        · exact among other (by simp [inBack])
    · rw [whole]
      exact putEntry_increasing _ increasing

theorem shrinkTo_least {α : Type} {node : MutableNode α} {minimum : α → Bytes} {items : List α}
    (some : items ≠ []) :
    (node.shrinkTo minimum items).minimumKey = firstMinimum (items.map minimum) :=
  if_neg (by simpa using some)

/-- `eraseMutableTree` removes a key from the values of a tree; it changes nothing when the key
is not there. -/
theorem eraseMutableTree_spec (key : Bytes) {tree : MutableTree level}
    (sound : Sound pages good tree) (ready : level = 0 ∨ tree.values ≠ []) :
    ∃ next found, eraseMutableTree key tree = some (next, found) ∧ Sound pages good next ∧
      next.values = removeKey MutableTreeValue.key key tree.values ∧
      (found = false → next = tree) := by
  induction level with
  | zero =>
    let leaf : MutableNode MutableTreeValue := tree
    obtain ⟨⟨increasing, -⟩, -, all⟩ := id sound
    cases isFound : findKey MutableTreeValue.key key leaf.items with
    | none =>
      refine ⟨tree, false, ?_, sound, (removeKey_of_findKey_none isFound).symm, fun _ => rfl⟩
      rw [eraseMutableTree.eq_1, isFound]
    | some item =>
      let next := leaf.shrinkTo MutableTreeValue.key (removeKey MutableTreeValue.key key leaf.items)
      refine ⟨next, true, ?_, sound_leaf rfl shrinkTo_least (removeKey_increasing _ increasing) ?_,
        rfl, nofun⟩
      · rw [eraseMutableTree.eq_1, isFound]
      · intro other member
        exact all other (mem_removeKey.1 member).1
  | succ level ih =>
    let inner : MutableNode (MutableTree level) := tree
    have nonempty : inner.items ≠ [] :=
      items_ne_nil (ready.resolve_left (Nat.succ_ne_zero level))
    have increasing : Increasing MutableTreeValue.key (inner.items.flatMap values) :=
      sound.shaped.2.1
    obtain ⟨front, child, back, routed⟩ :=
      exists_routed key sound.shaped.1 increasing nonempty
    have among : ∀ other ∈ front ++ child :: back, Sound pages good other ∧ other.values ≠ [] :=
      fun other member => sound.children (routed.split ▸ member)
    obtain ⟨soundChild, filled⟩ := among child (by simp)
    obtain ⟨next, found, erased, soundNext, values_eq, unchanged⟩ := ih soundChild (Or.inr filled)
    have whole : removeKey MutableTreeValue.key key (inner.items.flatMap values) =
        front.flatMap values ++ (next.values ++ back.flatMap values) := by
      rw [routed.split, List.flatMap_append, List.flatMap_cons, removeKey_append,
        removeKey_append, removeKey_of_ne fun item member => (routed.below item member).ne,
        removeKey_of_ne fun item member => (routed.above item member).ne', values_eq]
    have isChild : inner.items[front.length]? = some child := by
      rw [routed.split]
      simp
    cases found with
    | false =>
      refine ⟨tree, false, ?_, sound, ?_, fun _ => rfl⟩
      · rw [eraseMutableTree.eq_2, routed.found]
        dsimp only
        rw [isChild]
        dsimp only
        rw [erased]
      · obtain rfl := unchanged rfl
        change inner.items.flatMap values = removeKey _ key (inner.items.flatMap values)
        rw [whole, routed.split, List.flatMap_append, List.flatMap_cons]
    | true =>
      -- a child that lost its last value goes too
      let items := if next.isEmpty then front ++ back else front ++ next :: back
      have flat : items.flatMap values =
          removeKey MutableTreeValue.key key (inner.items.flatMap values) := by
        rw [whole]
        by_cases gone : next.isEmpty = true
        · have none := soundNext.shaped.isEmpty_iff.1 gone
          simp only [items, if_pos gone, none, List.flatMap_append, List.nil_append]
        · simp only [items, if_neg gone, List.flatMap_append, List.flatMap_cons]
      have shrunk : (if next.isEmpty then inner.items.eraseIdx front.length
          else inner.items.set front.length next) = items := by
        rw [routed.split, List.set_append_right _ _ le_rfl,
          List.eraseIdx_append_of_length_le le_rfl, Nat.sub_self, List.set_cons_zero,
          List.eraseIdx_cons_zero]
      have children : ∀ other ∈ items, Sound pages good other ∧ other.values ≠ [] := by
        intro other member
        by_cases gone : next.isEmpty = true
        · simp only [items, if_pos gone, List.mem_append] at member
          rcases member with inFront | inBack
          · exact among other (by simp [inFront])
          · exact among other (by simp [inBack])
        · simp only [items, if_neg gone, List.mem_append, List.mem_cons] at member
          rcases member with inFront | rfl | inBack
          · exact among other (by simp [inFront])
          · exact ⟨soundNext, fun none => gone (soundNext.shaped.isEmpty_iff.2 none)⟩
          · exact among other (by simp [inBack])
      have sorted : Increasing MutableTreeValue.key (items.flatMap values) := by
        rw [flat]
        exact removeKey_increasing _ increasing
      refine ⟨inner.shrinkTo minimumKey items, true, ?_,
        sound_inner rfl shrinkTo_least children sorted, flat, nofun⟩
      rw [eraseMutableTree.eq_2, routed.found]
      dsimp only
      rw [isChild]
      dsimp only
      rw [erased]
      dsimp only
      rw [shrunk]

/-! ## Runs of changes -/

theorem pair_fst (item : MutableTreeValue) : item.pair.1 = item.key := rfl

theorem Sound.increasing_pairs {tree : MutableTree level} (sound : Sound pages good tree) :
    Increasing Prod.fst tree.pairs :=
  Miare.increasing_pairs.2 sound.shaped.increasing

/-- Keys that are there can be erased one after the other: while one is left, the tree has a
value. -/
theorem eraseKeys_spec {keys : List Bytes} {tree : MutableTree level}
    (sound : Sound pages good tree) (distinct : keys.Nodup)
    (present : ∀ key ∈ keys, ∃ entry ∈ tree.pairs, entry.1 = key) :
    ∃ next, eraseKeys keys tree = some next ∧ Sound pages good next ∧
      next.pairs = removeKeys Prod.fst keys tree.pairs := by
  induction keys generalizing tree with
  | nil => exact ⟨tree, rfl, sound, rfl⟩
  | cons key rest ih =>
    obtain ⟨once, distinct⟩ := List.nodup_cons.1 distinct
    obtain ⟨entry, isThere, -⟩ := present key List.mem_cons_self
    have nonempty : tree.values ≠ [] := by
      intro none
      rw [pairs, none] at isThere
      cases isThere
    obtain ⟨middle, found, erased, soundMiddle, values_eq, -⟩ :=
      eraseMutableTree_spec key sound (Or.inr nonempty)
    have pairs_eq : middle.pairs = removeKey Prod.fst key tree.pairs := by
      rw [pairs, values_eq, removeKey_map MutableTreeValue.pair pair_fst]
      rfl
    obtain ⟨next, others, soundNext, whole⟩ := ih soundMiddle distinct (by
      intro other later
      obtain ⟨entry, isThere, same⟩ := present other (List.mem_cons_of_mem _ later)
      refine ⟨entry, ?_, same⟩
      rw [pairs_eq]
      exact mem_removeKey.2 ⟨isThere, fun equal => once (equal ▸ same ▸ later)⟩)
    refine ⟨next, ?_, soundNext, ?_⟩
    · rw [eraseKeys, List.foldlM_cons, erased]
      exact others
    · rw [whole, pairs_eq]
      rfl

theorem putEntries_spec {entries : List (Bytes × Bytes)} {tree : MutableTree level}
    (sound : Sound pages good tree) (ready : level = 0 ∨ tree.values ≠ [])
    (fresh : ∀ entry ∈ entries, good { key := entry.1, value := entry.2 }) :
    ∃ next, putEntries entries tree = some next ∧ Sound pages good next ∧
      next.pairs = putAll Prod.fst entries tree.pairs := by
  induction entries generalizing tree with
  | nil => exact ⟨tree, rfl, sound, rfl⟩
  | cons entry rest ih =>
    obtain ⟨middle, put, soundMiddle, values_eq⟩ :=
      putMutableTree_spec (fresh entry List.mem_cons_self) sound ready
    have pairs_eq : middle.pairs = putEntry Prod.fst entry tree.pairs := by
      rw [pairs, values_eq, putEntry_map MutableTreeValue.pair pair_fst]
      rfl
    have nonempty : middle.values ≠ [] := by
      rw [values_eq]
      exact putEntry_ne_nil _ _
    obtain ⟨next, others, soundNext, whole⟩ := ih soundMiddle (Or.inr nonempty)
      fun other later => fresh other (List.mem_cons_of_mem _ later)
    refine ⟨next, ?_, soundNext, ?_⟩
    · rw [putEntries, List.foldlM_cons, put]
      exact others
    · rw [whole, pairs_eq]
      rfl

/-! ## Roots -/

theorem Sound.markDirty {tree : MutableTree level} (sound : Sound pages good tree) :
    Sound pages good tree.markDirty ∧ tree.markDirty.values = tree.values := by
  cases level with
  | zero =>
    refine ⟨⟨sound.shaped, fun clean => ?_, sound.kept.2⟩, rfl⟩
    cases clean
  | succ level =>
    refine ⟨⟨sound.shaped, fun clean => ?_, sound.kept.2⟩, rfl⟩
    cases clean

theorem sound_empty : @Sound 0 pages good ({ dirty := true } : MutableNode MutableTreeValue) :=
  sound_leaf rfl (fun some => absurd rfl some) List.Pairwise.nil (by simp)

/-- The reset leaves a leaf or a root with values. -/
theorem resetEmptyRoot_spec {tree : MutableTree level} (sound : Sound pages good tree) :
    Sound pages good (resetEmptyRoot tree).tree ∧
      (resetEmptyRoot tree).tree.pairs = tree.pairs ∧
      ((resetEmptyRoot tree).level = 0 ∨ (resetEmptyRoot tree).tree.values ≠ []) := by
  cases level with
  | zero => exact ⟨sound, rfl, Or.inl rfl⟩
  | succ level =>
    by_cases none : (MutableNode.items tree).isEmpty = true
    · have values_eq : tree.values = [] := sound.shaped.isEmpty_iff.1 none
      rw [resetEmptyRoot, if_pos none]
      refine ⟨sound_empty, ?_, Or.inl rfl⟩
      rw [pairs, pairs, values_eq]
      rfl
    · rw [resetEmptyRoot, if_neg none]
      exact ⟨sound, rfl, Or.inr fun empty => none (sound.shaped.isEmpty_iff.2 empty)⟩

/-- A collapsed root is a leaf or has two children. -/
theorem collapseRoot_spec {tree : MutableTree level} (sound : Sound pages good tree) :
    Sound pages good (collapseRoot tree).tree ∧
      (collapseRoot tree).tree.pairs = tree.pairs ∧
      (tree.pairs ≠ [] → (collapseRoot tree).level ≠ 0 → 2 ≤ (collapseRoot tree).tree.width) := by
  induction level with
  | zero => exact ⟨sound, rfl, fun _ inner => absurd rfl inner⟩
  | succ level ih =>
    by_cases single : ∃ child, MutableNode.items tree = [child]
    · obtain ⟨child, only⟩ := single
      have step : collapseRoot tree = collapseRoot child.markDirty := by
        rw [collapseRoot, only]
      obtain ⟨soundChild, values_eq⟩ :=
        (sound.children (only ▸ List.mem_singleton_self child)).1.markDirty
      obtain ⟨collapsed, pairs_eq, wide⟩ := ih soundChild
      have below : tree.values = child.values := by
        change List.flatMap values (MutableNode.items tree) = child.values
        rw [only]
        simp
      have same : child.markDirty.pairs = tree.pairs := by rw [pairs, pairs, values_eq, below]
      rw [step]
      exact ⟨collapsed, pairs_eq.trans same, fun some => wide (same ▸ some)⟩
    · have stays : collapseRoot tree = ⟨level + 1, tree⟩ := by
        rw [collapseRoot]
        split
        · rename_i child only
          exact absurd ⟨child, only⟩ single
        · rfl
      rw [stays]
      refine ⟨sound, rfl, fun some _ => ?_⟩
      have filled : MutableNode.items tree ≠ [] :=
        items_ne_nil fun none => some (by rw [pairs, none]; rfl)
      change 2 ≤ (MutableNode.items tree).length
      by_contra short
      have positive := List.length_pos_iff.2 filled
      exact single (List.length_eq_one_iff.1 (by omega))

end MutableTree

/-! ## The ordered tree -/

open MutableTree

variable {pages : Pages Bytes ExtentReference (Bytes × Bytes)} {good : MutableTreeValue → Prop}

theorem mem_erasedKeys {old new : OrderedKeyValues} {key : Bytes} :
    key ∈ erasedKeys old new ↔
      (∃ entry ∈ old.entries, entry.1 = key) ∧ ∀ other ∈ new.entries, other.1 ≠ key := by
  rw [erasedKeys, List.mem_filter, List.mem_map, Option.isNone_iff_eq_none]
  exact and_congr_right fun _ => findKey_eq_none_iff

theorem mem_changedEntries {old new : OrderedKeyValues} {entry : Bytes × Bytes} :
    entry ∈ changedEntries old new ↔ entry ∈ new.entries ∧ entry ∉ old.entries := by
  have found : old.find entry.1 = some entry ↔ entry ∈ old.entries :=
    (findKey_eq_some_iff old.increasing).trans (and_iff_left rfl)
  rw [changedEntries, List.mem_filter, decide_eq_true_iff, Ne, found]

/-- The changes turn a tree with the old map into one with the new map, and no child is looked up
in a node without children. -/
theorem editOrderedTree_spec {old new : OrderedKeyValues} {root : MutableRoot}
    (sound : Sound pages good root.begin.tree) (holds : root.begin.tree.pairs = old.entries)
    (fresh : ∀ entry ∈ new.entries, good { key := entry.1, value := entry.2 }) :
    ∃ final, editOrderedTree old new root = some final ∧ Sound pages good final.tree ∧
      final.tree.pairs = new.entries ∧
      (new.entries ≠ [] → final.level ≠ 0 → 2 ≤ final.tree.width) := by
  have distinct : (erasedKeys old new).Nodup := by
    have keys : (old.entries.map Prod.fst).Nodup :=
      List.pairwise_map.2 (old.increasing.imp fun less => less.ne)
    exact keys.filter _
  obtain ⟨erased, erasing, soundErased, left⟩ := eraseKeys_spec sound distinct (by
    intro key gone
    rw [holds]
    exact (mem_erasedKeys.1 gone).1)
  obtain ⟨soundReset, same, ready⟩ := resetEmptyRoot_spec soundErased
  obtain ⟨put, putting, soundPut, whole⟩ := putEntries_spec soundReset ready
    fun entry changed => fresh entry (mem_changedEntries.1 changed).1
  obtain ⟨soundFinal, collapsed, wide⟩ := collapseRoot_spec soundPut
  have replaced : put.pairs = new.entries := by
    rw [whole, same, left, holds]
    refine putAll_removeKeys old.increasing new.increasing (new.increasing.filter _)
      (fun entry => mem_changedEntries) fun entry isOld => ?_
    rw [mem_erasedKeys]
    exact and_iff_right ⟨entry, isOld, rfl⟩
  refine ⟨collapseRoot put, ?_, soundFinal, collapsed.trans replaced, fun some => wide ?_⟩
  · rw [editOrderedTree, erasing]
    change (putEntries _ _).bind _ = _
    rw [putting]
    rfl
  · rwa [replaced]

end Miare
