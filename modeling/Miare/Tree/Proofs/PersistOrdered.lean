import Miare.Tree.Proofs.LoadOrdered
import Miare.Tree.Proofs.Persist

/-!
# Committing the ordered keyspace

A commit replaces the map of the ordered tree: what it writes loads as the new map.
-/

namespace Miare

open Misc MutableTree

variable {L : Limits} {input : CommitInput} {format later : OpenedFormat}
  {store after : ExtentStore} {state next : CommitState} {reference : ExtentReference}
  {items : List MutableTreeValue} {root : MutableRoot}

/-! ## Leaves -/

/-- A value that a leaf can take: a new long value has no extent yet. -/
structure PutValue (L : Limits) (format : OpenedFormat) (store : ExtentStore)
    (item : MutableTreeValue) : Prop where
  keySize : item.key.length ≤ L.maxKeyBytes
  valueSize : item.value.length ≤ L.maxValueBytes
  framable : item.overflow.null = true → L.maxInlineValueBytes < item.value.length →
    L.framable item.value.length
  overflow : item.overflow.null = false → L.maxInlineValueBytes < item.value.length ∧
    item.overflow.Fits ∧
    ReadExtent L format store item.overflow { unitKind := 11 } (some item.value.length) item.value

theorem StoredValue.put {item : MutableTreeValue} (stored : StoredValue L format store item) :
    PutValue L format store item :=
  ⟨stored.keySize, stored.valueSize,
    fun inside long => absurd (stored.inline inside) (Nat.not_le_of_lt long), stored.overflow⟩

theorem placeOverflow_prepares (L : Limits) (input : CommitInput)
    (items : List MutableTreeValue) (state : CommitState) :
    Prepares L input state (placeOverflow L (prepareExtent L input) items state).2 ∧
      (placeOverflow L (prepareExtent L input) items state).1.map MutableTreeValue.pair =
        items.map MutableTreeValue.pair := by
  induction items generalizing state with
  | nil => exact ⟨.refl state, rfl⟩
  | cons item rest ih =>
    rw [placeOverflow]
    split
    · obtain ⟨prepares, same⟩ := ih (prepareExtent L input state item.value 11).2
      exact ⟨.extent _ _ prepares, congrArg (item.pair :: ·) same⟩
    · obtain ⟨prepares, same⟩ := ih (state.retain (overflowExtents item))
      exact ⟨.retain _ prepares, congrArg (item.pair :: ·) same⟩

theorem placeOverflow_stored (publishes : input.Publishes later)
    (values : ∀ item ∈ items, PutValue L later after item) (bounded : state.pool.Bounded L)
    (settled : (placeOverflow L (prepareExtent L input) items state).2.Settled L later after) :
    ∀ item ∈ (placeOverflow L (prepareExtent L input) items state).1,
      StoredValue L later after item := by
  induction items generalizing state with
  | nil => exact fun item member => nomatch member
  | cons item rest ih =>
    obtain ⟨value, others⟩ := List.forall_mem_cons.1 values
    rw [placeOverflow] at settled ⊢
    split
    · rename_i long
      rw [if_pos long] at settled
      have further := (placeOverflow_prepares L input rest
        (prepareExtent L input state item.value 11).2).1
      have here := settled.earlier further.extends
      have placed := prepareExtent_placed publishes bounded here
      refine List.forall_mem_cons.2 ⟨⟨value.keySize, value.valueSize, fun null => ?_, fun _ => ?_⟩,
        ih others (prepareExtent_bounded bounded _ _) settled⟩
      · exact absurd (placed.not_null.symm.trans null) Bool.false_ne_true
      · refine ⟨long.1, placed.fits publishes.words.1, prepareExtent_read publishes bounded here ?_ ?_⟩
        · intro page
          cases page
        · rintro length ⟨⟩
          exact ⟨rfl, value.framable long.2 long.1⟩
    · rename_i short
      rw [if_neg short] at settled
      refine List.forall_mem_cons.2 ⟨⟨value.keySize, value.valueSize, fun null => ?_,
        value.overflow⟩, ih others bounded settled⟩
      exact Nat.le_of_not_lt fun long => short ⟨long, null⟩

theorem writeOrderedLeaf_ok {nodes : List PreparedTreeNode}
    (wrote : writeOrderedLeaf L (prepareExtent L input) items state = .ok (nodes, next)) :
    ∃ groups, splitPages L.pagePayloadBytes leafUsedLength
        (placeOverflow L (prepareExtent L input) items state).1 = some groups ∧
      placePages (prepareExtent L input) 2 (encodeLeafPage L) .leafOverflow valuesMinimum
        (fun _ => 0) groups (placeOverflow L (prepareExtent L input) items state).2 =
          .ok (nodes, next) := by
  unfold writeOrderedLeaf at wrote
  split at wrote
  · cases wrote
  · dsimp only at wrote
    split at wrote
    · cases wrote
    · rename_i groups split
      exact ⟨groups, split, wrote⟩

theorem placeOverflow_ne_nil {items : List MutableTreeValue} (nonempty : items ≠ [])
    (state : CommitState) : (placeOverflow L (prepareExtent L input) items state).1 ≠ [] := by
  intro none
  have same := (placeOverflow_prepares L input items state).2
  rw [none] at same
  exact nonempty (List.map_eq_nil_iff.1 same.symm)

/-- The errors of the leaves of the ordered tree. -/
def OrderedLeafError (error : TreeError) : Prop :=
  error = .splitBoundary ∨ error = .leafOverflow

theorem writeOrderedLeaf_writes (nonempty : items ≠ []) (state : CommitState) :
    Writes L input OrderedLeafError (items.map MutableTreeValue.key) 0 state
      (writeOrderedLeaf L (prepareExtent L input) items state) := by
  have some := @placeOverflow_ne_nil L input items nonempty state
  obtain ⟨prepares, pairs_eq⟩ := placeOverflow_prepares L input items state
  unfold writeOrderedLeaf
  rw [if_neg nonempty]
  dsimp only
  split
  · exact Or.inl rfl
  · rename_i groups split
    obtain ⟨whole, filled⟩ := splitPages_flatten some split
    refine Writes.behind prepares (placePages_writes (splitPages_ne_nil some split)
      (fun _ _ => rfl) ?_ (fun _ => Or.inr rfl) _)
    have keys := congrArg (List.map Prod.fst) pairs_eq
    rw [List.map_map, List.map_map] at keys
    have begins := heads_sublist valuesMinimum MutableTreeValue.key filled fun _ _ => rfl
    rw [whole] at begins
    exact keys ▸ begins

/-- The pages of a changed leaf hold its values. -/
theorem writeOrderedLeaf_row (publishes : input.Publishes later) (nonempty : items ≠ [])
    (increasing : Increasing MutableTreeValue.key items)
    (values : ∀ item ∈ items, PutValue L later after item) (bounded : state.pool.Bounded L)
    {nodes : List PreparedTreeNode}
    (wrote : writeOrderedLeaf L (prepareExtent L input) items state = .ok (nodes, next))
    (settled : next.Settled L later after) :
    Row Prod.fst (orderedPages L later after) 0 (nodes.map PreparedTreeNode.entry)
      (items.map MutableTreeValue.pair) := by
  obtain ⟨groups, split, placed⟩ := writeOrderedLeaf_ok wrote
  obtain ⟨prepares, pairs_eq⟩ := placeOverflow_prepares L input items state
  have further := placePages_keeps (prepareExtent_keeps L input _) (.refl _) placed
  have stored := placeOverflow_stored publishes values bounded
    (settled.earlier further.extends)
  obtain ⟨whole, filled⟩ := splitPages_flatten (placeOverflow_ne_nil nonempty state) split
  have sorted : Increasing MutableTreeValue.key groups.flatten := by
    rw [whole, ← increasing_pairs, pairs_eq]
    exact increasing_pairs.2 increasing
  have each : ∀ group ∈ groups, Increasing MutableTreeValue.key group := fun group member =>
    List.Pairwise.sublist (List.sublist_flatten_of_mem member) sorted
  have read := placePages_read publishes (prepares.bounded bounded)
    (T := orderedRole) ⟨rfl, rfl⟩ rfl
    (fun group member payload encoded => encodeLeafPage_length (each group member) encoded)
    placed settled
  rw [← pairs_eq, ← whole]
  refine ⟨groups.map (List.map MutableTreeValue.pair), ?_, List.map_flatten⟩
  rw [List.forall₂_map_left_iff, List.forall₂_map_right_iff]
  refine List.Forall₂.flip (List.forall₂_iff_zip.2 ⟨read.length_eq, fun {group node} member => ?_⟩)
  obtain ⟨payload, encoded, page, minimum⟩ := (List.forall₂_iff_zip.1 read).2 member
  have inGroups := (List.of_mem_zip member).1
  have leaf := orderedLeaf_encode (each group inGroups) encoded (filled group inGroups)
    (fun item inGroup => stored item (whole ▸ List.mem_flatten.2 ⟨group, inGroups, inGroup⟩)) page
  refine ⟨⟨⟨group, leaf, rfl⟩, ?_, increasing_pairs.2 (each group inGroups)⟩, ?_⟩
  · simpa using filled group inGroups
  · rw [firstKey_pairs, valuesMinimum_eq (filled group inGroups)]
    exact congrArg some minimum.symm

theorem orderedWriter_basics (input : CommitInput) :
    WriterBasics L input (orderedWriter L input) (PutValue L format store) OrderedLeafError :=
  ⟨rfl, fun nonempty _ => writeOrderedLeaf_writes nonempty⟩

theorem orderedWriter_spec (publishes : input.Publishes later) :
    WriterSpec L input later after (orderedWriter L input) orderedRole
      (orderedPages L later after) (PutValue L later after) OrderedLeafError
      (fun key => key.length ≤ L.maxKeyBytes) where
  toWriterBasics := orderedWriter_basics input
  keys := PutValue.keySize
  plain := ⟨rfl, rfl⟩
  internal_page := rfl
  fits holds := by
    obtain ⟨payload, header, opened⟩ := holds_opened holds
    obtain ⟨kind, -, read, -⟩ := opened.read
    exact ⟨(validateExtentReference_ok read.valid read.present).fits publishes.words.1, read.present⟩
  inner encoded shallow increasing keySizes fits page :=
    ⟨[], orderedChildren_encode encoded shallow increasing keySizes
      (fun node member => (fits node member).1) page⟩
  leaf nonempty increasing values bounded wrote settled :=
    writeOrderedLeaf_row publishes nonempty increasing values bounded wrote settled

/-! ## The whole path -/

/-- The tree in memory before the changes. -/
theorem begin_sound {load : OrderedLoad}
    (loaded : loadExactValues L format store reference = .ok (load, root)) :
    Sound (orderedPages L format store) (StoredValue L format store) root.begin.tree ∧
      root.begin.tree.pairs = load.values.entries := by
  rcases loadExactValues_ok loaded with
    ⟨-, none, rfl⟩ | ⟨present, same, shaped, kept, -, pairs_eq⟩
  · exact ⟨sound_empty, none.symm⟩
  · have unchanged : root.begin = root := by
      obtain ⟨level, tree⟩ := root
      cases level with
      | zero =>
        exact if_neg (by rw [same, present]; exact Bool.false_ne_true)
      | succ level =>
        exact if_neg (by rw [same, present]; exact Bool.false_ne_true)
    rw [unchanged]
    exact ⟨⟨shaped, kept⟩, pairs_eq⟩

/-- Trees in memory stay good while extents are added. -/
theorem sound_mono (newer : format.Before later) (within : store.Within format.generation after)
    {level : Nat} {tree : MutableTree level}
    (sound : Sound (orderedPages L format store) (StoredValue L format store) tree) :
    Sound (orderedPages L later after) (PutValue L later after) tree :=
  ⟨sound.shaped, sound.kept.mono (fun holds => holds_mono newer within holds)
    (fun inner => orderedChildren_mono newer within inner)
    (fun stored => (stored.mono newer within).put)⟩

/-- A commit that has not prepared anything: its free blocks are disjoint and lie between the
common region and the end of the file. -/
structure CommitState.Fresh (L : Limits) (state : CommitState) : Prop where
  extents : state.extents = []
  bounded : state.pool.Bounded L
  once : ∀ x, coverage state.pool.freeRuns x ≤ 1

theorem CommitState.Fresh.accounts (fresh : state.Fresh L) : state.Accounts L input := by
  refine ⟨fresh.bounded, fun x => ?_, fun extent member => ?_⟩
  · rw [fresh.extents]
    exact fresh.once x
  · rw [fresh.extents] at member
    cases member

/-- The entries of a map are within the profile and in memory: no byte vector has `2 ^ 63`
bytes. -/
def OrderedKeyValues.Within (L : Limits) (values : OrderedKeyValues) : Prop :=
  ∀ entry ∈ values.entries, entry.1.length ≤ L.maxKeyBytes ∧
    entry.2.length ≤ L.maxValueBytes ∧ entry.2.length < 2 ^ 63

theorem OrderedKeyValues.Within.put {values : OrderedKeyValues}
    (within : OrderedKeyValues.Within L values) {entry : Bytes × Bytes}
    (member : entry ∈ values.entries) :
    PutValue L format store { key := entry.1, value := entry.2 } := by
  obtain ⟨keySize, valueSize, short⟩ := within entry member
  refine ⟨keySize, valueSize, fun _ _ => ?_, fun outside => nomatch outside⟩
  have := L.quantum_upper
  unfold Limits.framable uint64Max extentLayoutBytes authenticationTagBytes
  dsimp only
  omega

theorem commitOrderedTree_ok {turns : Nat} {old new : OrderedKeyValues}
    {page : Option PreparedTreeNode} (some : new.entries ≠ [])
    (committed : commitOrderedTree L input turns old new root state = .ok (page, next)) :
    ∃ edited written, editOrderedTree old new root = Option.some edited ∧
      page = Option.some written ∧
      persistTree L (orderedWriter L input) turns edited state = .ok (written, next) := by
  unfold commitOrderedTree at committed
  rw [if_neg some] at committed
  split at committed
  · cases committed
  · rename_i edited edit
    split at committed
    · cases committed
    · rename_i written final persisted
      cases committed
      exact ⟨edited, written, edit, rfl, persisted⟩

/-- The commit never looks up a child or an entry that is not there. -/
theorem commitOrderedTree_ne_outOfRange {load : OrderedLoad} {new : OrderedKeyValues} {turns : Nat}
    (loaded : loadExactValues L format store reference = .ok (load, root))
    (within : OrderedKeyValues.Within L new) :
    commitOrderedTree L input turns load.values new root state ≠ .error .outOfRange := by
  obtain ⟨sound, holds⟩ := begin_sound loaded
  obtain ⟨edited, edit, soundEdited, pairs_eq, -⟩ := editOrderedTree_spec
    (sound_mono ⟨le_rfl, le_rfl⟩ (fun _ _ _ found => found) sound) holds
    fun entry member => within.put member
  unfold commitOrderedTree
  split
  · intro impossible
    cases impossible
  · rename_i some
    have nonempty : edited.tree.values ≠ [] := by
      intro none
      rw [MutableTree.pairs, none] at pairs_eq
      exact some pairs_eq.symm
    have wrote := persistTree_writes (orderedWriter_basics input) soundEdited
      nonempty turns state
    rw [edit]
    dsimp only
    cases persisted : persistTree L (orderedWriter L input) turns edited state with
    | error error =>
      rw [persisted] at wrote
      rintro ⟨⟩
      rcases wrote with (impossible | impossible) | ⟨impossible, -⟩ <;> cases impossible
    | ok result =>
      intro impossible
      cases impossible

/-- A commit of a map that is not empty: the new root holds the map, and is a leaf or has two
children. -/
theorem commitOrderedTree_holds {load : OrderedLoad} {new : OrderedKeyValues} {turns : Nat}
    {page : Option PreparedTreeNode}
    (loaded : loadExactValues L format store reference = .ok (load, root))
    (within : OrderedKeyValues.Within L new) (fresh : state.Fresh L) (some : new.entries ≠ [])
    (committed : commitOrderedTree L input turns load.values new root state = .ok (page, next))
    (publishes : input.Publishes later) (newer : format.Before later)
    (following : format.generation < input.generation)
    (inside : next.pool.nextBlock * L.allocationQuantumBytes ≤ later.highWaterBytes)
    (shallow : ∀ written ∈ page, written.level ≤ maximumTreeLevel) :
    ∃ written, page = Option.some written ∧
      Holds Prod.fst (orderedPages L later (store.write next.extents)) written.level
        written.reference new.entries ∧
      (written.level ≠ 0 → ∃ children, orderedChildren L later (store.write next.extents)
        written.level written.reference = .ok children ∧ 2 ≤ children.length) := by
  obtain ⟨edited, written, edit, rfl, persisted⟩ := commitOrderedTree_ok some committed
  have nonempty : ∀ tree : MutableRoot, tree.tree.pairs = new.entries → tree.tree.values ≠ [] := by
    intro tree pairs_eq none
    rw [MutableTree.pairs, none] at pairs_eq
    exact some pairs_eq.symm
  obtain ⟨sound, holds⟩ := begin_sound loaded
  -- the changes are the same whatever store the tree is compared with
  obtain ⟨same, edit', soundEdited, pairs_eq, -⟩ := editOrderedTree_spec
    (sound_mono ⟨le_rfl, le_rfl⟩ (fun _ _ _ found => found) sound) holds
    fun entry member => within.put member
  obtain rfl : same = edited := Option.some.inj (edit'.symm.trans edit)
  have wrote := persistTree_writes (orderedWriter_basics input) soundEdited
    (nonempty _ pairs_eq) turns state
  rw [persisted] at wrote
  have accounts : next.Accounts L input := wrote.1.accounts fresh.accounts
  obtain ⟨again, edit'', soundAfter, pairs_eq, wide⟩ := editOrderedTree_spec
    (sound_mono newer (accounts.within following store) sound) holds
    fun entry member => within.put member
  obtain rfl : again = same := Option.some.inj (edit''.symm.trans edit)
  have whole := persistTree_holds (orderedWriter_spec publishes) publishes soundAfter
    (nonempty _ pairs_eq) (wide some) fresh.bounded persisted (accounts.settled inside store)
    (shallow written rfl)
  rw [pairs_eq] at whole
  exact ⟨written, rfl, whole⟩

/-- Committing the ordered keyspace replaces the map.  From any tree that loads, the changes index
no child or entry out of range; and when the commit completes with a root of a supported level, the
new root loads as exactly the new map and is null just when that map is empty. -/
theorem commitOrderedTree_replaces {load : OrderedLoad} {root : MutableRoot}
    {new : OrderedKeyValues} {turns : Nat}
    (loaded : loadExactValues L format store reference = .ok (load, root))
    (within : OrderedKeyValues.Within L new) (fresh : state.Fresh L)
    (following : input.generation = format.generation + 1) :
    commitOrderedTree L input turns load.values new root state ≠ .error .outOfRange ∧
      ∀ page next later,
        commitOrderedTree L input turns load.values new root state = .ok (page, next) →
        input.Publishes later → format.Before later →
        next.pool.nextBlock * L.allocationQuantumBytes ≤ later.highWaterBytes →
        (∀ written ∈ page, written.level ≤ maximumTreeLevel) →
        (∃ result again, loadExactValues L later (store.write next.extents) (rootReference page) =
            .ok (result, again) ∧ result.values = new) ∧
          ((rootReference page).null = true ↔ new.entries = []) := by
  refine ⟨commitOrderedTree_ne_outOfRange loaded within, ?_⟩
  intro page next later committed publishes newer inside shallow
  by_cases none : new.entries = []
  · rw [commitOrderedTree, if_pos none] at committed
    cases committed
    refine ⟨⟨{ values := Keyed.empty, reachable := [] }, MutableRoot.empty, rfl, ?_⟩, ?_⟩
    · exact Keyed.ext none.symm
    · exact iff_of_true rfl none
  · obtain ⟨written, rfl, holds, branches⟩ := commitOrderedTree_holds loaded within fresh none
      committed publishes newer (by omega) inside shallow
    obtain ⟨result, again, found, entries⟩ := loadExactValues_holds holds (by
      intro children isInner inner
      obtain ⟨others, isInner', two⟩ := branches inner
      rw [isInner] at isInner'
      cases isInner'
      exact two)
    refine ⟨⟨result, again, found, Keyed.ext entries⟩, iff_of_false ?_ none⟩
    have present := ((orderedWriter_spec publishes).fits holds).2
    exact fun null => Bool.false_ne_true (present.symm.trans null)

/-- A tree of two leaves: a value is changed, the key of a leaf is erased and another one is put, and
the root becomes a leaf. -/
theorem commitOrderedTree_replaces_two_leaves :
    let new : OrderedKeyValues := ⟨[([1], [7]), ([3], [])], by decide⟩
    let input : CommitInput := { generation := 2, compressed := fun _ _ => none }
    let state : CommitState :=
      { pool := { freeRuns := [], nextBlock := 256 }, extents := [], retainedReferences := [] }
    ∃ store load root written next,
      loadExactValues .default ⟨1, 2 ^ 20⟩ store (pageReference 28) = .ok (load, root) ∧
      load.values.entries = [([1], []), ([2], [])] ∧
      commitOrderedTree .default input 1 load.values new root state = .ok (some written, next) ∧
      written.level = 0 ∧
      ∀ later, input.Publishes later → OpenedFormat.Before ⟨1, 2 ^ 20⟩ later →
        next.pool.nextBlock * 4096 ≤ later.highWaterBytes →
        (∃ result again, loadExactValues .default later (store.write next.extents)
            written.reference = .ok (result, again) ∧ result.values = new) ∧
          (written.reference.null = true ↔ new.entries = []) := by
  intro new input state
  obtain ⟨first, left⟩ := encodeLeafPage_single 1
  obtain ⟨second, right⟩ := encodeLeafPage_single 2
  obtain ⟨load, loaded, entries⟩ := loadExactValues_slack left right
  have within : OrderedKeyValues.Within .default new := by
    intro entry member
    rcases List.mem_pair.1 member with rfl | rfl <;> decide
  have fresh : state.Fresh .default := ⟨rfl, ⟨by decide, by simp [state]⟩, by simp [state]⟩
  have isOld : load.values = ⟨[([1], []), ([2], [])], by decide⟩ := Keyed.ext entries
  obtain ⟨written, next, committed, isLevel⟩ : ∃ written next, commitOrderedTree .default input 1
      load.values new ⟨1, slackTree⟩ state = .ok (some written, next) ∧ written.level = 0 := by
    rw [isOld]
    exact ⟨_, _, rfl, rfl⟩
  refine ⟨_, load, _, written, next, loaded, entries, committed, isLevel,
    fun later publishes newer inside => ?_⟩
  refine (commitOrderedTree_replaces loaded within fresh rfl).2 (some written) next later committed
    publishes newer inside ?_
  rintro _ ⟨⟩
  rw [isLevel]
  decide

end Miare
