import Miare.Allocator.Proofs.Pages

/-!
# The order of loaded runs

The loader compares each run with the end of the run before it, inside a leaf and from one subtree
to the next.  The end is a 64-bit sum, so the comparison means what it says when no run reaches
beyond the last block number.
-/

namespace Miare

open Misc

variable {L : Limits} {format : OpenedFormat} {store : ExtentStore} {retired : Bool}
  {runs : List ExtentRun} {payload : Bytes} {reachable after : List ExtentReference}
  {reference : ExtentReference}

/-! ## Runs as intervals -/

/-- `run` lies before `next` in an index, with a gap when both retired together. -/
def ExtentRun.Precedes (run next : ExtentRun) : Prop :=
  run.retirementGeneration < next.retirementGeneration ∨
    run.retirementGeneration = next.retirementGeneration ∧ run.start + run.count < next.start

theorem ExtentRun.Precedes.trans {first second third : ExtentRun} (before : first.Precedes second)
    (behind : second.Precedes third) : first.Precedes third := by
  unfold ExtentRun.Precedes at *
  omega

instance : Trans ExtentRun.Precedes ExtentRun.Precedes ExtentRun.Precedes :=
  ⟨ExtentRun.Precedes.trans⟩

/-- The end of a run is a block number. -/
def ExtentRun.InWord (run : ExtentRun) : Prop := run.start + run.count ≤ uint64Max

theorem ExtentRun.InWord.follows_iff {run next : ExtentRun} (inWord : run.InWord) :
    run.follows next ↔ run.Precedes next := by
  unfold ExtentRun.InWord uint64Max at inWord
  unfold ExtentRun.follows ExtentRun.Precedes
  rw [Nat.mod_eq_of_lt (by omega)]
  omega

theorem isChain_follows_iff (inWord : ∀ run ∈ runs, run.InWord) :
    runs.IsChain ExtentRun.follows ↔ runs.IsChain ExtentRun.Precedes := by
  induction runs with
  | nil => simp
  | cons run rest ih =>
    obtain ⟨here, others⟩ := List.forall_mem_cons.1 inWord
    rw [List.isChain_cons, List.isChain_cons, ih others]
    simp only [here.follows_iff]

/-! ## What the pages store -/

/-- The run that an entry of a leaf stores. -/
def storedRun (retired : Bool) (shared entry : Bytes) : ExtentRun :=
  runOfKey retired (shared ++ slice entry 4 (allocatorKeyLength retired - shared.length))
    (readLittleEndian 8 entry (4 + (allocatorKeyLength retired - shared.length)))

/-- The child that an entry of an internal page stores. -/
def storedChild (retired : Bool) (shared entry : Bytes) : ExtentReference :=
  decodeExtentReference (slice entry (4 + (allocatorKeyLength retired - shared.length)) 32)

/-- The children that an internal page stores. -/
def storedChildren (retired : Bool) (payload : Bytes) : List ExtentReference :=
  decodeExtentReference (readPageHeader payload).leftmostChild ::
    (pageEntries payload).map (storedChild retired (sharedPrefix payload (readPageHeader payload)))

/-- The runs that the leaves below a page store. -/
def storedRuns (store : ExtentStore) (retired : Bool) : (level : Nat) → Bytes → List ExtentRun
  | 0, payload =>
    (pageEntries payload).map (storedRun retired (sharedPrefix payload (readPageHeader payload)))
  | level + 1, payload => (storedChildren retired payload).flatMap fun child =>
    ((store child).map fun extent => storedRuns store retired level extent.payload).getD []

/-- The runs stored in the pages of an index. -/
def indexRuns (store : ExtentStore) (retired : Bool) (reference : ExtentReference) :
    List ExtentRun :=
  ((store reference).map fun extent =>
    storedRuns store retired (readPageHeader extent.payload).level extent.payload).getD []

/-! ## What the loader has compared -/

/-- Runs that an index may list in this order. -/
structure RunsFollow (retired : Bool) (runs : List ExtentRun) : Prop where
  chain : runs.IsChain ExtentRun.follows
  stored : ∀ run ∈ runs, run.Stored retired

theorem RunsFollow.append {front back : List ExtentRun} (first : RunsFollow retired front)
    (second : RunsFollow retired back)
    (join : ∀ last ∈ front.getLast?, ∀ next ∈ back.head?, last.follows next) :
    RunsFollow retired (front ++ back) :=
  ⟨List.isChain_append.2 ⟨first.chain, second.chain, join⟩, fun run member =>
    (List.mem_append.1 member).elim (first.stored run) (second.stored run)⟩

theorem decodeAllocatorRun_ok {shared entry : Bytes} {runs : List (Bytes × ExtentRun)}
    {item : Bytes × ExtentRun} (decoded : decodeAllocatorRun retired shared runs entry = .ok item) :
    item.2 = storedRun retired shared entry ∧ item.2.Stored retired ∧
      ∀ last ∈ runs.getLast?, last.2.follows item.2 := by
  obtain ⟨suffix, viewed, decoded⟩ := bind_eq_ok.1 decoded
  obtain ⟨blockCount, read, decoded⟩ := bind_eq_ok.1 decoded
  obtain ⟨⟨blocks, follows⟩, decoded⟩ := require_bind_eq_ok.1 decoded
  cases decoded
  refine ⟨?_, ?_, follows⟩
  · rw [storedRun, (view_eq_ok.1 viewed).2, (readField_eq_ok.1 read).2]
  · have word (bytes : Bytes) (offset : Nat) : readLittleEndian 8 bytes offset < 2 ^ 64 :=
      readLittleEndian_lt.trans_eq (by norm_num)
    refine ⟨word _ _, ?_, blocks, ?_, ?_⟩
    · rw [runOfKey, ← (readField_eq_ok.1 read).2]
      exact word _ _
    · dsimp only [runOfKey]
      split
      · exact word _ _
      · decide
    · rintro rfl
      rfl

theorem decodeAllocatorChild_ok {shared entry : Bytes} {items : List (Bytes × ExtentReference)}
    {item : Bytes × ExtentReference}
    (decoded : decodeAllocatorChild retired shared items entry = .ok item) :
    item.2 = storedChild retired shared entry := by
  obtain ⟨suffix, -, decoded⟩ := bind_eq_ok.1 decoded
  obtain ⟨bytes, viewed, decoded⟩ := bind_eq_ok.1 decoded
  obtain ⟨-, decoded⟩ := require_bind_eq_ok.1 decoded
  cases decoded
  rw [storedChild, (view_eq_ok.1 viewed).2]

/-- A loop that collects what the entries store. -/
theorem foldlM_collectStep_stored {α β : Type} {value : α → β} {stored : Bytes → β}
    {decode : List α → Bytes → Except LoadError α}
    (decoded : ∀ items entry item, decode items entry = .ok item → value item = stored entry)
    {entries : List Bytes} {front items : List α}
    (folded : entries.foldlM (collectStep decode) front = .ok items) :
    items.map value = front.map value ++ entries.map stored := by
  induction entries generalizing front with
  | nil =>
    cases folded
    rw [List.map_nil, List.append_nil]
  | cons entry rest ih =>
    rw [List.foldlM_cons] at folded
    obtain ⟨next, stepped, folded⟩ := bind_eq_ok.1 folded
    obtain ⟨item, isItem, rfl⟩ := collectStep_eq_ok.1 stepped
    rw [ih folded, List.map_append, List.append_assoc, List.map_singleton,
      decoded _ _ _ isItem]
    rfl

/-- A loop that compares each item with the last one. -/
theorem foldlM_collectStep_chain {α : Type} {R : α → α → Prop} {Q : α → Prop}
    {decode : List α → Bytes → Except LoadError α}
    (decoded : ∀ items entry item, decode items entry = .ok item →
      Q item ∧ ∀ last ∈ items.getLast?, R last item)
    {entries : List Bytes} {front items : List α} (chain : front.IsChain R)
    (good : ∀ item ∈ front, Q item)
    (folded : entries.foldlM (collectStep decode) front = .ok items) :
    items.IsChain R ∧ ∀ item ∈ items, Q item := by
  induction entries generalizing front with
  | nil =>
    cases folded
    exact ⟨chain, good⟩
  | cons entry rest ih =>
    rw [List.foldlM_cons] at folded
    obtain ⟨next, stepped, folded⟩ := bind_eq_ok.1 folded
    obtain ⟨item, isItem, rfl⟩ := collectStep_eq_ok.1 stepped
    obtain ⟨here, above⟩ := decoded front entry item isItem
    refine ih (List.isChain_append.2 ⟨chain, List.isChain_singleton _, ?_⟩) ?_ folded
    · rintro last isLast _ ⟨⟩
      exact above last isLast
    · exact List.forall_mem_append.2 ⟨good, List.forall_mem_singleton.2 here⟩

theorem decodeAllocatorIndexLeaf_ok (decoded : decodeAllocatorIndexLeaf retired payload = .ok runs)
    :
    RunsFollow retired runs ∧ runs = storedRuns store retired 0 payload := by
  obtain ⟨-, decoded⟩ := require_bind_eq_ok.1 decoded
  obtain ⟨-, decoded⟩ := require_bind_eq_ok.1 decoded
  obtain ⟨⟨items, stop⟩, walked, decoded⟩ := bind_eq_ok.1 decoded
  obtain ⟨-, decoded⟩ := require_bind_eq_ok.1 decoded
  obtain rfl : items.map Prod.snd = runs := Except.ok.inj decoded
  obtain ⟨-, folded, -⟩ := walkAllocatorSlots_named walked
  obtain ⟨chain, stored⟩ := @foldlM_collectStep_chain _ (fun last item => last.2.follows item.2)
    (fun item => item.2.Stored retired) _ (fun _ _ _ isItem => (decodeAllocatorRun_ok isItem).2) _ _
    _ List.isChain_nil (by simp) folded
  refine ⟨⟨(List.isChain_map _).2 chain, List.forall_mem_map.2 stored⟩, ?_⟩
  rw [@foldlM_collectStep_stored _ _ Prod.snd
    (storedRun retired (sharedPrefix payload (readPageHeader payload))) _
    (fun _ _ _ isItem => (decodeAllocatorRun_ok isItem).1) _ _ _ folded, List.map_nil,
    List.nil_append, storedRuns, pageEntries]

theorem allocatorChildren_stored {children : List (Bytes × ExtentReference)}
    (decoded : allocatorChildren retired payload = .ok children) :
    children.map Prod.snd = storedChildren retired payload := by
  obtain ⟨-, decoded⟩ := require_bind_eq_ok.1 decoded
  obtain ⟨⟨separators, stop⟩, walked, decoded⟩ := bind_eq_ok.1 decoded
  obtain ⟨-, decoded⟩ := require_bind_eq_ok.1 decoded
  cases decoded
  obtain ⟨-, folded, -⟩ := walkAllocatorSlots_named walked
  rw [List.map_cons, @foldlM_collectStep_stored _ _ Prod.snd
    (storedChild retired (sharedPrefix payload (readPageHeader payload))) _
    (fun _ _ _ => decodeAllocatorChild_ok) _ _ _ folded, List.map_nil, List.nil_append,
    storedChildren, pageEntries]

theorem loadAllocatorSubtrees_ok {load : ExtentReference → List ExtentReference →
      Except LoadError (List ExtentRun × List ExtentReference)}
    {below : ExtentReference → List ExtentRun}
    (each : ∀ child reachable runs after, load child reachable = .ok (runs, after) →
      RunsFollow retired runs ∧ runs = below child) {first : Bool} {all : List ExtentRun}
    {children : List (Bytes × ExtentReference)} (before : RunsFollow retired runs)
    (loaded : loadAllocatorSubtrees retired load first runs children reachable = .ok (all, after)) :
    RunsFollow retired all ∧ all = runs ++ (children.map Prod.snd).flatMap below := by
  induction children generalizing first runs reachable with
  | nil =>
    cases loaded
    exact ⟨before, (List.append_nil _).symm⟩
  | cons entry rest ih =>
    obtain ⟨separator, child⟩ := entry
    rw [loadAllocatorSubtrees] at loaded
    obtain ⟨⟨childRuns, next⟩, here, loaded⟩ := bind_eq_ok.1 loaded
    obtain ⟨-, loaded⟩ := require_bind_eq_ok.1 loaded
    obtain ⟨join, loaded⟩ := require_bind_eq_ok.1 loaded
    obtain ⟨follow, rfl⟩ := each _ _ _ _ here
    obtain ⟨whole, rfl⟩ := ih (before.append follow join) loaded
    exact ⟨whole, List.append_assoc _ _ _⟩

theorem openAllocatorPage_stored {expectedLevel : Option Nat}
    (opened : openAllocatorPage L format store retired expectedLevel reference = .ok payload) :
    ∃ context, store reference = some { context, payload } := by
  obtain ⟨_, -, opened⟩ := bind_eq_ok.1 opened
  obtain ⟨kind, -, opened⟩ := bind_eq_ok.1 opened
  obtain ⟨-, opened⟩ := require_bind_eq_ok.1 opened
  obtain ⟨found, read, opened⟩ := bind_eq_ok.1 opened
  obtain ⟨-, opened⟩ := require_bind_eq_ok.1 opened
  cases opened
  exact ⟨_, (readAuthenticatedExtent_eq_ok.1 read).stored⟩

theorem loadAllocatorLevel_ok {level : Nat}
    (loaded : loadAllocatorLevel L format store retired level payload reachable =
      .ok (runs, after)) :
    RunsFollow retired runs ∧ runs = storedRuns store retired level payload := by
  induction level generalizing payload runs reachable after with
  | zero =>
    rw [loadAllocatorLevel] at loaded
    obtain ⟨found, decoded, loaded⟩ := bind_eq_ok.1 loaded
    cases loaded
    exact decodeAllocatorIndexLeaf_ok decoded
  | succ level ih =>
    rw [loadAllocatorLevel] at loaded
    obtain ⟨children, decoded, loaded⟩ := bind_eq_ok.1 loaded
    rw [storedRuns, ← allocatorChildren_stored decoded]
    refine loadAllocatorSubtrees_ok (fun child reached found last inner => ?_)
      ⟨List.isChain_nil, by simp⟩ loaded
    obtain ⟨page, opened, inner⟩ := bind_eq_ok.1 inner
    obtain ⟨context, isStored⟩ := openAllocatorPage_stored opened
    rw [isStored]
    exact ih inner

/-! ## A root that is a leaf -/

theorem openAllocatorPage_read {kind : Nat}
    (read : ReadExtent L format store reference { unitKind := kind } none payload)
    (known : kind = allocatorInternalKind retired ∨ kind = allocatorLeafKind retired)
    (shallow : (readPageHeader payload).level ≤ maximumTreeLevel)
    (leaf : kind = allocatorLeafKind retired ↔ (readPageHeader payload).level = 0)
    {expectedLevel : Option Nat}
    (expected : ∀ level ∈ expectedLevel, (readPageHeader payload).level = level) :
    openAllocatorPage L format store retired expectedLevel reference = .ok payload := by
  have isKind : readUnitKind store reference = .ok kind := by
    rw [readUnitKind, read.stored]
  rw [openAllocatorPage, read.valid, ok_bind, isKind, ok_bind, require_of known, ok_bind,
    readAuthenticatedExtent_eq_ok.2 read, ok_bind]
  dsimp only
  rw [require_of ⟨expected, shallow, leaf⟩, ok_bind]
  rfl

theorem loadAllocatorIndexPage_leaf
    (encoded : encodeAllocatorIndexLeaf L retired runs = some payload)
    (follow : RunsFollow retired runs)
    (read : ReadExtent L format store reference { unitKind := allocatorLeafKind retired } none
      payload) (reachable : List ExtentReference) :
    loadAllocatorIndexPage L format store retired reference reachable =
      .ok (runs, reachable ++ [reference]) := by
  obtain ⟨-, level, decoded⟩ := decodeAllocatorIndexLeaf_encode encoded follow.stored follow.chain
  have opened : openAllocatorPage L format store retired none reference = .ok payload :=
    openAllocatorPage_read read (Or.inr rfl) (by rw [level]; exact Nat.zero_le _)
      (iff_of_true rfl level) (by simp)
  rw [loadAllocatorIndexPage, opened, ok_bind, level, loadAllocatorLevel, decoded, ok_bind]
  rfl

/-- A root of four blocks behind the common region. -/
def smallRoot : ExtentReference :=
  { blockIndex := 32, blockCount := 4, encodedLength := 16384, creationGeneration := 1 }

/-- A database with one generation and room for the root. -/
def smallFormat : OpenedFormat := { generation := 1, highWaterBytes := 2 ^ 20 }

/-- A free index of one leaf at `smallRoot`. -/
def leafStore (runs : List ExtentRun) : ExtentStore := fun reference =>
  if reference = smallRoot then
    (encodeAllocatorIndexLeaf .default false runs).map fun payload =>
      { context := { unitKind := 8 }, payload }
  else none

theorem leafStore_loads (follow : RunsFollow false runs)
    (room : runs ≠ [] ∧ allocatorIndexUsedLength false runs ≤ Limits.default.pagePayloadBytes) :
    loadAllocatorIndexPage .default smallFormat (leafStore runs) false smallRoot [] =
      .ok (runs, [smallRoot]) := by
  have some : ∃ payload, encodeAllocatorIndexLeaf .default false runs = some payload := by
    rw [encodeAllocatorIndexLeaf, if_neg (by rw [not_or, Nat.not_lt]; exact room)]
    exact ⟨_, rfl⟩
  obtain ⟨payload, encoded⟩ := some
  have sized := (decodeAllocatorIndexLeaf_encode encoded follow.stored follow.chain).1
  refine loadAllocatorIndexPage_leaf encoded follow ⟨by decide, by decide, by simp, ?_, ?_, ?_⟩ []
  · exact ⟨fun _ => by decide, by simp, by decide⟩
  · rw [leafStore, if_pos rfl, encoded]
    rfl
  · exact ⟨by simp, fun _ => sized⟩

/-! ## True intervals -/

/-- Every run ends at a block number, and runs that retired together are disjoint, do not touch and
are listed in increasing order. -/
def TrueIntervals (runs : List ExtentRun) : Prop :=
  (∀ run ∈ runs, run.start + run.count ≤ uint64Max) ∧
    runs.Pairwise fun run next => run.retirementGeneration = next.retirementGeneration →
      run.start + run.count < next.start

/-- The loader returns what the pages store. -/
theorem loadAllocatorIndexPage_stored
    (loaded : loadAllocatorIndexPage L format store retired reference reachable =
      .ok (runs, after)) :
    indexRuns store retired reference = runs ∧ RunsFollow retired runs := by
  obtain ⟨payload, opened, loaded⟩ := bind_eq_ok.1 loaded
  obtain ⟨context, isStored⟩ := openAllocatorPage_stored opened
  obtain ⟨follow, isRuns⟩ := loadAllocatorLevel_ok loaded
  refine ⟨?_, follow⟩
  rw [indexRuns, isStored, isRuns]
  rfl

/-- The loaded runs are intervals exactly when no run that the pages of the index store reaches
beyond the last block number. -/
theorem loadAllocatorIndexPage_intervals_iff {reference : ExtentReference} {runs : List ExtentRun}
    {reachable after : List ExtentReference}
    (loaded : loadAllocatorIndexPage L format store retired reference reachable =
      .ok (runs, after)) :
    TrueIntervals runs ↔ ∀ run ∈ indexRuns store retired reference, run.InWord := by
  obtain ⟨same, follow⟩ := loadAllocatorIndexPage_stored loaded
  rw [same]
  refine ⟨fun intervals => intervals.1, fun inWord => ⟨inWord, ?_⟩⟩
  have sorted := ((isChain_follows_iff inWord).1 follow.chain).pairwise
  refine sorted.imp fun {run next} precedes generation => ?_
  rcases precedes with earlier | ⟨-, gap⟩
  · omega
  · exact gap

/-- Two free runs with a gap are stored and loaded as intervals. -/
theorem loadAllocatorIndexPage_intervals_gap :
    let runs : List ExtentRun := [{ start := 40, count := 2 }, { start := 43, count := 1 }]
    (∀ run ∈ indexRuns (leafStore runs) false smallRoot, run.InWord) ∧ TrueIntervals runs := by
  intro runs
  have follow : RunsFollow false runs := by
    refine ⟨by simp [runs, ExtentRun.follows], ?_⟩
    rintro run member
    rcases List.mem_pair.1 member with rfl | rfl <;> constructor <;> decide
  have loaded := leafStore_loads follow (by decide)
  have inWord : ∀ run ∈ indexRuns (leafStore runs) false smallRoot, run.InWord := by
    rw [(loadAllocatorIndexPage_stored loaded).1]
    simp [runs, ExtentRun.InWord, uint64Max]
  exact ⟨inWord, (loadAllocatorIndexPage_intervals_iff loaded).2 inWord⟩

/-- The last block number as the start of a run of two blocks: its end wraps to block one, and a
run from block five may follow it. -/
theorem loadAllocatorIndexPage_wraps :
    loadAllocatorIndexPage .default smallFormat
        (leafStore [{ start := 2 ^ 64 - 1, count := 2 }, { start := 5, count := 1 }]) false
        smallRoot [] =
      .ok ([{ start := 2 ^ 64 - 1, count := 2 }, { start := 5, count := 1 }], [smallRoot]) ∧
    ¬TrueIntervals [{ start := 2 ^ 64 - 1, count := 2 }, { start := 5, count := 1 }] := by
  refine ⟨leafStore_loads ⟨by simp [ExtentRun.follows], ?_⟩ (by decide), ?_⟩
  · rintro run member
    fin_cases member <;> constructor <;> decide
  · rintro ⟨inWord, -⟩
    have first := inWord _ List.mem_cons_self
    simp [uint64Max] at first

end Miare
