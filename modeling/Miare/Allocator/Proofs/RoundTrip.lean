import Miare.Allocator.Proofs.Order
import Miare.Tree.Proofs.Persist
import Miare.Tree.Proofs.Rows

/-!
# An allocator index is read back

The pages that `persistAllocatorIndex` writes lead `loadAllocatorIndexPage` to the runs they were
written for, and to no other page.
-/

namespace Miare

open Misc

variable {L : Limits} {format : OpenedFormat} {store : ExtentStore} {retired : Bool} {σ : Type*}

/-! ## Pages in the file -/

/-- The page stands in the file where it was placed. -/
structure MetadataExtent.PageStored (L : Limits) (format : OpenedFormat) (store : ExtentStore)
    (extent : MetadataExtent) : Prop where
  placed : extent.reference.Placed L format
  span : extent.reference.blockCount ≤ L.pageBlocks ∧
    extent.reference.blockCount = L.minimalBlocks extent.reference.encodedLength
  stored : store extent.reference =
    some { context := { unitKind := extent.kind }, payload := extent.payload }

theorem MetadataExtent.PageStored.read {extent : MetadataExtent}
    (stored : extent.PageStored L format store) (sized : extent.payload.length = L.pagePayloadBytes) :
    ReadExtent L format store extent.reference { unitKind := extent.kind } none extent.payload where
  present := stored.placed.not_null
  valid := validateExtentReference_placed stored.placed
  framable := by simp
  span := ⟨fun _ => stored.span.1, by simp, stored.span.2⟩
  stored := stored.stored
  sized := ⟨by simp, fun _ => sized⟩

/-! ## Rows of pages -/

/-- The loader finds these runs below a page of the given level, and reaches these pages. -/
def IndexLoads (L : Limits) (format : OpenedFormat) (store : ExtentStore) (retired : Bool)
    (level : Nat) (reference : ExtentReference) (runs : List ExtentRun)
    (pages : List ExtentReference) : Prop :=
  ∀ reachable, (do
    let payload ← openAllocatorPage L format store retired (some level) reference
    loadAllocatorLevel L format store retired level payload (reachable ++ [reference])) =
      .ok (runs, reachable ++ pages)

/-- A root is loaded without a level to expect. -/
theorem IndexLoads.root {level : Nat} {reference : ExtentReference} {runs : List ExtentRun}
    {pages : List ExtentReference}
    (loads : IndexLoads L format store retired level reference runs pages)
    (reachable : List ExtentReference) :
    loadAllocatorIndexPage L format store retired reference reachable =
      .ok (runs, reachable ++ pages) := by
  obtain ⟨payload, opened, loaded⟩ := bind_eq_ok.1 (loads reachable)
  obtain ⟨_, valid, opened⟩ := bind_eq_ok.1 opened
  obtain ⟨kind, isKind, opened⟩ := bind_eq_ok.1 opened
  obtain ⟨known, opened⟩ := require_bind_eq_ok.1 opened
  obtain ⟨found, read, opened⟩ := bind_eq_ok.1 opened
  obtain ⟨⟨expected, shallow, leaf⟩, opened⟩ := require_bind_eq_ok.1 opened
  obtain rfl : found = payload := Except.ok.inj opened
  have isLevel : (readPageHeader found).level = level := expected level rfl
  have root : openAllocatorPage L format store retired none reference = .ok found :=
    openAllocatorPage_read (readAuthenticatedExtent_eq_ok.1 read) known shallow leaf (by simp)
  rw [loadAllocatorIndexPage, root, ok_bind, isLevel]
  exact loaded

/-- The tree of an allocator index. -/
def indexCodec (L : Limits) (retired : Bool) : TreeCodec ExtentRun where
  role := allocatorIndexRole retired
  leafKind := allocatorLeafKind retired
  internalKind := allocatorInternalKind retired
  usedLength := allocatorIndexUsedLength retired
  encode := encodeAllocatorIndexLeaf L retired
  key := allocatorRunKey retired
  own := fun _ => []

section Rows

variable {level : Nat} {nodes : List PreparedTreeNode} {runs : List ExtentRun}
  {pages : List ExtentReference}

/-- What the loader finds below a page that can be read. -/
def IndexFound (L : Limits) (format : OpenedFormat) (store : ExtentStore) (retired : Bool) :
    Finding ExtentRun := fun level reference runs pages =>
  (reference.Fits ∧ reference.null = false) ∧
    IndexLoads L format store retired level reference runs pages

/-- The loop over the children of an internal page, behind those that were loaded before. -/
theorem indexRow_subtrees
    (row : LoadedRow (allocatorRunKey retired) (IndexFound L format store retired) level nodes runs
      pages)
    {before : List ExtentRun} (chain : (before ++ runs).IsChain ExtentRun.follows)
    (reachable : List ExtentReference) :
    loadAllocatorSubtrees retired (fun child reachable => do
        let payload ← openAllocatorPage L format store retired (some level) child
        loadAllocatorLevel L format store retired level payload (reachable ++ [child])) false before
        (nodes.map PreparedTreeNode.entry) reachable =
      .ok (before ++ runs, reachable ++ pages) := by
  induction row generalizing before reachable with
  | nil => simp [loadAllocatorSubtrees]
  | @cons node nodes run runs others pages rest isLevel minimum here row ih =>
    rw [← List.append_assoc] at chain
    have join := (List.isChain_append.1 (List.isChain_append.1 chain).1).2.2
    rw [List.map_cons, PreparedTreeNode.entry, loadAllocatorSubtrees, here.2, ok_bind]
    dsimp only
    rw [require_of ⟨List.cons_ne_nil _ _, Or.inr (by rw [minimum]; rfl)⟩, ok_bind,
      require_of join, ok_bind, ih chain, List.append_assoc, List.append_assoc]

/-- An internal page over a row of children. -/
theorem indexRow_parent {leftmost : PreparedTreeNode} {rest : List PreparedTreeNode}
    (row : LoadedRow (allocatorRunKey retired) (IndexFound L format store retired) level
      (leftmost :: rest) runs pages)
    (chain : runs.IsChain ExtentRun.follows) (shallow : level + 1 ≤ maximumTreeLevel)
    {reference : ExtentReference} {payload : Bytes}
    (encoded : encodeInternalPage L (allocatorIndexRole retired) (leftmost :: rest) = some payload)
    (stored : MetadataExtent.PageStored L format store
      { reference, kind := allocatorInternalKind retired, payload }) :
    IndexLoads L format store retired (level + 1) reference runs (reference :: pages) := by
  have children := row.node
  have isLevel : leftmost.level = level := (children leftmost List.mem_cons_self).1
  obtain ⟨sized, header, isChildren⟩ := allocatorChildren_encode encoded
    (by rw [isLevel]; unfold maximumTreeLevel at shallow; omega)
    (fun node member => by
      obtain ⟨-, ⟨run, -, minimum⟩, -⟩ := children node (List.mem_cons_of_mem _ member)
      rw [minimum]
      exact allocatorRunKey_length retired run)
    (fun node member => by
      obtain ⟨-, -, _, _, here⟩ := children node member
      exact here.1)
  rw [isLevel] at header
  have opened : openAllocatorPage L format store retired (some (level + 1)) reference =
      .ok payload :=
    openAllocatorPage_read (stored.read sized) (Or.inl rfl) (by rw [header]; exact shallow)
      (by rw [header]; cases retired <;> simp [allocatorInternalKind, allocatorLeafKind])
      (by rintro _ ⟨⟩; exact header)
  intro reachable
  rw [opened, ok_bind, loadAllocatorLevel, isChildren, ok_bind]
  -- the leftmost child has no separator
  cases row with
  | @cons _ _ run runs others pages below _ minimum here row =>
    rw [loadAllocatorSubtrees, here.2, ok_bind]
    dsimp only
    rw [require_of ⟨List.cons_ne_nil _ _, Or.inl rfl⟩, ok_bind, require_of (by simp), ok_bind,
      List.nil_append, indexRow_subtrees row chain]
    simp

end Rows

theorem RunsFollow.parts {front back : List ExtentRun}
    (follow : RunsFollow retired (front ++ back)) :
    RunsFollow retired front ∧ RunsFollow retired back := by
  obtain ⟨first, second, -⟩ := List.isChain_append.1 follow.chain
  obtain ⟨here, later⟩ := List.forall_mem_append.1 follow.stored
  exact ⟨⟨first, here⟩, second, later⟩

/-- The pages of an index lead to its runs. -/
theorem indexCodec_reader (word : format.generation ≤ uint64Max) :
    (indexCodec L retired).Reader L (RunsFollow retired) (MetadataExtent.PageStored L format store)
      (fun _ _ _ => True) (IndexFound L format store retired) where
  parts := RunsFollow.parts
  leaf := by
    intro page payload reference nonempty follow encoded stored
    obtain ⟨sized, header, decoded⟩ :=
      decodeAllocatorIndexLeaf_encode encoded follow.stored follow.chain
    have opened : openAllocatorPage L format store retired (some 0) reference = .ok payload :=
      openAllocatorPage_read (stored.read sized) (Or.inr rfl) (by rw [header]; exact Nat.zero_le _)
        (iff_of_true rfl header) (by rintro _ ⟨⟩; exact header)
    refine ⟨⟨stored.placed.fits word, stored.placed.not_null⟩, fun reachable => ?_⟩
    rw [opened, ok_bind, loadAllocatorLevel, decoded, ok_bind]
    simp [indexCodec]
  parent row follow shallow encoded stored :=
    ⟨⟨⟨stored.placed.fits word, stored.placed.not_null⟩,
      indexRow_parent row follow.chain shallow encoded stored⟩, trivial⟩

/-- The header of a written page says its level. -/
theorem indexCodec_headers (extents : List MetadataExtent) :
    (indexCodec L retired).Reader L (RunsFollow retired) (· ∈ extents) (fun _ _ _ => True)
      fun level reference _ _ => ∃ extent ∈ extents, extent.reference = reference ∧
        (readPageHeader extent.payload).level = level where
  parts := RunsFollow.parts
  leaf _ follow encoded stored :=
    ⟨_, stored, rfl, (decodeAllocatorIndexLeaf_encode encoded follow.stored follow.chain).2.1⟩
  parent row _ shallow encoded stored := by
    have isLevel := (row.node _ List.mem_cons_self).1
    refine ⟨⟨_, stored, rfl, ?_⟩, trivial⟩
    rw [encodeInternalPage_level (allocatorIndexRole_lt retired)
      (by rw [isLevel]; unfold maximumTreeLevel at shallow; omega) encoded]
    exact congrArg (· + 1) isLevel

/-! ## The whole index -/

/-- The runs of a free or a retired list: sorted by generation and start, not empty, apart within a
generation, and 64-bit numbers up to their ends. -/
structure CanonicalRuns (retired : Bool) (runs : List ExtentRun) : Prop where
  sorted : runs.Pairwise ExtentRun.Precedes
  blocks : ∀ run ∈ runs, run.count ≠ 0
  inWord : ∀ run ∈ runs, run.start + run.count ≤ uint64Max
  generation : ∀ run ∈ runs, run.retirementGeneration ≤ uint64Max
  free : retired = false → ∀ run ∈ runs, run.retirementGeneration = 0

section Index

variable {runs : List ExtentRun} {place : Placement σ} {written : σ → List MetadataExtent}

theorem CanonicalRuns.follow (canonical : CanonicalRuns retired runs) : RunsFollow retired runs := by
  refine ⟨(isChain_follows_iff canonical.inWord).2 canonical.sorted.isChain, fun run member => ?_⟩
  have inWord := canonical.inWord run member
  have generation := canonical.generation run member
  unfold uint64Max at inWord generation
  exact ⟨by omega, by omega, canonical.blocks run member, by omega,
    fun isFree => canonical.free isFree run member⟩

theorem length_le_square_of_nodup {pairs : List (Nat × Nat)} {bound : Nat} (distinct : pairs.Nodup)
    (below : ∀ pair ∈ pairs, pair.1 < bound ∧ pair.2 < bound) : pairs.length ≤ bound * bound := by
  have inside : pairs.toFinset ⊆ Finset.range bound ×ˢ Finset.range bound := by
    intro pair member
    rw [Finset.mem_product, Finset.mem_range, Finset.mem_range]
    exact below pair (List.mem_toFinset.1 member)
  have count := Finset.card_le_card inside
  rwa [List.toFinset_card_of_nodup distinct, Finset.card_product, Finset.card_range] at count

/-- There are no more runs than pairs of a generation and a start. -/
theorem CanonicalRuns.length_le (canonical : CanonicalRuns retired runs) :
    runs.length ≤ 4 ^ maximumTreeLevel := by
  have stored := canonical.follow.stored
  have distinct : (runs.map fun run => (run.retirementGeneration, run.start)).Nodup := by
    refine List.pairwise_map.2 (canonical.sorted.imp fun {run next} precedes same => ?_)
    rw [Prod.mk.injEq] at same
    unfold ExtentRun.Precedes at precedes
    omega
  have below : ∀ pair ∈ runs.map fun run => (run.retirementGeneration, run.start),
      pair.1 < 2 ^ 64 ∧ pair.2 < 2 ^ 64 := by
    intro pair member
    obtain ⟨run, inRuns, rfl⟩ := List.mem_map.1 member
    exact ⟨(stored run inRuns).generation, (stored run inRuns).start⟩
  have count := length_le_square_of_nodup distinct below
  rw [List.length_map] at count
  have pairs : 4 ^ maximumTreeLevel = 2 ^ 64 * 2 ^ 64 := by norm_num [maximumTreeLevel]
  rw [pairs]
  exact count

theorem allocatorRunKey_length_le (retired : Bool) (run : ExtentRun) :
    (allocatorRunKey retired run).length ≤ 16 := by
  cases retired <;> simp [allocatorRunKey]

theorem allocatorIndexUsedLength_single (run : ExtentRun) :
    allocatorIndexUsedLength retired [run] ≤ 160 := by
  have length := allocatorRunKey_length retired run
  simp only [allocatorIndexUsedLength, List.map_cons, List.map_nil, sharedPrefixLength,
    List.foldl_nil, List.length_singleton, pageLayoutBytes, length]
  cases retired <;> simp [allocatorKeyLength]

/-- An index can always be written. -/
theorem indexCodec_complete (nonempty : runs ≠ []) (place : Placement σ) (state : σ) :
    ∃ pages nodes middle,
      splitPages L.pagePayloadBytes (indexCodec L retired).usedLength runs = some pages ∧
      placePages place (indexCodec L retired).leafKind (indexCodec L retired).encode
        .allocatorLeafOverflow (indexCodec L retired).minimum (fun _ => 0) pages state =
          .ok (nodes, middle) ∧
      ∀ turns, nodes.length ≤ turns → ∃ root after,
        growRoot L (indexCodec L retired).role (indexCodec L retired).internalKind place turns nodes
          middle = .ok (root, after) := by
  have room := pagePayloadBytes_lower L
  refine (indexCodec L retired).complete (fun run _ => allocatorRunKey_length_le retired run)
    nonempty ?_ (fun run _ => (allocatorIndexUsedLength_single run).trans (by omega))
    (fun page some fits none => ?_) _ place state
  · simp [indexCodec, allocatorIndexUsedLength, sharedPrefixLength, pageLayoutBytes]
    omega
  · rw [indexCodec] at none fits
    dsimp only at none fits
    rw [encodeAllocatorIndexLeaf, if_neg] at none
    · cases none
    · rintro (empty | large)
      · exact some empty
      · exact Nat.not_lt.2 fits large

/-- Pages at fixed places one behind the other. -/
def placeInLine : Placement (List MetadataExtent) := fun extents payload kind =>
  ({ smallRoot with blockIndex := 32 + 4 * extents.length },
    extents ++ [{ reference := { smallRoot with blockIndex := 32 + 4 * extents.length }, kind,
                  payload }])

/-- The file that holds the written pages. -/
def writtenStore (extents : List MetadataExtent) : ExtentStore := fun reference =>
  (extents.find? fun extent => extent.reference = reference).map fun extent =>
    { context := { unitKind := extent.kind }, payload := extent.payload }

theorem smallRoot_placed : smallRoot.Placed .default smallFormat :=
  validateExtentReference_ok (by decide) (by decide)

theorem smallRoot_span : smallRoot.blockCount ≤ Limits.default.pageBlocks ∧
    smallRoot.blockCount = Limits.default.minimalBlocks smallRoot.encodedLength := by
  decide

/-- Neighbouring blocks that retired one after the other. -/
def retiredPair : List ExtentRun :=
  [{ start := 40, count := 2, retirementGeneration := 1 },
    { start := 42, count := 1, retirementGeneration := 2 }]

/-- Two runs need one leaf. -/
theorem persistAllocatorIndex_retiredPair : ∃ payload,
    persistAllocatorIndex .default true retiredPair placeInLine [] =
      .ok (smallRoot, [{ reference := smallRoot, kind := 10, payload }]) := by
  have split : splitPages Limits.default.pagePayloadBytes (allocatorIndexUsedLength true)
      retiredPair = some [retiredPair] := by decide +kernel
  have encoded : ∃ payload, encodeAllocatorIndexLeaf .default true retiredPair = some payload := by
    rw [encodeAllocatorIndexLeaf, if_neg (by decide)]
    exact ⟨_, rfl⟩
  obtain ⟨payload, encoded⟩ := encoded
  refine ⟨payload, ?_⟩
  rw [persistAllocatorIndex, if_neg (by decide), allocatorLeaves, split]
  dsimp only
  rw [placePages, encoded]
  rfl

/-- Every list of runs is written, under a root whose level the loader admits, and read back from
that root, through the pages that were written and no others. -/
theorem persistAllocatorIndex_roundTrip (canonical : CanonicalRuns retired runs)
    (records : place.Records written) (state : σ) :
    ∃ root after extents,
      persistAllocatorIndex L retired runs place state = .ok (root, after) ∧
      written after = written state ++ extents ∧
      (runs = [] → root = {} ∧ extents = []) ∧
      (runs ≠ [] →
        (∃ extent ∈ extents, extent.reference = root ∧
          (readPageHeader extent.payload).level ≤ maximumTreeLevel) ∧
        ∀ format store, format.generation ≤ uint64Max →
          (∀ extent ∈ extents, extent.PageStored L format store) →
          ∀ reachable, ∃ pages,
            loadAllocatorIndexPage L format store retired root reachable =
              .ok (runs, reachable ++ pages) ∧
            pages.Perm (extents.map MetadataExtent.reference)) := by
  by_cases empty : runs = []
  · refine ⟨{}, state, [], ?_, by simp, fun _ => ⟨rfl, rfl⟩, fun some => absurd empty some⟩
    rw [persistAllocatorIndex, if_pos empty]
  have follow := canonical.follow
  obtain ⟨pages, nodes, middle, split, placed, growth⟩ :=
    @indexCodec_complete L retired _ _ empty place state
  obtain ⟨root, after, grown⟩ := growth nodes.length le_rfl
  have high := (indexCodec L retired).height empty split placed grown
    (fun run _ => allocatorRunKey_length_le retired run) canonical.length_le
  obtain ⟨extents, isAfter, finds⟩ :=
    (indexCodec L retired).found_root empty split placed grown records high
  refine ⟨root.reference, after, extents, ?_, isAfter, fun none => absurd none empty,
    fun _ => ⟨?_, fun format store word stored reachable => ?_⟩⟩
  · rw [persistAllocatorIndex, if_neg empty, allocatorLeaves, show splitPages L.pagePayloadBytes
      (allocatorIndexUsedLength retired) runs = some pages from split]
    dsimp only
    rw [show placePages place (if retired then 10 else 8) (encodeAllocatorIndexLeaf L retired)
      .allocatorLeafOverflow (runsMinimum retired) (fun _ => 0) pages state = .ok (nodes, middle)
      from placed]
    dsimp only
    rw [show growRoot L (if retired then 5 else 4) (if retired then 9 else 7) place nodes.length
      nodes middle = .ok (root, after) from grown]
  · obtain ⟨⟨_, ⟨extent, member, reference, level⟩, -⟩, -⟩ :=
      finds (indexCodec_headers extents) (fun _ member => member) follow
    exact ⟨extent, member, reference, level ▸ high⟩
  · obtain ⟨⟨reached, found, same⟩, -⟩ := finds (indexCodec_reader word) stored follow
    have alone : runs.flatMap (indexCodec L retired).own = [] :=
      List.flatMap_eq_nil_iff.2 fun _ _ => rfl
    rw [alone, List.append_nil] at same
    exact ⟨reached, found.2.root reachable, same⟩

theorem persistAllocatorIndex_roundTrip_retired : ∃ extents,
    persistAllocatorIndex .default true retiredPair placeInLine [] = .ok (smallRoot, extents) ∧
      loadAllocatorIndexPage .default smallFormat (writtenStore extents) true smallRoot [] =
        .ok (retiredPair, [smallRoot]) := by
  obtain ⟨root, after, extents, wrote, isAfter, -, loaded⟩ :=
    @persistAllocatorIndex_roundTrip .default true _ retiredPair placeInLine id
      ⟨by simp [retiredPair, ExtentRun.Precedes], by simp [retiredPair],
        by simp [retiredPair, uint64Max], by simp [retiredPair, uint64Max], by simp⟩
      (fun _ _ _ => rfl) []
  obtain ⟨payload, evaluated⟩ := persistAllocatorIndex_retiredPair
  obtain ⟨rfl, rfl⟩ := Prod.mk.inj (Except.ok.inj (wrote.symm.trans evaluated))
  obtain rfl : [_] = extents := isAfter
  obtain ⟨pages, load, same⟩ := (loaded (by decide)).2 smallFormat
    (writtenStore [{ reference := smallRoot, kind := 10, payload }]) (by decide) (by
      intro extent member
      rw [List.mem_singleton.1 member]
      exact ⟨smallRoot_placed, smallRoot_span, rfl⟩) []
  obtain rfl := List.perm_singleton.1 same
  exact ⟨_, evaluated, load⟩

end Index

end Miare
