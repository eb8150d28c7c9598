import Miare.Blob.Proofs.Persist

/-!
# The loaded catalog holds the version that was written

`loadBlobCatalog` walks the entries of the catalog and adds a Blob for each.  The ids of a loaded
catalog strictly increase, so none is added twice, and each Blob is found under its id.
-/

namespace Miare

open Misc

variable {L : Limits} {format : OpenedFormat} {store : ExtentStore}

theorem loadBlobVersion_id {entry : FixedLeafEntry} {version : BlobVersion}
    (loaded : loadBlobVersion L format store entry = .ok version) :
    version.id.val = entry.key := by
  obtain ⟨id, decoded, loaded⟩ := bind_eq_ok.1 loaded
  obtain ⟨payload, -, loaded⟩ := bind_eq_ok.1 loaded
  rw [require_bind_eq_ok] at loaded
  obtain ⟨-, loaded⟩ := loaded
  obtain ⟨index, -, loaded⟩ := bind_eq_ok.1 loaded
  rw [require_bind_eq_ok, require_bind_eq_ok] at loaded
  obtain ⟨-, -, loaded⟩ := loaded
  obtain ⟨chunks, -, loaded⟩ := bind_eq_ok.1 loaded
  cases loaded
  unfold decodeBlobId at decoded
  split at decoded
  · cases decoded
    rfl
  · cases decoded

/-- One round of the loop, for a Blob that is not yet in the catalog. -/
theorem loadBlobStep_ok {state : BlobCatalogLoad} {entry : FixedLeafEntry} {version : BlobVersion}
    (loaded : loadBlobVersion L format store entry = .ok version)
    (absent : state.blobs.find version.id = none) :
    loadBlobStep L format store state entry = .ok
      { blobs := state.blobs.insertOrAssign version
        reachable := state.reachable ++ version.reachable.tail } := by
  rw [loadBlobStep, loaded, ok_bind, BlobCatalogLoad.emplace, absent]

/-- The loop over entries with different ids that all load: each Blob is found under its id, and the
others are as they were. -/
theorem foldlM_loadBlobStep {entries : List FixedLeafEntry} {state : BlobCatalogLoad}
    (distinct : Increasing FixedLeafEntry.key entries)
    (loads : ∀ entry ∈ entries, ∃ version, loadBlobVersion L format store entry = .ok version)
    (absent : ∀ entry ∈ entries, ∀ id : BlobId, id.val = entry.key → state.blobs.find id = none) :
    ∃ load, entries.foldlM (loadBlobStep L format store) state = .ok load ∧
      (∀ entry ∈ entries, ∀ version, loadBlobVersion L format store entry = .ok version →
        load.blobs.find version.id = some version) ∧
      ∀ id : BlobId, (∀ entry ∈ entries, id.val ≠ entry.key) →
        load.blobs.find id = state.blobs.find id := by
  induction entries generalizing state with
  | nil => exact ⟨state, rfl, by simp, fun _ _ => rfl⟩
  | cons entry rest ih =>
    obtain ⟨below, distinct⟩ := increasing_cons.1 distinct
    obtain ⟨version, loaded⟩ := loads entry List.mem_cons_self
    have isId := loadBlobVersion_id loaded
    have stepped := loadBlobStep_ok loaded (absent entry List.mem_cons_self version.id isId)
    obtain ⟨load, walked, found, kept⟩ := @ih
      { blobs := state.blobs.insertOrAssign version
        reachable := state.reachable ++ version.reachable.tail } distinct
      (fun other member => loads other (List.mem_cons_of_mem _ member)) (by
        intro other member id same
        have differs : id ≠ version.id := by
          rintro rfl
          exact (below other member).ne (isId.symm.trans same)
        rw [Keyed.find_insertOrAssign_ne _ differs]
        exact absent other (List.mem_cons_of_mem _ member) id same)
    refine ⟨load, by rw [List.foldlM_cons, stepped, ok_bind, walked], ?_, ?_⟩
    · intro other member again loadedAgain
      rcases List.mem_cons.1 member with rfl | later
      · rw [loaded] at loadedAgain
        cases loadedAgain
        rw [kept version.id fun other member => by
          rw [isId]
          exact (below other member).ne]
        exact Keyed.find_insertOrAssign _ _
      · exact found other later again loadedAgain
    · intro id differs
      obtain ⟨here, later⟩ := List.forall_mem_cons.1 differs
      rw [kept id later]
      refine Keyed.find_insertOrAssign_ne _ ?_
      rintro rfl
      exact here isId

/-- The keys of a catalog that loads strictly increase. -/
theorem catalog_increasing {root : ExtentReference} {catalog : FixedLoad} {tree : MutableRoot}
    (loaded : loadFixedTree L format store catalogRole root = .ok (catalog, tree)) :
    Increasing FixedLeafEntry.key catalog.entries := by
  rcases loadFixedTree_ok catalogRole_keys loaded with ⟨-, none, -⟩ | ⟨-, facts, pairs_eq, -⟩
  · rw [none]
    exact List.Pairwise.nil
  · rw [← increasing_fixedPairs, ← pairs_eq]
    exact facts.holds.pairwise

/-- A catalog all of whose Blobs load: `loadBlobCatalog` finds each of them under its id. -/
theorem loadBlobCatalog_finds {root : ExtentReference} {catalog : FixedLoad} {tree : MutableRoot}
    (newer : format.generation ≠ 1)
    (loaded : loadFixedTree L format store catalogRole root = .ok (catalog, tree))
    (loads : ∀ entry ∈ catalog.entries, ∃ version,
      loadBlobVersion L format store entry = .ok version) :
    ∃ load, loadBlobCatalog L format store root = .ok (load, tree) ∧
      ∀ entry ∈ catalog.entries, ∀ version, loadBlobVersion L format store entry = .ok version →
        load.blobs.find version.id = some version := by
  obtain ⟨load, walked, found, -⟩ := @foldlM_loadBlobStep L format store catalog.entries
    { blobs := Keyed.empty, reachable := catalog.reachable } (catalog_increasing loaded) loads
    (fun _ _ _ _ => rfl)
  refine ⟨load, ?_, found⟩
  rw [loadBlobCatalog, if_neg newer, loaded, ok_bind]
  dsimp only
  rw [walked, ok_bind]
  rfl

section RoundTrip

variable {input : CommitInput} {state : CommitState} {version : BlobVersion}

/-- Every staged version is written, and from every later publication whose catalog names its
manifest the loader returns its size and its chunks in order, and reaches exactly its manifest, the
pages of its chunk index and its chunks, each once. -/
theorem blobVersion_roundTrip (staged : version.Staged L input state)
    (newer : input.generation ≠ 1) :
    ∃ enough, ∀ turns, enough ≤ turns → ∃ committed next,
      persistBlobVersion L input turns version state = .ok (committed, next) ∧
      committed.reachable = committed.manifest :: (version.chunks ++
        (next.extents.drop state.extents.length).dropLast.map PreparedExactExtent.reference) ∧
      ∀ later after root catalog tree, input.Publishes later → next.Settled L later after →
        (∀ chunk ∈ version.chunks, chunk.Placed L later) →
        loadFixedTree L later after catalogRole root = .ok (catalog, tree) →
        { key := version.id.val, reference := committed.manifest } ∈ catalog.entries →
        (∀ entry ∈ catalog.entries, entry.key ≠ version.id.val →
          ∃ other, loadBlobVersion L later after entry = .ok other) →
        ∃ load loaded, loadBlobCatalog L later after root = .ok (load, tree) ∧
          load.blobs.find version.id = some loaded ∧ version.Returns committed loaded := by
  obtain ⟨enough, persists⟩ := @persistBlobVersion_complete L input version staged.count state
  refine ⟨enough, fun turns many => ?_⟩
  obtain ⟨committed, next, persisted⟩ := persists turns many
  refine ⟨committed, next, persisted, ?_, fun later after root catalog tree publishes settled placed
    loadedCatalog named others => ?_⟩
  · obtain ⟨indexed, written, isCommitted⟩ := persistBlobVersion_written staged persisted
    have longer := written.owns.extends_.extents.length_le
    rw [written.extents_eq, List.drop_append_of_le_length longer, List.dropLast_concat]
    exact congrArg BlobVersion.reachable isCommitted
  · obtain ⟨loaded, isLoaded, returns⟩ :=
      persistBlobVersion_loads staged persisted publishes settled placed
    have increasing := catalog_increasing loadedCatalog
    obtain ⟨load, walked, found⟩ := loadBlobCatalog_finds (by rw [publishes.generation]; exact newer)
      loadedCatalog fun entry member => by
        by_cases same : entry.key = version.id.val
        · rw [increasing.eq_of_key member named same]
          exact ⟨loaded, isLoaded⟩
        · exact others entry member same
    refine ⟨load, loaded, walked, ?_, returns⟩
    rw [← returns.id]
    exact found _ named loaded isLoaded

/-- A catalog with one Blob is a leaf. -/
theorem catalogLeaf_loads {later : OpenedFormat} {after : ExtentStore} {entry : FixedLeafEntry}
    {payload : Bytes} (publishes : input.Publishes later) (bounded : state.pool.Bounded L)
    (fits : entry.Fits 16) (placed : entry.reference.Placed L later)
    (encoded : encodeFixedLeafPage L 2 [entry] = some payload)
    (settled : (prepareExtent L input state payload 4).2.Settled L later after) :
    ∃ catalog tree, loadFixedTree L later after catalogRole
        (prepareExtent L input state payload 4).1 = .ok (catalog, tree) ∧
      catalog.entries = [entry] := by
  have page := prepareExtent_page publishes bounded (T := catalogRole) ⟨rfl, rfl⟩ settled rfl
    (encodeFixedLeafPage_length encoded)
  have leaf := fixedLeafEntries_encode catalogRole_keys encoded (by simp)
    (List.pairwise_singleton _ _) (by simpa using ⟨fits, placed⟩) page
  have holds : Holds Prod.fst (fixedPages L later after catalogRole) 0
      (prepareExtent L input state payload 4).1 [entry.pair] :=
    ⟨⟨_, leaf, rfl⟩, by simp, List.pairwise_singleton _ _⟩
  obtain ⟨catalog, tree, loaded, pairs_eq⟩ :=
    loadFixedTree_holds catalogRole_keys holds fun inner => absurd rfl inner
  refine ⟨catalog, _, loaded, eq_of_fixedPairs ?_ (by simpa using fits.reference) pairs_eq⟩
  rcases loadFixedTree_ok catalogRole_keys loaded with ⟨-, none, -⟩ | ⟨-, -, -, all⟩
  · rw [none] at pairs_eq
    cases pairs_eq
  · exact fun other member => (all other member).reference

end RoundTrip

/-! ## A Blob of two chunks in a new database -/

/-- A finished Blob of one byte more than a chunk. -/
def chunkedBlob : BlobVersion where
  id := ⟨List.replicate 16 2, List.length_replicate⟩
  size := 2 ^ 20 + 1
  generation := 2
  chunks := [⟨256, 257, 2 ^ 20 + 176, 2⟩, ⟨513, 1, 177, 2⟩]
  reachable := [⟨256, 257, 2 ^ 20 + 176, 2⟩, ⟨513, 1, 177, 2⟩]
  pending := true

/-- The first commit behind the creation of a database. -/
def firstCommit : CommitInput where
  generation := 2
  compressed := fun _ _ => none

def firstState : CommitState where
  pool := { freeRuns := [], nextBlock := 514 }
  extents := []
  retainedReferences := []

theorem chunkedBlob_staged : chunkedBlob.Staged .default firstCommit firstState := by
  have accounts : firstState.Accounts .default firstCommit :=
    ⟨⟨by decide, by simp [firstState]⟩, by simp [firstState], by simp [firstState]⟩
  refine ⟨by decide, by decide, by decide, accounts, fun x => ?_, by decide⟩
  simp only [firstState, chunkedBlob, List.map_nil, coverage_nil, coverage_cons, span, between,
    ExtentReference.first_eq, ExtentReference.size_eq]
  split_ifs <;> omega

/-- Its chunk index is one page of four blocks, and its manifest takes one. -/
theorem chunkedBlob_pool {turns : Nat} {committed : BlobVersion} {next : CommitState}
    (persisted : persistBlobVersion .default firstCommit turns chunkedBlob firstState =
      .ok (committed, next)) :
    committed.chunkRoot = ⟨514, 4, 2 ^ 14, 2⟩ ∧ next.pool = { freeRuns := [], nextBlock := 519 } := by
  obtain ⟨-, chunkRoot, indexed, index, placed, isCommitted⟩ := persistBlobVersion_ok persisted
  have split : splitPages Limits.default.pagePayloadBytes fixedLeafUsedLength
      (chunkEntries 0 chunkedBlob.chunks) = some [chunkEntries 0 chunkedBlob.chunks] := by
    decide +kernel
  obtain ⟨payload, encoded⟩ : ∃ payload, encodeFixedLeafPage .default 3
      (chunkEntries 0 chunkedBlob.chunks) = some payload := by
    refine Option.ne_none_iff_exists'.1 (encodeFixedLeafPage_fits ?_)
    decide +kernel
  have sized := encodeFixedLeafPage_length encoded
  unfold persistFixedTree at index
  rw [if_neg (by decide), split] at index
  dsimp only at index
  rw [placePages, encoded] at index
  dsimp only [placePages] at index
  rw [growRoot] at index
  obtain ⟨isRoot, isIndexed⟩ := Prod.mk.inj (Except.ok.inj index)
  have page : Limits.default.blocksFor (encodedExtentLength
      (preparedLength .default Limits.default.pagePayloadBytes none)) = 4 := by decide
  have manifest : Limits.default.blocksFor (encodedExtentLength
      (preparedLength .default blobManifestBytes none)) = 1 := by decide
  dsimp only [prepareOwnedExtent, sealExtent, firstCommit] at isRoot isIndexed
  rw [if_pos rfl, sized, page] at isRoot isIndexed
  have indexPool : indexed.pool = { freeRuns := [], nextBlock := 518 } := by
    rw [← isIndexed]
    rfl
  have isNext := congrArg (fun placed => placed.2.pool) placed
  dsimp only [prepareOwnedExtent, sealExtent] at isNext
  rw [if_neg Bool.false_ne_true, blobManifest_length, manifest, indexPool] at isNext
  exact ⟨(congrArg BlobVersion.chunkRoot isCommitted).trans isRoot.symm, isNext.symm⟩

/-- The catalog has this Blob alone. -/
theorem blobVersion_roundTrip_chunks :
    ∃ turns committed next later after root load tree loaded,
      persistBlobVersion .default firstCommit turns chunkedBlob firstState =
        .ok (committed, next) ∧
      committed.chunkRoot = ⟨514, 4, 2 ^ 14, 2⟩ ∧
      loadBlobCatalog .default later after root = .ok (load, tree) ∧
      load.blobs.find chunkedBlob.id = some loaded ∧ chunkedBlob.Returns committed loaded := by
  obtain ⟨enough, persists⟩ := blobVersion_roundTrip chunkedBlob_staged (by decide)
  obtain ⟨committed, next, persisted, -, loads⟩ := persists enough le_rfl
  obtain ⟨indexed, written, -⟩ := persistBlobVersion_written chunkedBlob_staged persisted
  have accounts := written.all.beside.accounts
  obtain ⟨isRoot, pool⟩ := chunkedBlob_pool persisted
  obtain ⟨payload, encoded⟩ : ∃ payload, encodeFixedLeafPage .default 2
      [{ key := chunkedBlob.id.val, reference := committed.manifest }] = some payload := by
    have room := pagePayloadBytes_lower .default
    refine Option.ne_none_iff_exists'.1 (encodeFixedLeafPage_fits ?_)
    rw [fixedLeafUsedLength_singleton, chunkedBlob.id.property]
    omega
  have grown := prepareExtent_extends .default firstCommit next payload 4
  have publishes : firstCommit.Publishes ⟨2, 2 ^ 22⟩ := ⟨rfl, by decide, by decide⟩
  have highWater : (prepareExtent .default firstCommit next payload 4).2.pool.nextBlock *
      Limits.default.allocationQuantumBytes ≤ 2 ^ 22 := by
    dsimp only [prepareExtent, firstCommit]
    rw [pool, encodeFixedLeafPage_length encoded]
    decide
  have settled : (prepareExtent .default firstCommit next payload 4).2.Settled .default
      ⟨2, 2 ^ 22⟩ _ := (prepareExtent_accounts accounts payload 4).settled highWater fun _ => none
  obtain ⟨read, fits⟩ := written.manifest_sealed.read publishes (settled.earlier grown) none
    (by intro isPage; cases isPage) (by simp)
  have placed := validateExtentReference_ok read.valid read.present
  obtain ⟨catalog, tree, loadedCatalog, entries⟩ := catalogLeaf_loads publishes accounts.bounded
    ⟨chunkedBlob.id.property, fits, read.present⟩ placed encoded settled
  have inside : ∀ chunk ∈ chunkedBlob.chunks, chunk.Placed .default ⟨2, 2 ^ 22⟩ := by
    simp only [chunkedBlob, List.forall_mem_cons, List.not_mem_nil, false_imp_iff, implies_true,
      and_true]
    constructor <;> constructor <;> decide
  obtain ⟨load, loaded, walked, found, returns⟩ := loads _ _ _ catalog tree publishes
    (settled.earlier grown) inside loadedCatalog (by rw [entries]; simp) (by
      intro entry member other
      rw [entries, List.mem_singleton] at member
      rw [member] at other
      exact absurd rfl other)
  exact ⟨enough, committed, next, _, _, _, load, tree, loaded, persisted, isRoot, walked, found,
    returns⟩

end Miare
