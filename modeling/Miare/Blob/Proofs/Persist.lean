import Miare.Blob.Persist
import Miare.Tree.Proofs.PersistFixed

/-!
# A Blob version comes back from its manifest and its chunk index

The loader finds the size and the chunks of a version that a commit has written, and reaches its
manifest, the pages of its chunk index and its chunks.
-/

namespace Miare

open Misc

variable {L : Limits} {input : CommitInput} {later : OpenedFormat} {after : ExtentStore}
  {state next : CommitState} {owner : Bytes} {chunks staged : List ExtentReference}
  {extent : PreparedExactExtent}

/-! ## Manifests -/

theorem blobManifest_length (id : BlobId) (generation size chunkCount : Nat)
    (chunkRoot : ExtentReference) :
    (encodeBlobManifest L id generation size chunkCount chunkRoot).length = blobManifestBytes := by
  simp [encodeBlobManifest, blobManifestFields, blobManifestMagic, id.property,
    encodeExtentReference_length, blobManifestBytes]

/-- A manifest is read as it was written. -/
theorem readBlobManifest_encode {id : BlobId} {generation size chunkCount : Nat}
    {chunkRoot : ExtentReference} (generation_lt : generation < 2 ^ 64) (size_lt : size < 2 ^ 64)
    (chunkCount_lt : chunkCount < 2 ^ 64) (fits : chunkRoot.Fits) :
    readBlobManifest (encodeBlobManifest L id generation size chunkCount chunkRoot) =
      { magic := blobManifestMagic, version := 1, flags := 0, length := blobManifestBytes
        id := id.val, generation, logicalLength := size, chunkSize := L.blobChunkBytes, chunkCount
        chunkRoot, reserved := List.replicate 32 0 } := by
  have chunk_lt : L.blobChunkBytes < 2 ^ 64 := L.chunk_upper.trans_lt (by decide)
  have whole := fields_flatten (blobManifestFields L id generation size chunkCount chunkRoot)
  have widths : (blobManifestFields L id generation size chunkCount chunkRoot).map List.length =
      [8, 2, 2, 4, 16, 8, 8, 8, 8, 32, 32] := by
    simp [blobManifestFields, blobManifestMagic, id.property, encodeExtentReference_length]
  rw [widths] at whole
  change fields (encodeBlobManifest L id generation size chunkCount chunkRoot) 0 _ = _ at whole
  simp only [fields, blobManifestFields, List.cons.injEq, Nat.reduceAdd, Nat.zero_add,
    and_true] at whole
  obtain ⟨magic, version, flags, length, isId, isGeneration, isSize, chunkSize, count, root,
    reserved⟩ := whole
  unfold readBlobManifest readLittleEndian
  rw [magic, version, flags, length, isId, isGeneration, isSize, chunkSize, count, root, reserved,
    ofLittleEndian_eight generation_lt, ofLittleEndian_eight size_lt, ofLittleEndian_eight chunk_lt,
    ofLittleEndian_eight chunkCount_lt, decodeExtentReference_encode fits]
  rfl

/-! ## Ordinals -/

theorem chunkEntries_references (ordinal : Nat) (chunks : List ExtentReference) :
    (chunkEntries ordinal chunks).map FixedLeafEntry.reference = chunks := by
  induction chunks generalizing ordinal with
  | nil => rfl
  | cons chunk rest ih => rw [chunkEntries, List.map_cons, ih]

theorem chunkEntries_length (ordinal : Nat) (chunks : List ExtentReference) :
    (chunkEntries ordinal chunks).length = chunks.length := by
  rw [← List.length_map FixedLeafEntry.reference, chunkEntries_references]

theorem mem_chunkEntries {ordinal : Nat} {entry : FixedLeafEntry}
    (member : entry ∈ chunkEntries ordinal chunks) :
    entry.reference ∈ chunks ∧ ∃ number, ordinal ≤ number ∧ number < ordinal + chunks.length ∧
      entry.key = toLittleEndian 8 number := by
  induction chunks generalizing ordinal with
  | nil => cases member
  | cons chunk rest ih =>
    rw [chunkEntries] at member
    rw [List.length_cons]
    rcases List.mem_cons.1 member with rfl | member
    · exact ⟨List.mem_cons_self, ordinal, le_rfl, by omega, rfl⟩
    · obtain ⟨inRest, number, low, high, isKey⟩ := ih member
      exact ⟨List.mem_cons_of_mem _ inRest, number, by omega, by omega, isKey⟩

theorem readLittleEndian_ordinal {number : Nat} (number_lt : number < 2 ^ 64) :
    readLittleEndian 8 (toLittleEndian 8 number) 0 = number := by
  have here := @readLittleEndian_here 8 0 number [] [] rfl (number_lt.trans_eq (by decide))
  simpa using here

/-- The entries are in the order of their ordinals, though not of their keys. -/
theorem chunkEntries_ordered {ordinal : Nat} (inWord : ordinal + chunks.length ≤ 2 ^ 64) :
    (chunkEntries ordinal chunks).Pairwise fun a b => ordinalLess a.key b.key := by
  induction chunks generalizing ordinal with
  | nil => exact .nil
  | cons chunk rest ih =>
    rw [List.length_cons] at inWord
    refine .cons (fun entry member => ?_) (ih (by omega))
    obtain ⟨-, number, low, high, isKey⟩ := mem_chunkEntries member
    rw [ordinalLess, isKey, readLittleEndian_ordinal (by omega), readLittleEndian_ordinal (by omega)]
    omega

theorem chunkReferences_chunkEntries {generation ordinal : Nat}
    (inWord : ordinal + chunks.length ≤ 2 ^ 64)
    (created : ∀ chunk ∈ chunks, chunk.creationGeneration = generation) :
    chunkReferences generation ordinal (chunkEntries ordinal chunks) = .ok chunks := by
  induction chunks generalizing ordinal with
  | nil => rfl
  | cons chunk rest ih =>
    rw [List.length_cons] at inWord
    obtain ⟨here, others⟩ := List.forall_mem_cons.1 created
    rw [chunkEntries, chunkReferences,
      require_of ⟨readLittleEndian_ordinal (by omega), here⟩, ok_bind, ih (by omega) others, ok_bind]
    rfl

theorem Limits.chunkCount_le (L : Limits) {size : Nat} (inside : size ≤ L.maxBlobBytes) :
    L.chunkCount size < 2 ^ 64 ∧ size < 2 ^ 64 := by
  have bound := L.fits_uint64.2.2.1
  have word : size < 2 ^ 64 := by
    unfold uint64Max at bound
    omega
  refine ⟨?_, word⟩
  unfold Limits.chunkCount
  have fewer := Nat.div_le_self (size - 1) L.blobChunkBytes
  split
  · decide
  · omega

/-! ## Extents of a Blob -/

/-- The extent was sealed on the way to the state. -/
def PreparedExactExtent.Sealed (L : Limits) (input : CommitInput) (last : CommitState)
    (extent : PreparedExactExtent) : Prop :=
  ∃ (state : CommitState) (offer : Option Nat), state.pool.Bounded L ∧
    (sealExtent L input offer extent.context extent.payload state).1 = extent.reference ∧
    (sealExtent L input offer extent.context extent.payload state).2.Extends last

theorem PreparedExactExtent.Sealed.mono {last : CommitState}
    (isSealed : extent.Sealed L input state) (grown : state.Extends last) :
    extent.Sealed L input last := by
  obtain ⟨start, offer, bounded, isReference, extended⟩ := isSealed
  exact ⟨start, offer, bounded, isReference, extended.trans grown⟩

theorem PreparedExactExtent.Sealed.created (isSealed : extent.Sealed L input state) :
    extent.reference.creationGeneration = input.generation := by
  obtain ⟨start, offer, -, isReference, -⟩ := isSealed
  rw [← isReference]
  rfl

/-- What was sealed can be read once the commit is published. -/
theorem PreparedExactExtent.Sealed.read (publishes : input.Publishes later)
    (isSealed : extent.Sealed L input state) (settled : state.Settled L later after)
    (expected : Option Nat)
    (page : isPageKind extent.context.unitKind → extent.payload.length = L.pagePayloadBytes)
    (sized : ∀ length ∈ expected, extent.payload.length = length ∧ L.framable length) :
    ReadExtent L later after extent.reference extent.context expected extent.payload ∧
      extent.reference.Fits := by
  obtain ⟨start, offer, bounded, isReference, extended⟩ := isSealed
  have earlier := settled.earlier extended
  have read := sealExtent_read publishes bounded earlier page sized
  have placed := sealExtent_placed publishes bounded earlier
  rw [← isReference]
  exact ⟨read, placed.fits publishes.words.1⟩

/-- The extents that were appended to a state are extents of the Blob. -/
structure CommitState.Owns (L : Limits) (input : CommitInput) (owner : Bytes)
    (staged : List ExtentReference) (start state : CommitState) : Prop where
  beside : state.Beside L input staged
  extends_ : start.Extends state
  owned : ∀ extent ∈ state.extents.drop start.extents.length, extent.Sealed L input state ∧
    extent.context = { unitKind := extent.context.unitKind, keyDomain := 4, owner }

theorem CommitState.Owns.refl (beside : state.Beside L input staged) :
    CommitState.Owns L input owner staged state state :=
  ⟨beside, .refl state, by simp⟩

theorem prepareOwnedExtent_keeps {staged : List ExtentReference} (eligible : Bool)
    (start : CommitState) :
    (prepareOwnedExtent L input eligible owner).Keeps
      (CommitState.Owns L input owner staged start) := by
  intro state payload kind owns
  have grown := sealExtent_extends L input
    (if eligible then input.compressed state.extents.length payload else none)
    { unitKind := kind, keyDomain := 4, owner } payload state
  refine ⟨sealExtent_beside owns.beside, owns.extends_.trans grown, ?_⟩
  have longer := owns.extends_.extents.length_le
  intro extent member
  change extent ∈ (state.extents ++ [_]).drop start.extents.length at member
  rw [List.drop_append_of_le_length longer] at member
  rcases List.mem_append.1 member with old | new
  · obtain ⟨isSealed, isContext⟩ := owns.owned extent old
    exact ⟨isSealed.mono grown, isContext⟩
  · obtain rfl := List.mem_singleton.1 new
    exact ⟨⟨state, _, owns.beside.accounts.bounded, rfl, .refl _⟩, rfl⟩

/-- The extents of a commit as pages. -/
def CommitState.written (state : CommitState) : List MetadataExtent :=
  state.extents.map fun extent =>
    { reference := extent.reference, kind := extent.context.unitKind, payload := extent.payload }

theorem prepareOwnedExtent_records (eligible : Bool) :
    (prepareOwnedExtent L input eligible owner).Records CommitState.written := by
  intro state payload kind
  unfold CommitState.written prepareOwnedExtent sealExtent
  simp

/-- The pages of the chunk index of a Blob can be read. -/
theorem CommitState.Owns.pages (publishes : input.Publishes later) {start : CommitState}
    (owns : CommitState.Owns L input owner staged start state)
    (settled : state.Settled L later after) {extents : List MetadataExtent}
    (appended : state.written = start.written ++ extents) :
    (∀ extent ∈ extents, extent.PageOf L later after (chunkIndexRole owner)) ∧
      extents.map MetadataExtent.reference =
        (state.extents.drop start.extents.length).map PreparedExactExtent.reference := by
  have isExtents : extents = (state.extents.drop start.extents.length).map fun extent =>
      { reference := extent.reference, kind := extent.context.unitKind
        payload := extent.payload } := by
    have dropped := congrArg (List.drop start.extents.length) appended
    unfold CommitState.written at dropped
    rw [List.drop_left' (List.length_map _), ← List.map_drop] at dropped
    exact dropped.symm
  subst isExtents
  refine ⟨fun page member isKind sized => ?_, by rw [List.map_map]; rfl⟩
  obtain ⟨extent, inExtents, rfl⟩ := List.mem_map.1 member
  obtain ⟨isSealed, isContext⟩ := owns.owned extent inExtents
  have isPage : isPageKind extent.context.unitKind := by
    rcases isKind with internal | leaf
    · rw [show extent.context.unitKind = 5 from internal]
      rfl
    · rw [show extent.context.unitKind = 6 from leaf]
      rfl
  obtain ⟨read, fits⟩ := isSealed.read publishes settled none (fun _ => sized) (by simp)
  refine ⟨⟨validateOrderedPageReference_of read.valid ⟨read.span.1 isPage, read.span.2.2⟩, ?_⟩, fits⟩
  rw [isContext] at read
  exact read

/-! ## The version -/

section Version

variable {version committed : BlobVersion} {turns : Nat}

/-- The parts of a version that was written. -/
theorem persistBlobVersion_ok
    (persisted : persistBlobVersion L input turns version state = .ok (committed, next)) :
    version.chunks.length = L.chunkCount version.size ∧ ∃ chunkRoot indexed,
      persistFixedTree L 3 5 6 (prepareOwnedExtent L input true version.id.val) turns
        (chunkEntries 0 version.chunks) state = .ok (chunkRoot, indexed) ∧
      prepareOwnedExtent L input false version.id.val indexed
        (encodeBlobManifest L version.id input.generation version.size version.chunks.length
          chunkRoot) 12 = (committed.manifest, next) ∧
      committed =
        { id := version.id
          size := version.size
          generation := input.generation
          manifest := committed.manifest
          chunkRoot
          chunks := version.chunks
          reachable := committed.manifest :: (version.chunks ++
            (indexed.extents.drop state.extents.length).map PreparedExactExtent.reference) } := by
  unfold persistBlobVersion at persisted
  split at persisted
  · cases persisted
  rename_i complete
  split at persisted
  · cases persisted
  rename_i chunkRoot indexed index
  cases persisted
  exact ⟨not_not.1 complete, chunkRoot, indexed, index, rfl, rfl⟩

/-- A version with all its chunks can always be written. -/
theorem persistBlobVersion_complete (complete : version.chunks.length = L.chunkCount version.size)
    (state : CommitState) :
    ∃ enough, ∀ turns, enough ≤ turns → ∃ committed next,
      persistBlobVersion L input turns version state = .ok (committed, next) := by
  have short : ∀ entry ∈ chunkEntries 0 version.chunks, entry.key.length ≤ 16 := by
    intro entry member
    obtain ⟨-, number, -, -, isKey⟩ := mem_chunkEntries member
    rw [isKey, toLittleEndian_length]
    decide
  obtain ⟨enough, persists⟩ := @persistFixedTree_complete L (chunkIndexRole version.id.val) _
    (prepareOwnedExtent L input true version.id.val) _ short state
  refine ⟨enough, fun turns many => ?_⟩
  obtain ⟨root, indexed, index⟩ := persists turns many
  unfold persistBlobVersion
  rw [if_neg (not_not.2 complete), show persistFixedTree L 3 5 6 _ turns _ state = _ from index]
  exact ⟨_, _, rfl⟩

/-- The root of a tree that loads is a reference of the publication. -/
theorem loadFixedTree_root_fits {T : TreeRole} {root : ExtentReference} {load : FixedLoad}
    {tree : MutableRoot} (word : later.generation ≤ uint64Max)
    (loaded : loadFixedTree L later after T root = .ok (load, tree)) : root.Fits := by
  unfold loadFixedTree at loaded
  cases null : root.null with
  | true =>
    rw [eq_default_of_null null]
    exact ⟨by decide, by decide, by decide, by decide⟩
  | false =>
    rw [if_neg (by rw [null]; exact Bool.false_ne_true)] at loaded
    obtain ⟨_, valid, -⟩ := bind_eq_ok.1 loaded
    exact (validateExtentReference_ok (validateOrderedPageReference_ok valid).1 null).fits word

/-- What the loader must find of a version that was written. -/
structure BlobVersion.Returns (version committed loaded : BlobVersion) : Prop where
  id : loaded.id = version.id
  size : loaded.size = version.size
  chunks : loaded.chunks = version.chunks
  generation : loaded.generation = committed.generation
  manifest : loaded.manifest = committed.manifest
  chunkRoot : loaded.chunkRoot = committed.chunkRoot
  reachable : loaded.reachable.Perm committed.reachable
  once : loaded.reachable.Nodup

/-- A version as it was staged in a commit: its size is within the profile, and its chunks are as
many as the size asks for, were created by the commit and lie beside what the commit writes. -/
structure BlobVersion.Staged (L : Limits) (input : CommitInput) (state : CommitState)
    (version : BlobVersion) : Prop where
  size : version.size ≤ L.maxBlobBytes
  count : version.chunks.length = L.chunkCount version.size
  created : ∀ chunk ∈ version.chunks, chunk.creationGeneration = input.generation
  beside : state.Beside L input version.chunks

/-- No extent of a version is reached twice. -/
theorem CommitState.Beside.nodup (beside : state.Beside L input staged) :
    (staged ++ state.extents.map PreparedExactExtent.reference).Nodup := by
  refine nodup_of_coverage (fun x => ?_) fun reference member => ?_
  · have once := beside.once x
    rw [coverage_append]
    omega
  · rcases List.mem_append.1 member with inStaged | written
    · exact (beside.ends reference inStaged).1
    · obtain ⟨extent, inExtents, rfl⟩ := List.mem_map.1 written
      exact (beside.accounts.taken extent inExtents).1

/-- The extent of the manifest of a version. -/
def BlobVersion.manifestExtent (L : Limits) (input : CommitInput) (version : BlobVersion)
    (reference chunkRoot : ExtentReference) : PreparedExactExtent where
  reference := reference
  context := { unitKind := 12, keyDomain := 4, owner := version.id.val }
  payload := encodeBlobManifest L version.id input.generation version.size version.chunks.length
    chunkRoot

/-- A written version: its index pages lie behind the start, and its manifest behind them. -/
structure WrittenBlob (L : Limits) (input : CommitInput) (turns : Nat) (version : BlobVersion)
    (state : CommitState) (chunkRoot : ExtentReference) (indexed : CommitState)
    (manifest : ExtentReference) (next : CommitState) : Prop where
  index : persistFixedTree L 3 5 6 (prepareOwnedExtent L input true version.id.val) turns
    (chunkEntries 0 version.chunks) state = .ok (chunkRoot, indexed)
  owns : CommitState.Owns L input version.id.val version.chunks state indexed
  last : indexed.Extends next
  all : CommitState.Owns L input version.id.val version.chunks state next
  extents_eq : next.extents =
    indexed.extents ++ [version.manifestExtent L input manifest chunkRoot]

theorem persistBlobVersion_written (staged : version.Staged L input state)
    (persisted : persistBlobVersion L input turns version state = .ok (committed, next)) :
    ∃ indexed, WrittenBlob L input turns version state committed.chunkRoot indexed committed.manifest
        next ∧
      committed =
        { id := version.id
          size := version.size
          generation := input.generation
          manifest := committed.manifest
          chunkRoot := committed.chunkRoot
          chunks := version.chunks
          reachable := committed.manifest :: (version.chunks ++
            (indexed.extents.drop state.extents.length).map PreparedExactExtent.reference) } := by
  obtain ⟨-, chunkRoot, indexed, index, sealedManifest, isCommitted⟩ := persistBlobVersion_ok persisted
  obtain rfl : committed.chunkRoot = chunkRoot := congrArg BlobVersion.chunkRoot isCommitted
  have keeps := @prepareOwnedExtent_keeps L input version.id.val version.chunks
  have owns := persistFixedTree_keeps (T := chunkIndexRole version.id.val) (keeps true state)
    (.refl staged.beside) index
  have all := keeps false state indexed (encodeBlobManifest L version.id input.generation version.size
    version.chunks.length committed.chunkRoot) 12 owns
  have last : indexed.Extends (prepareOwnedExtent L input false version.id.val indexed
      (encodeBlobManifest L version.id input.generation version.size version.chunks.length
        committed.chunkRoot) 12).2 := sealExtent_extends L input _ _ _ indexed
  have isManifest := congrArg Prod.fst sealedManifest
  have isNext := congrArg Prod.snd sealedManifest
  dsimp only at isManifest isNext
  rw [isNext] at all last
  refine ⟨indexed, ⟨index, owns, last, all, ?_⟩, isCommitted⟩
  rw [← isNext, ← isManifest]
  rfl

section Load

variable {chunkRoot manifest : ExtentReference} {indexed : CommitState}
  (written : WrittenBlob L input turns version state chunkRoot indexed manifest next)

include written

/-- The chunk index gives the chunks back, through the pages that were written for it. -/
theorem WrittenBlob.index_loads (staged : version.Staged L input state)
    (publishes : input.Publishes later) (settled : next.Settled L later after)
    (placed : ∀ chunk ∈ version.chunks, chunk.Placed L later) :
    (chunkRoot.null = true ↔ version.chunks.length = 0) ∧ ∃ reached tree,
      loadFixedTree L later after (chunkIndexRole version.id.val) chunkRoot =
        .ok ({ entries := chunkEntries 0 version.chunks, reachable := reached }, tree) ∧
      reached.Perm ((indexed.extents.drop state.extents.length).map PreparedExactExtent.reference ++
        version.chunks) := by
  obtain ⟨countWord, -⟩ := L.chunkCount_le staged.size
  rw [← staged.count] at countWord
  have fits : ∀ entry ∈ chunkEntries 0 version.chunks, entry.Fits 8 := by
    intro entry member
    obtain ⟨inChunks, number, -, -, isKey⟩ := mem_chunkEntries member
    have isPlaced := placed _ inChunks
    exact ⟨by rw [isKey, toLittleEndian_length], isPlaced.fits publishes.words.1, isPlaced.not_null⟩
  have few : (chunkEntries 0 version.chunks).length ≤ 4 ^ maximumTreeLevel := by
    rw [chunkEntries_length]
    exact countWord.le.trans (by norm_num [maximumTreeLevel])
  obtain ⟨extents, appended, loads⟩ := persistFixedTree_loads (chunkIndexRole_keys version.id.val)
    (prepareOwnedExtent_records true) (by decide) few (chunkEntries_ordered (by omega)) fits
    written.index
  obtain ⟨pages, references⟩ :=
    written.owns.pages publishes (settled.earlier written.last) appended
  obtain ⟨nullRoot, reached, tree, loaded, order⟩ := loads pages fun entry member =>
    placed _ (mem_chunkEntries member).1
  rw [chunkEntries_references, references] at order
  rw [← List.length_eq_zero_iff, chunkEntries_length] at nullRoot
  exact ⟨nullRoot, reached, tree, loaded, order⟩

theorem WrittenBlob.manifest_sealed :
    (version.manifestExtent L input manifest chunkRoot).Sealed L input next := by
  refine (written.all.owned _ ?_).1
  rw [written.extents_eq, List.drop_append_of_le_length written.owns.extends_.extents.length_le]
  exact List.mem_append_right _ List.mem_cons_self

theorem WrittenBlob.manifest_read (publishes : input.Publishes later)
    (settled : next.Settled L later after) :
    readAuthenticatedExtent L later after manifest
        { unitKind := 12, keyDomain := 4, owner := version.id.val } (some blobManifestBytes) =
      .ok (encodeBlobManifest L version.id input.generation version.size version.chunks.length
        chunkRoot) := by
  obtain ⟨read, -⟩ := written.manifest_sealed.read publishes settled (some blobManifestBytes)
    (by intro isPage; cases isPage) (by
      rintro _ ⟨⟩
      refine ⟨blobManifest_length _ _ _ _ _, ?_⟩
      have quantum := L.quantum_upper
      simp only [Limits.framable, blobManifestBytes, uint64Max, extentLayoutBytes,
        authenticationTagBytes]
      omega)
  exact readAuthenticatedExtent_eq_ok.2 read

/-- The manifest, the index pages and the chunks are distinct. -/
theorem WrittenBlob.nodup : (manifest :: (version.chunks ++
    (indexed.extents.drop state.extents.length).map PreparedExactExtent.reference)).Nodup := by
  have distinct := written.all.beside.nodup
  rw [written.extents_eq, List.map_append, ← List.append_assoc] at distinct
  refine (List.perm_append_singleton manifest _).nodup_iff.1 (distinct.sublist ?_)
  exact ((List.Sublist.refl _).append ((List.drop_sublist _ _).map _)).append_right _

end Load

/-- The loader accepts a version that was written. -/
theorem persistBlobVersion_loads (staged : version.Staged L input state)
    (persisted : persistBlobVersion L input turns version state = .ok (committed, next))
    (publishes : input.Publishes later) (settled : next.Settled L later after)
    (placed : ∀ chunk ∈ version.chunks, chunk.Placed L later) :
    ∃ loaded, loadBlobVersion L later after
        { key := version.id.val, reference := committed.manifest } = .ok loaded ∧
      version.Returns committed loaded := by
  obtain ⟨indexed, written, isCommitted⟩ := persistBlobVersion_written staged persisted
  obtain ⟨nullRoot, reached, tree, loaded, order⟩ :=
    written.index_loads staged publishes settled placed
  obtain ⟨countWord, sizeWord⟩ := L.chunkCount_le staged.size
  rw [← staged.count] at countWord
  have generationWord : input.generation < 2 ^ 64 := by
    have words := publishes.words.1
    rw [publishes.generation] at words
    unfold uint64Max at words
    omega
  have decoded := @readBlobManifest_encode L version.id input.generation version.size
    version.chunks.length committed.chunkRoot generationWord sizeWord countWord
    (loadFixedTree_root_fits publishes.words.1 loaded)
  have canonical : BlobManifest.Canonical L version.id committed.manifest
      (readBlobManifest (encodeBlobManifest L version.id input.generation version.size
        version.chunks.length committed.chunkRoot)) := by
    rw [decoded]
    exact ⟨rfl, rfl, rfl, rfl, rfl, written.manifest_sealed.created.symm, staged.size, rfl,
      staged.count, nullRoot, allZero_replicate _⟩
  have created : ∀ reference ∈ reached, reference.creationGeneration = input.generation := by
    intro reference member
    rcases List.mem_append.1 (order.mem_iff.1 member) with page | chunk
    · obtain ⟨extent, inExtents, rfl⟩ := List.mem_map.1 page
      exact (written.owns.owned extent inExtents).1.created
    · exact staged.created reference chunk
  have isId : decodeBlobId version.id.val = .ok version.id := dif_pos version.id.property
  refine ⟨{ id := version.id, size := version.size, generation := input.generation
            manifest := committed.manifest, chunkRoot := committed.chunkRoot
            chunks := version.chunks, reachable := committed.manifest :: reached }, ?_, ?_⟩
  · rw [loadBlobVersion, isId, ok_bind, written.manifest_read publishes settled, ok_bind]
    dsimp only
    rw [require_of canonical, ok_bind, decoded]
    rw [loaded, ok_bind]
    rw [require_of (chunkEntries_length _ _), ok_bind, require_of created, ok_bind,
      chunkReferences_chunkEntries (by omega) staged.created, ok_bind]
    rfl
  · have same : (committed.manifest :: reached).Perm (committed.manifest :: (version.chunks ++
        (indexed.extents.drop state.extents.length).map PreparedExactExtent.reference)) :=
      (order.trans List.perm_append_comm).cons _
    refine ⟨rfl, rfl, rfl, ?_, rfl, rfl, ?_, same.nodup_iff.2 written.nodup⟩
    · rw [isCommitted]
    · rw [isCommitted]
      exact same

end Version

end Miare
