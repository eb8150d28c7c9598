import Miare.Allocator.Runs
import Miare.Tree.Levels
import Miare.Tree.LoadFixed

/-!
# Writing changed trees

`commitExact` writes the changed nodes of the ordered tree and of the Blob catalog and keeps the
extents of the others (`include/miare/detail/exact_store.hpp:3702-3863`, `3097-3221`,
`3998-4028`).
-/

namespace Miare

open Misc

/-- `PreparedExactExtent`: an extent the commit will write. -/
structure PreparedExactExtent where
  reference : ExtentReference
  context : ExtentContext
  payload : Bytes
deriving DecidableEq, Repr

/-- The variables of `commitExact` that the trees change. -/
structure CommitState where
  pool : BlockPool
  extents : List PreparedExactExtent
  retainedReferences : List ExtentReference
deriving DecidableEq, Repr

/-- The generation a commit writes, and the size that the compression provider offers for a
payload (`compressed index payload`); `none` without compression. -/
structure CommitInput where
  generation : Nat
  compressed : Nat → Bytes → Option Nat

/-- The stored size that `prepareExtentPayload` settles on (`exact_store.hpp:657-722`). -/
def preparedLength (L : Limits) (decodedBytes : Nat) (offer : Option Nat) : Nat :=
  match offer with
  | none => decodedBytes
  | some compressedBytes =>
    if compressedBytes < decodedBytes ∧
        L.blocksFor (encodedExtentLength compressedBytes) <
          L.blocksFor (encodedExtentLength decodedBytes) then compressedBytes
    else decodedBytes

/-- `prepareExtent` (`exact_store.hpp:3702-3726`) with the `push_back` of its callers. -/
def prepareExtent (L : Limits) (input : CommitInput) : Placement CommitState :=
  fun state payload kind =>
    let encodedLength := encodedExtentLength
      (preparedLength L payload.length (input.compressed state.extents.length payload))
    let blockCount := L.blocksFor encodedLength
    let taken := state.pool.allocateBlocks blockCount
    let reference : ExtentReference :=
      { blockIndex := taken.1, blockCount, encodedLength, creationGeneration := input.generation }
    (reference,
      { state with
        pool := taken.2
        extents := state.extents ++ [{ reference, context := { unitKind := kind }, payload }] })

/-- Take blocks for a payload and append its extent. -/
def sealExtent (L : Limits) (input : CommitInput) (offer : Option Nat) (context : ExtentContext)
    (payload : Bytes) (state : CommitState) : ExtentReference × CommitState :=
  let encodedLength := encodedExtentLength (preparedLength L payload.length offer)
  let blockCount := L.blocksFor encodedLength
  let taken := state.pool.allocateBlocks blockCount
  let reference : ExtentReference :=
    { blockIndex := taken.1, blockCount, encodedLength, creationGeneration := input.generation }
  (reference,
    { state with
      pool := taken.2
      extents := state.extents ++ [{ reference, context, payload }] })

/-- `prepareOwnedExtent` (`exact_store.hpp:3875-3903`) with the `push_back` of its callers: an extent
of a Blob, in the key domain 4. -/
def prepareOwnedExtent (L : Limits) (input : CommitInput) (compressionEligible : Bool)
    (owner : Bytes) : Placement CommitState :=
  fun state payload kind =>
    sealExtent L input
      (if compressionEligible then input.compressed state.extents.length payload else none)
      { unitKind := kind, keyDomain := 4, owner } payload state

/-- `retainedReferences.push_back`. -/
def CommitState.retain (state : CommitState) (references : List ExtentReference) : CommitState :=
  { state with retainedReferences := state.retainedReferences ++ references }

/-- `retainSubtree`: the extents of an unchanged subtree. -/
def retainSubtree (valueExtents : MutableTreeValue → List ExtentReference) :
    {level : Nat} → MutableTree level → List ExtentReference
  | 0, node =>
    let leaf : MutableNode MutableTreeValue := node
    leaf.reference :: leaf.items.flatMap valueExtents
  | level + 1, node =>
    let inner : MutableNode (MutableTree level) := node
    inner.reference :: inner.items.flatMap (retainSubtree valueExtents)

/-- The parts in which the two `persistNode` functions differ. -/
structure TreeWriter where
  role : Nat
  internalKind : Nat
  place : Placement CommitState
  valueExtents : MutableTreeValue → List ExtentReference
  writeLeaf : List MutableTreeValue → CommitState →
    Except TreeError (List PreparedTreeNode × CommitState)

/-- Write a list of subtrees and join their pages. -/
def persistChildren {τ : Type}
    (persist : τ → CommitState → Except TreeError (List PreparedTreeNode × CommitState)) :
    List τ → CommitState → Except TreeError (List PreparedTreeNode × CommitState)
  | [], state => .ok ([], state)
  | child :: rest, state => do
    let (replacements, state) ← persist child state
    let (others, state) ← persistChildren persist rest state
    pure (replacements ++ others, state)

/-- `persistNode`: the pages that stand for a subtree. -/
def persistNode (L : Limits) (writer : TreeWriter) :
    {level : Nat} → MutableTree level → CommitState →
      Except TreeError (List PreparedTreeNode × CommitState)
  | 0, node, state =>
    let leaf : MutableNode MutableTreeValue := node
    if leaf.dirty = false then
      .ok ([{ reference := leaf.reference, minimumKey := leaf.minimumKey, level := 0 }],
        state.retain (retainSubtree writer.valueExtents node))
    else writer.writeLeaf leaf.items state
  | level + 1, node, state =>
    let inner : MutableNode (MutableTree level) := node
    if inner.dirty = false then
      .ok ([{ reference := inner.reference, minimumKey := inner.minimumKey, level := level + 1 }],
        state.retain (retainSubtree writer.valueExtents node))
    else do
      let (children, state) ← persistChildren (persistNode L writer) inner.items state
      levelUp L writer.role writer.internalKind writer.place children state

/-- Write a tree and the levels above it until one page is left. -/
def persistTree (L : Limits) (writer : TreeWriter) (turns : Nat) (root : MutableRoot)
    (state : CommitState) : Except TreeError (PreparedTreeNode × CommitState) := do
  let (nodes, state) ← persistNode L writer root.tree state
  growRoot L writer.role writer.internalKind writer.place turns nodes state

/-! ## The ordered tree -/

/-- The extent of a value outside its leaf. -/
def overflowExtents (item : MutableTreeValue) : List ExtentReference :=
  if item.overflow.null then [] else [item.overflow]

/-- The loop that gives long values their own extents (`exact_store.hpp:3793-3804`). -/
def placeOverflow (L : Limits) (place : Placement CommitState) :
    List MutableTreeValue → CommitState → List MutableTreeValue × CommitState
  | [], state => ([], state)
  | item :: rest, state =>
    if L.maxInlineValueBytes < item.value.length ∧ item.overflow.null then
      let placed := place state item.value 11
      let others := placeOverflow L place rest placed.2
      ({ item with overflow := placed.1 } :: others.1, others.2)
    else
      let others := placeOverflow L place rest (state.retain (overflowExtents item))
      (item :: others.1, others.2)

/-- A changed leaf of the ordered tree (`exact_store.hpp:3787-3824`). -/
def writeOrderedLeaf (L : Limits) (place : Placement CommitState)
    (items : List MutableTreeValue) (state : CommitState) :
    Except TreeError (List PreparedTreeNode × CommitState) :=
  if items = [] then .error .outOfRange
  else
    let placed := placeOverflow L place items state
    match splitPages L.pagePayloadBytes leafUsedLength placed.1 with
    | none => .error .splitBoundary
    | some pages =>
      placePages place 2 (encodeLeafPage L) .leafOverflow valuesMinimum (fun _ => 0) pages
        placed.2

def orderedWriter (L : Limits) (input : CommitInput) : TreeWriter where
  role := 1
  internalKind := 1
  place := prepareExtent L input
  valueExtents := overflowExtents
  writeLeaf := writeOrderedLeaf L (prepareExtent L input)

/-- A root that was never written begins as an empty changed leaf (`exact_store.hpp:3728-3731`). -/
def MutableRoot.begin : MutableRoot → MutableRoot
  | ⟨0, leaf⟩ => if leaf.reference.null then ⟨0, leaf.markDirty⟩ else ⟨0, leaf⟩
  | ⟨level + 1, inner⟩ =>
    if inner.reference.null then ⟨0, ({ dirty := true } : MutableNode MutableTreeValue)⟩
    else ⟨level + 1, inner⟩

/-- The keys that a commit erases: those without a new value. -/
def erasedKeys (old new : OrderedKeyValues) : List Bytes :=
  (old.entries.map Prod.fst).filter fun key => (new.find key).isNone

/-- The entries that a commit puts: those that are new or have another value. -/
def changedEntries (old new : OrderedKeyValues) : List (Bytes × Bytes) :=
  new.entries.filter fun entry => old.find entry.1 ≠ some entry

/-- The changes to the ordered tree in memory (`exact_store.hpp:3728-3754`); `none` is an index
out of range. -/
def editOrderedTree (old new : OrderedKeyValues) (root : MutableRoot) : Option MutableRoot := do
  let erased ← eraseKeys (erasedKeys old new) root.begin.tree
  let put ← putEntries (changedEntries old new) (resetEmptyRoot erased).tree
  pure (collapseRoot put)

/-- The ordered path of `commitExact`: the root page, none for an empty map. -/
def commitOrderedTree (L : Limits) (input : CommitInput) (turns : Nat)
    (old new : OrderedKeyValues) (root : MutableRoot) (state : CommitState) :
    Except TreeError (Option PreparedTreeNode × CommitState) :=
  if new.entries = [] then .ok (none, state)
  else
    match editOrderedTree old new root with
    | none => .error .outOfRange
    | some root =>
      match persistTree L (orderedWriter L input) turns root state with
      | .error error => .error error
      | .ok (page, state) => .ok (some page, state)

/-- What the file holds once the extents are written. -/
def ExtentStore.write (store : ExtentStore) (extents : List PreparedExactExtent) : ExtentStore :=
  fun reference =>
    match extents.find? fun extent => extent.reference = reference with
    | some extent => some { context := extent.context, payload := extent.payload }
    | none => store reference

/-- The root reference of a publication; the null reference for an empty tree. -/
def rootReference (page : Option PreparedTreeNode) : ExtentReference :=
  (page.map PreparedTreeNode.reference).getD {}

/-! ## The Blob catalog -/

/-- `persistFixedTree` (`exact_store.hpp:3035-3095`): the root reference, null without entries. -/
def persistFixedTree {σ : Type*} (L : Limits) (role internalKind leafKind : Nat)
    (place : Placement σ) (turns : Nat) (entries : List FixedLeafEntry) (state : σ) :
    Except TreeError (ExtentReference × σ) :=
  if entries = [] then .ok ({}, state)
  else
    match splitPages L.pagePayloadBytes fixedLeafUsedLength entries with
    | none => .error .splitBoundary
    | some pages =>
      match placePages place leafKind (encodeFixedLeafPage L role) .outOfRange
        (fun page => (page.head?.map FixedLeafEntry.key).getD []) (fun _ => 0) pages state with
      | .error error => .error error
      | .ok (nodes, state) =>
        match growRoot L role internalKind place turns nodes state with
        | .error error => .error error
        | .ok (root, state) => .ok (root.reference, state)

/-- The manifests of a catalog by encoded `BlobId`. -/
abbrev BlobManifests : Type := Keyed FixedLeafEntry.key

end Miare
