import Miare.Blob.Transaction
import Miare.Tree.LoadFixed

/-!
# Loading the Blob catalog

`loadBlobCatalog` (`include/miare/detail/exact_store.hpp:2502-2625`) reads the catalog tree, and for
each of its entries the manifest and the chunk index of the Blob.
-/

namespace Miare

open Misc

/-- The bytes `MIAREBLB`. -/
def blobManifestMagic : Bytes := [77, 73, 65, 82, 69, 66, 76, 66]

/-- `BlobManifestLayout::bytes`. -/
def blobManifestBytes : Nat := 128

/-- The record of a manifest (`BlobManifestLayout`, `exact_store.hpp:329-342`). -/
structure BlobManifest where
  magic : Bytes
  version : Nat
  flags : Nat
  length : Nat
  id : Bytes
  generation : Nat
  logicalLength : Nat
  chunkSize : Nat
  chunkCount : Nat
  chunkRoot : ExtentReference
  reserved : Bytes
deriving DecidableEq, Repr

def readBlobManifest (payload : Bytes) : BlobManifest where
  magic := slice payload 0 8
  version := readLittleEndian 2 payload 8
  flags := readLittleEndian 2 payload 10
  length := readLittleEndian 4 payload 12
  id := slice payload 16 16
  generation := readLittleEndian 8 payload 32
  logicalLength := readLittleEndian 8 payload 40
  chunkSize := readLittleEndian 8 payload 48
  chunkCount := readLittleEndian 8 payload 56
  chunkRoot := decodeExtentReference (slice payload 64 32)
  reserved := slice payload 96 32

/-- Chunks of a Blob of the given size. -/
def Limits.chunkCount (L : Limits) (logicalLength : Nat) : Nat :=
  if logicalLength = 0 then 0 else 1 + (logicalLength - 1) / L.blobChunkBytes

/-- The check of a manifest against its catalog entry. -/
def BlobManifest.Canonical (L : Limits) (id : BlobId) (reference : ExtentReference)
    (manifest : BlobManifest) : Prop :=
  manifest.magic = blobManifestMagic ∧ manifest.version = 1 ∧ manifest.flags = 0 ∧
    manifest.length = blobManifestBytes ∧ manifest.id = id.val ∧
    manifest.generation = reference.creationGeneration ∧
    manifest.logicalLength ≤ L.maxBlobBytes ∧ manifest.chunkSize = L.blobChunkBytes ∧
    manifest.chunkCount = L.chunkCount manifest.logicalLength ∧
    (manifest.chunkRoot.null = true ↔ manifest.chunkCount = 0) ∧ allZero manifest.reserved

instance BlobManifest.decidableCanonical (L : Limits) (id : BlobId) (reference : ExtentReference)
    (manifest : BlobManifest) : Decidable (manifest.Canonical L id reference) := by
  unfold BlobManifest.Canonical
  infer_instance

/-- The key of a catalog entry as a `BlobId`. -/
def decodeBlobId (key : Bytes) : Except LoadError BlobId :=
  if sized : key.length = 16 then .ok ⟨key, sized⟩ else .error .outOfBounds

/-- The chunks in the entries of a chunk index, the first with the given ordinal. -/
def chunkReferences (generation : Nat) :
    (ordinal : Nat) → List FixedLeafEntry → Except LoadError (List ExtentReference)
  | _, [] => .ok []
  | ordinal, entry :: rest => do
    require (.corrupt "Blob chunk index is noncanonical")
      (readLittleEndian 8 entry.key 0 = ordinal ∧
        entry.reference.creationGeneration = generation)
    let chunks ← chunkReferences generation (ordinal + 1) rest
    pure (entry.reference :: chunks)

variable (L : Limits) (format : OpenedFormat) (store : ExtentStore)

/-- The Blob of a catalog entry: the body of the loop of `loadBlobCatalog`. -/
def loadBlobVersion (entry : FixedLeafEntry) : Except LoadError BlobVersion := do
  let id ← decodeBlobId entry.key
  let payload ← readAuthenticatedExtent L format store entry.reference
    { unitKind := 12, keyDomain := 4, owner := id.val } (some blobManifestBytes)
  let manifest := readBlobManifest payload
  require (.corrupt "Blob manifest is noncanonical") (manifest.Canonical L id entry.reference)
  let (index, _) ← loadFixedTree L format store (chunkIndexRole id.val) manifest.chunkRoot
  require (.corrupt "Blob chunk index is not dense") (index.entries.length = manifest.chunkCount)
  require (.corrupt "Blob content version generations disagree")
    (∀ reference ∈ index.reachable, reference.creationGeneration = manifest.generation)
  let chunks ← chunkReferences manifest.generation 0 index.entries
  pure
    { id
      size := manifest.logicalLength
      generation := manifest.generation
      manifest := entry.reference
      chunkRoot := manifest.chunkRoot
      chunks
      reachable := entry.reference :: index.reachable }

/-- What `loadBlobCatalog` collects. -/
structure BlobCatalogLoad where
  blobs : BlobCatalog
  reachable : List ExtentReference

/-- Add a Blob to the catalog. -/
def BlobCatalogLoad.emplace (state : BlobCatalogLoad) (version : BlobVersion) :
    Except LoadError BlobCatalogLoad :=
  match state.blobs.find version.id with
  | some _ => .error (.corrupt "Blob catalog identifier is duplicated")
  | none => .ok
    { blobs := state.blobs.insertOrAssign version
      reachable := state.reachable ++ version.reachable.tail }

/-- One round of the loop over the catalog entries. -/
def loadBlobStep (state : BlobCatalogLoad) (entry : FixedLeafEntry) :
    Except LoadError BlobCatalogLoad := do
  let version ← loadBlobVersion L format store entry
  state.emplace version

/-- `loadBlobCatalog`. -/
def loadBlobCatalog (root : ExtentReference) : Except LoadError (BlobCatalogLoad × MutableRoot) :=
  if format.generation = 1 then do
    require (.corrupt "initial database has a Blob catalog") (root.null = true)
    pure ({ blobs := Keyed.empty, reachable := [] }, MutableRoot.empty)
  else do
    let (catalog, tree) ← loadFixedTree L format store catalogRole root
    let state ← catalog.entries.foldlM (loadBlobStep L format store)
      { blobs := Keyed.empty, reachable := catalog.reachable }
    pure (state, tree)

end Miare
