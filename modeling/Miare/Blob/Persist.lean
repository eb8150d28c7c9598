import Miare.Blob.Load
import Miare.Tree.Persist

/-!
# Writing a Blob

`commitExact` gives a pending Blob version its chunk index and its manifest
(`include/miare/detail/exact_store.hpp:3904-3997`).
-/

namespace Miare

open Misc

/-- Why a Blob version cannot be written. -/
inductive BlobCommitError where
  | incompleteChunks
  | tree (error : TreeError)
deriving DecidableEq, Repr

/-- Text of the errors; the first is a `ContractError` with the code `InvalidState`. -/
def BlobCommitError.message : BlobCommitError → Option String
  | .incompleteChunks => some "finalized Blob has an incomplete staged chunk set"
  | .tree error => error.message

/-- The fields of a manifest, in order. -/
def blobManifestFields (L : Limits) (id : BlobId) (generation size chunkCount : Nat)
    (chunkRoot : ExtentReference) : List Bytes :=
  [blobManifestMagic, toLittleEndian 2 1, toLittleEndian 2 0, toLittleEndian 4 blobManifestBytes,
    id.val, toLittleEndian 8 generation, toLittleEndian 8 size, toLittleEndian 8 L.blobChunkBytes,
    toLittleEndian 8 chunkCount, encodeExtentReference chunkRoot, List.replicate 32 0]

def encodeBlobManifest (L : Limits) (id : BlobId) (generation size chunkCount : Nat)
    (chunkRoot : ExtentReference) : Bytes :=
  (blobManifestFields L id generation size chunkCount chunkRoot).flatten

/-- The entries of a chunk index, the first with the given ordinal. -/
def chunkEntries : (ordinal : Nat) → List ExtentReference → List FixedLeafEntry
  | _, [] => []
  | ordinal, chunk :: rest =>
    { key := toLittleEndian 8 ordinal, reference := chunk } :: chunkEntries (ordinal + 1) rest

/-- The loop body of `commitExact` for a pending version. -/
def persistBlobVersion (L : Limits) (input : CommitInput) (turns : Nat) (version : BlobVersion)
    (state : CommitState) : Except BlobCommitError (BlobVersion × CommitState) :=
  if version.chunks.length ≠ L.chunkCount version.size then .error .incompleteChunks
  else
    match persistFixedTree L 3 5 6 (prepareOwnedExtent L input true version.id.val) turns
      (chunkEntries 0 version.chunks) state with
    | .error error => .error (.tree error)
    | .ok (chunkRoot, indexed) =>
      let indexPages :=
        (indexed.extents.drop state.extents.length).map PreparedExactExtent.reference
      let manifest := encodeBlobManifest L version.id input.generation version.size
        version.chunks.length chunkRoot
      let placed := prepareOwnedExtent L input false version.id.val indexed manifest 12
      .ok
        ({ id := version.id
           size := version.size
           generation := input.generation
           manifest := placed.1
           chunkRoot
           chunks := version.chunks
           reachable := placed.1 :: (version.chunks ++ indexPages) },
          placed.2)

end Miare
