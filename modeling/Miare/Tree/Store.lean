import Miare.Page.Parse

/-!
# Extents as the trees see them

The trees read and write extents through references.  `ExtentStore` says which extent a reference
leads to once it has been read, authenticated and decompressed; the checks that
`readAuthenticatedExtent` (`include/miare/detail/exact_store.hpp:1093-1257`) makes on the reference
and on the decoded length stand here, the framing of an extent in its blocks is below this layer.
-/

namespace Miare

open Misc

/-- What an extent is sealed for. -/
structure ExtentContext where
  unitKind : Nat
  keyDomain : Nat := 2
  sequence : Nat := 0
  owner : Bytes := []
deriving DecidableEq, Repr

/-- An extent with its decoded payload. -/
structure StoredExtent where
  context : ExtentContext
  payload : Bytes
deriving DecidableEq, Repr

/-- The extent at a reference; `none` when the file holds none that can be read there. -/
abbrev ExtentStore : Type := ExtentReference → Option StoredExtent

/-- The fields of the selected publication that bound its references. -/
structure OpenedFormat where
  generation : Nat
  highWaterBytes : Nat
deriving DecidableEq, Repr

/-- `maximumTreeLevel`. -/
def maximumTreeLevel : Nat := 64

variable (L : Limits) (format : OpenedFormat) (store : ExtentStore)

/-- `validateExtentReference` (`exact_store.hpp:441-468`). -/
def validateExtentReference (reference : ExtentReference) : Except LoadError Unit :=
  let quantum := L.allocationQuantumBytes
  if reference.null then .ok ()
  else do
    require (.corrupt "extent reference is invalid")
      (L.commonBlocks ≤ reference.blockIndex ∧ reference.blockCount ≠ 0 ∧
        extentLayoutBytes + authenticationTagBytes ≤ reference.encodedLength ∧
        reference.creationGeneration ≠ 0 ∧ reference.creationGeneration ≤ format.generation ∧
        reference.blockCount ≤ uint64Max / quantum)
    require (.corrupt "extent reference bounds are invalid")
      (reference.encodedLength ≤ reference.blockCount * quantum ∧
        reference.blockIndex ≤ uint64Max / quantum)
    require (.corrupt "extent reference exceeds the committed boundary")
      (reference.blockIndex * quantum ≤ format.highWaterBytes ∧
        reference.blockCount * quantum ≤
          format.highWaterBytes - reference.blockIndex * quantum)

/-- `minimalBlocks`: the least number of blocks for `length` bytes. -/
def Limits.minimalBlocks (L : Limits) (length : Nat) : Nat :=
  length / L.allocationQuantumBytes + if length % L.allocationQuantumBytes ≠ 0 then 1 else 0

/-- `validateOrderedPageReference` (`exact_store.hpp:1885-1902`). -/
def validateOrderedPageReference (reference : ExtentReference) : Except LoadError Unit := do
  validateExtentReference L format reference
  require (.corrupt "ordered page extent span is noncanonical")
    (reference.blockCount ≤ L.pageBlocks ∧
      reference.blockCount = L.minimalBlocks reference.encodedLength)

/-- Unit kinds one to ten are pages. -/
def isPageKind (kind : Nat) : Bool := decide (1 ≤ kind) && decide (kind ≤ 10)

/-- Decoded lengths whose framed size still is a `std::uint64_t`. -/
def Limits.framable (L : Limits) (decodedLength : Nat) : Prop :=
  decodedLength ≤
    uint64Max - (extentLayoutBytes + authenticationTagBytes) - (L.allocationQuantumBytes - 1)

instance (decodedLength : Nat) : Decidable (L.framable decodedLength) := by
  unfold Limits.framable
  infer_instance

/-- `readAuthenticatedExtent`. -/
def readAuthenticatedExtent (reference : ExtentReference) (context : ExtentContext)
    (expectedDecodedLength : Option Nat) : Except LoadError Bytes := do
  require (.corrupt "authenticated extent reference is null") (reference.null = false)
  validateExtentReference L format reference
  require (.corrupt "authenticated extent decoded length overflows")
    (∀ length ∈ expectedDecodedLength, L.framable length)
  require (.corrupt "authenticated extent span is noncanonical")
    ((isPageKind context.unitKind → reference.blockCount ≤ L.pageBlocks) ∧
      (∀ length ∈ expectedDecodedLength,
        reference.blockCount ≤ L.blocksFor (encodedExtentLength length)) ∧
      reference.blockCount = L.minimalBlocks reference.encodedLength)
  match store reference with
  | none => .error .extent
  | some extent =>
    require (.corrupt "authenticated extent is noncanonical") (extent.context = context)
    require (.corrupt "authenticated extent representation is invalid")
      ((∀ length ∈ expectedDecodedLength, extent.payload.length = length) ∧
        (isPageKind context.unitKind → extent.payload.length = L.pagePayloadBytes))
    pure extent.payload

/-- The unit kind in the preamble at a reference. -/
def readUnitKind (reference : ExtentReference) : Except LoadError Nat :=
  match store reference with
  | none => .error .extent
  | some extent => .ok extent.context.unitKind

/-- The kind and the payload of the page at a reference: the beginning of `loadOrderedPage` and
`loadFixedTreePage`. -/
def readTreePage (T : TreeRole) (expectedLevel : Nat) (reference : ExtentReference) :
    Except LoadError (Nat × Bytes) := do
  require (.corrupt T.tooDeep) (expectedLevel ≤ maximumTreeLevel)
  validateOrderedPageReference L format reference
  let kind ← readUnitKind store reference
  require (.corrupt (T.subject ++ " page role is invalid"))
    (kind = T.internalKind ∨ kind = T.leafKind)
  let payload ← readAuthenticatedExtent L format store reference
    { unitKind := kind, keyDomain := T.keyDomain, owner := T.owner } none
  pure (kind, payload)

/-- They go on with the header, up to the bounds check. -/
def openTreePage (T : TreeRole) (expectedLevel : Nat) (reference : ExtentReference) :
    Except LoadError (Bytes × PageHeader) := do
  let (kind, payload) ← readTreePage L format store T expectedLevel reference
  let header := readPageHeader payload
  require (.corrupt (T.subject ++ " page header is invalid")) (header.Matches T kind expectedLevel)
  require (.corrupt (T.subject ++ " page bounds are invalid")) (header.Bounded T payload)
  pure (payload, header)

end Miare
