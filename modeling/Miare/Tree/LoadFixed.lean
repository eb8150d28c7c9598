import Miare.Tree.Load

/-!
# Loading fixed-key trees

The Blob catalog and the chunk index of a Blob are trees with keys of one size that map keys to
extent references (`include/miare/detail/exact_store.hpp:2244-2500`).
-/

namespace Miare

open Misc

/-- A fixed-key tree (`loadFixedTreePage` takes these as parameters). -/
def fixedRole (role keySize internalKind leafKind keyDomain : Nat) (owner : Bytes) :
    TreeRole where
  role := role
  internalKind := internalKind
  leafKind := leafKind
  keySize := some keySize
  subject := "fixed-key"
  tooDeep := "fixed-key tree exceeds the supported depth"
  keyDomain := keyDomain
  owner := owner

/-- The Blob catalog has role 2; its keys are encoded `BlobId`s (`exact_store.hpp:2518-2520`). -/
def catalogRole : TreeRole := fixedRole 2 16 3 4 2 []

/-- The chunk index of a Blob has role 3; its keys are little-endian ordinals and its pages belong
to the Blob (`exact_store.hpp:2588-2590`). -/
def chunkIndexRole (owner : Bytes) : TreeRole := fixedRole 3 8 5 6 4 owner

/-- `fixedTreeKeyLess` (`exact_store.hpp:2250-2258`). -/
def fixedTreeKeyLess (role : Nat) (left right : Bytes) : Bool :=
  if role = 3 then decide (readLittleEndian 8 left 0 < readLittleEndian 8 right 0)
  else unsignedBytesLess left right

/-- What `loadFixedTreePage` collects. -/
structure FixedLoad where
  entries : List FixedLeafEntry
  reachable : List ExtentReference
deriving DecidableEq, Repr

variable (L : Limits) (format : OpenedFormat) (store : ExtentStore)

/-- One entry of a fixed-key page (`exact_store.hpp:2353-2395`); leaf and internal entries have
the same form. -/
def decodeFixedEntry (T : TreeRole) (shared : Bytes) (previous : Option Bytes) (entry : Bytes) :
    Except LoadError FixedLeafEntry := do
  let suffixLength ← readField 4 entry 0
  require (.corrupt "fixed-key page entry is invalid")
    (entry.length = 36 + suffixLength ∧ some (shared.length + suffixLength) = T.keySize)
  let suffix ← view entry 4 suffixLength
  let key := shared ++ suffix
  require (.corrupt "fixed-key page keys are not canonical")
    (∀ before ∈ previous, fixedTreeKeyLess T.role before key)
  let bytes ← view entry (4 + suffixLength) 32
  let child := decodeExtentReference bytes
  require (.corrupt "fixed-key page has a null reference") (child.null = false)
  pure { key, reference := child }

/-- One entry of a leaf, whose reference is checked as well. -/
def decodeFixedLeafEntry (T : TreeRole) (shared : Bytes) (previous : Option Bytes)
    (entry : Bytes) : Except LoadError FixedLeafEntry := do
  let item ← decodeFixedEntry T shared previous entry
  validateExtentReference L format item.reference
  pure item

/-- The end of a page: the entries fill it and their common prefix is the one of the page.  All
keys have the same size, so `canonicalPrefixLength` is the length `sharedPrefixLength` finds. -/
def fixedImageOk (header : PageHeader) (entries : List FixedLeafEntry) (stop : Nat) : Prop :=
  stop = header.usedLength ∧
    sharedPrefixLength (entries.map FixedLeafEntry.key) = header.prefixLength

instance (header : PageHeader) (entries : List FixedLeafEntry) (stop : Nat) :
    Decidable (fixedImageOk header entries stop) := by
  unfold fixedImageOk
  infer_instance

/-- An entry of a leaf as a value of the mutable tree: the encoded reference. -/
def FixedLeafEntry.toValue (entry : FixedLeafEntry) : MutableTreeValue :=
  { key := entry.key, value := encodeExtentReference entry.reference }

/-- The entries of a leaf of a fixed-key tree. -/
def fixedLeafEntries (T : TreeRole) (reference : ExtentReference) :
    Except LoadError (List FixedLeafEntry) := do
  let (payload, header) ← openTreePage L format store T 0 reference
  let (entries, stop) ← walkPage T 36 payload header
    (collectStep fun items => decodeFixedLeafEntry L format T (sharedPrefix payload header)
      (previousKey FixedLeafEntry.key items)) []
  require (.corrupt "fixed-key page image is noncanonical") (fixedImageOk header entries stop)
  pure entries

/-- A leaf of a fixed-key tree. -/
def loadFixedLeaf (T : TreeRole) (reference : ExtentReference) (state : FixedLoad) :
    Except LoadError (List MutableTreeValue × FixedLoad) := do
  let entries ← fixedLeafEntries L format store T reference
  pure (entries.map FixedLeafEntry.toValue,
    { entries := state.entries ++ entries
      reachable := state.reachable ++ reference :: entries.map FixedLeafEntry.reference })

/-- The children of an internal page of a fixed-key tree. -/
def fixedChildren (T : TreeRole) (level : Nat) (reference : ExtentReference) :
    Except LoadError (List (Bytes × ExtentReference)) := do
  let (payload, header) ← openTreePage L format store T level reference
  let leftmost := decodeExtentReference header.leftmostChild
  require (.corrupt "fixed-key internal page has a null child") (leftmost.null = false)
  let (separators, stop) ← walkPage T 36 payload header
    (collectStep fun items => decodeFixedEntry T (sharedPrefix payload header)
      (previousKey FixedLeafEntry.key items)) []
  require (.corrupt "fixed-key page image is noncanonical") (fixedImageOk header separators stop)
  pure (([], leftmost) :: separators.map fun item => (item.key, item.reference))

/-- An internal page of a fixed-key tree. -/
def loadFixedInner (T : TreeRole) (level : Nat) (reference : ExtentReference)
    (state : FixedLoad) : Except LoadError (List (Bytes × ExtentReference) × FixedLoad) := do
  let children ← fixedChildren L format store T level reference
  pure (children, { state with reachable := state.reachable ++ [reference] })

def fixedLoader (T : TreeRole) : TreeLoader FixedLoad where
  leafPage := loadFixedLeaf L format store T
  innerPage := loadFixedInner L format store T
  keyLess := fixedTreeKeyLess T.role
  separatorError := "fixed-key internal separator is invalid"
  orderError := "fixed-key internal separator is invalid"

/-- `loadFixedTreePage`. -/
def loadFixedTreePage (T : TreeRole) (expectedLevel : Nat) (reference : ExtentReference)
    (state : FixedLoad) : Except LoadError (MutableTree expectedLevel × PageBounds × FixedLoad) :=
  loadTree (fixedLoader L format store T) expectedLevel reference state

/-- `loadFixedTree` (`exact_store.hpp:2456-2500`) with `mutableRoot`. -/
def loadFixedTree (T : TreeRole) (root : ExtentReference) :
    Except LoadError (FixedLoad × MutableRoot) :=
  if root.null then .ok ({ entries := [], reachable := [] }, MutableRoot.empty)
  else do
    validateOrderedPageReference L format root
    let kind ← readUnitKind store root
    require (.corrupt "fixed-key root role is invalid")
      (kind = T.internalKind ∨ kind = T.leafKind)
    let payload ← readAuthenticatedExtent L format store root
      { unitKind := kind, keyDomain := T.keyDomain, owner := T.owner } none
    let header := readPageHeader payload
    require (.corrupt "fixed-key root has only one child")
      (¬(header.type = 2 ∧ header.entryCount = 0))
    let (tree, _, state) ← loadFixedTreePage L format store T header.level root
      { entries := [], reachable := [] }
    pure (state, ⟨header.level, tree⟩)

end Miare
