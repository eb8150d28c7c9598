import Miare.Tree.Mutable
import Miare.Tree.Store

/-!
# Loading trees

`loadOrderedPage` and `loadFixedTreePage` (`include/miare/detail/exact_store.hpp:1967-2148`,
`2260-2454`) load a page, recurse into its children and compare the separators with what the
children hold.  Both are `loadTree` with their own page parsers.  The recursion is on the expected
level, which the code compares with the level in the page.
-/

namespace Miare

open Misc

/-- `OrderedPageBounds`, `FixedTreeBounds`. -/
structure PageBounds where
  minimum : Bytes
  maximum : Bytes
deriving DecidableEq, Repr

/-- The parts of a loader; `σ` collects what is loaded. -/
structure TreeLoader (σ : Type) where
  leafPage : ExtentReference → σ → Except LoadError (List MutableTreeValue × σ)
  innerPage : Nat → ExtentReference → σ → Except LoadError (List (Bytes × ExtentReference) × σ)
  keyLess : Bytes → Bytes → Bool
  separatorError : String
  orderError : String

/-- The loop over the children of an internal page.  `maximum` is `subtreeMaximum`, absent
before the first child, which has no separator. -/
def loadSubtrees {σ τ : Type} (loader : TreeLoader σ)
    (load : ExtentReference → σ → Except LoadError (τ × PageBounds × σ)) :
    (maximum : Option Bytes) → List (Bytes × ExtentReference) → σ →
      Except LoadError (List (τ × PageBounds) × σ)
  | _, [], state => .ok ([], state)
  | maximum, (separator, child) :: rest, state => do
    let (tree, bounds, state) ← load child state
    require (.corrupt loader.separatorError) (∀ _ ∈ maximum, bounds.minimum = separator)
    require (.corrupt loader.orderError) (∀ last ∈ maximum, loader.keyLess last bounds.minimum)
    let (others, state) ← loadSubtrees loader load (some bounds.maximum) rest state
    pure ((tree, bounds) :: others, state)

/-- Bounds of a list of keys in order. -/
def keyBounds (keys : List Bytes) : PageBounds where
  minimum := keys.headD []
  maximum := keys.getLastD []

/-- Bounds of the children of a page. -/
def subtreeBounds {τ : Type} (subtrees : List (τ × PageBounds)) : PageBounds where
  minimum := (subtrees.head?.map fun subtree => subtree.2.minimum).getD []
  maximum := (subtrees.getLast?.map fun subtree => subtree.2.maximum).getD []

/-- Load the tree below a reference. -/
def loadTree {σ : Type} (loader : TreeLoader σ) :
    (expectedLevel : Nat) → ExtentReference → σ →
      Except LoadError (MutableTree expectedLevel × PageBounds × σ)
  | 0, reference, state => do
    let (values, state) ← loader.leafPage reference state
    let bounds := keyBounds (values.map MutableTreeValue.key)
    let leaf : MutableNode MutableTreeValue :=
      { reference, minimumKey := bounds.minimum, items := values }
    pure (leaf, bounds, state)
  | level + 1, reference, state => do
    let (children, state) ← loader.innerPage (level + 1) reference state
    let (subtrees, state) ← loadSubtrees loader (loadTree loader level) none children state
    let bounds := subtreeBounds subtrees
    let inner : MutableNode (MutableTree level) :=
      { reference, minimumKey := bounds.minimum, items := subtrees.map Prod.fst }
    pure (inner, bounds, state)

variable (L : Limits) (format : OpenedFormat) (store : ExtentStore)

/-! ## The ordered tree -/

/-- The ordered tree has role 1; its keys are of any size. -/
def orderedRole : TreeRole where
  role := 1
  internalKind := 1
  leafKind := 2
  keySize := none
  subject := "ordered"
  tooDeep := "ordered tree level exceeds the supported depth"

/-- The keys and values of an ordered tree. -/
abbrev OrderedKeyValues : Type := Keyed (Prod.fst : Bytes × Bytes → Bytes)

/-- What `loadOrderedPage` collects. -/
structure OrderedLoad where
  values : OrderedKeyValues
  reachable : List ExtentReference

/-- The key of an entry: the prefix of the page and the suffix of the entry.  `fixedLength` is
the length of an entry with an empty suffix and nothing inline. -/
def decodeOrderedKey (shared : Bytes) (fixedLength : Nat) (previous : Option Bytes)
    (entry : Bytes) : Except LoadError (Bytes × Nat) := do
  let suffixLength ← readField 4 entry 0
  require (.corrupt "ordered page key suffix is invalid")
    (suffixLength ≤ entry.length - fixedLength)
  let suffix ← view entry 4 suffixLength
  let key := shared ++ suffix
  require (.corrupt "ordered page keys are not canonical")
    (key.length ≤ L.maxKeyBytes ∧ ∀ before ∈ previous, before < key)
  pure (key, suffixLength)

/-- One entry of an ordered leaf (`exact_store.hpp:2061-2092`). -/
def decodeLeafEntry (shared : Bytes) (previous : Option Bytes) (entry : Bytes) :
    Except LoadError MutableTreeValue := do
  let (key, suffixLength) ← decodeOrderedKey L shared 20 previous entry
  let representation ← view entry (4 + suffixLength) 8
  require (.corrupt "ordered leaf value representation is invalid")
    ((representation.headD 0 = 0 ∨ representation.headD 0 = 1) ∧ allZero representation.tail)
  let valueLength ← readField 8 entry (4 + suffixLength + 8)
  let overflow := representation.headD 0 = 1
  require (.corrupt "ordered leaf value length is invalid")
    (valueLength ≤ L.maxValueBytes ∧ (overflow ↔ L.maxInlineValueBytes < valueLength) ∧
      entry.length = 20 + suffixLength + (if overflow then 32 else valueLength))
  if overflow then
    let bytes ← view entry (4 + suffixLength + 16) 32
    let reference := decodeExtentReference bytes
    let value ← readAuthenticatedExtent L format store reference { unitKind := 11 }
      (some valueLength)
    pure { key, value, overflow := reference }
  else
    let value ← view entry (4 + suffixLength + 16) valueLength
    pure { key, value }

/-- `values.emplace`, with the overflow extent among the reachable ones. -/
def OrderedLoad.emplace (state : OrderedLoad) (item : MutableTreeValue) :
    Except LoadError OrderedLoad :=
  match state.values.find item.key with
  | some _ => .error (.corrupt "ordered leaf key is duplicated")
  | none => .ok
    { values := state.values.insertOrAssign (item.key, item.value)
      reachable := state.reachable ++ if item.overflow.null then [] else [item.overflow] }

/-- The loop body for a leaf. -/
def orderedLeafStep (shared : Bytes) (state : List MutableTreeValue × OrderedLoad)
    (entry : Bytes) : Except LoadError (List MutableTreeValue × OrderedLoad) := do
  let item ← decodeLeafEntry L format store shared
    (previousKey MutableTreeValue.key state.1) entry
  let load ← state.2.emplace item
  pure (state.1 ++ [item], load)

/-- A leaf of the ordered tree. -/
def loadOrderedLeaf (reference : ExtentReference) (state : OrderedLoad) :
    Except LoadError (List MutableTreeValue × OrderedLoad) := do
  let (payload, header) ← openTreePage L format store orderedRole 0 reference
  let state := { state with reachable := state.reachable ++ [reference] }
  let ((values, state), stop) ← walkPage orderedRole 20 payload header
    (orderedLeafStep L format store (sharedPrefix payload header)) ([], state)
  require (.corrupt "ordered page image is noncanonical")
    (stop = header.usedLength ∧ leafSharedLength values = header.prefixLength)
  pure (values, state)

/-- One entry of an internal page: a separator and the child behind it. -/
def decodeSeparator (shared : Bytes) (previous : Option Bytes) (entry : Bytes) :
    Except LoadError (Bytes × ExtentReference) := do
  let (key, suffixLength) ← decodeOrderedKey L shared 36 previous entry
  let bytes ← view entry (4 + suffixLength) 32
  pure (key, decodeExtentReference bytes)

/-- The children of an internal page whose header was checked, the leftmost with an empty key. -/
def pageChildren (payload : Bytes) (header : PageHeader) :
    Except LoadError (List (Bytes × ExtentReference)) := do
  let (separators, stop) ← walkPage orderedRole 36 payload header
    (collectStep fun items =>
      decodeSeparator L (sharedPrefix payload header) (previousKey Prod.fst items)) []
  let bounds := keyBounds (separators.map Prod.fst)
  require (.corrupt "ordered page image is noncanonical")
    (stop = header.usedLength ∧
      commonPrefixLength bounds.minimum bounds.maximum = header.prefixLength)
  pure (([], decodeExtentReference header.leftmostChild) :: separators)

/-- The children of an internal page of the ordered tree. -/
def orderedChildren (level : Nat) (reference : ExtentReference) :
    Except LoadError (List (Bytes × ExtentReference)) := do
  let (payload, header) ← openTreePage L format store orderedRole level reference
  pageChildren L payload header

/-- An internal page of the ordered tree. -/
def loadOrderedInner (level : Nat) (reference : ExtentReference) (state : OrderedLoad) :
    Except LoadError (List (Bytes × ExtentReference) × OrderedLoad) := do
  let children ← orderedChildren L format store level reference
  pure (children, { state with reachable := state.reachable ++ [reference] })

/-- `UnsignedBytesLess`. -/
def unsignedBytesLess (left right : Bytes) : Bool := decide (left < right)

def orderedLoader : TreeLoader OrderedLoad where
  leafPage := loadOrderedLeaf L format store
  innerPage := loadOrderedInner L format store
  keyLess := unsignedBytesLess
  separatorError := "ordered internal separator is not the right-subtree minimum"
  orderError := "ordered subtrees overlap or are reordered"

/-- `loadOrderedPage`. -/
def loadOrderedPage (expectedLevel : Nat) (reference : ExtentReference) (state : OrderedLoad) :
    Except LoadError (MutableTree expectedLevel × PageBounds × OrderedLoad) :=
  loadTree (orderedLoader L format store) expectedLevel reference state

/-- The header check of `shallowValidateOrderedRoot`; it does not look at the unused bytes. -/
def PageHeader.RootMatches (header : PageHeader) (kind : Nat) (payload : Bytes) : Prop :=
  header.magic = pageMagic ∧ header.version = 1 ∧ (header.type = 1 ∨ header.type = 2) ∧
    kind = (if header.type = 1 then 2 else 1) ∧ header.headerLength = pageLayoutBytes ∧
    header.role = 1 ∧ header.level ≤ maximumTreeLevel ∧ (header.type = 1 ↔ header.level = 0) ∧
    header.entryCount ≠ 0 ∧ header.flags = 0 ∧
    header.slotsOffset = pageLayoutBytes + header.prefixLength ∧
    header.entriesOffset = header.slotsOffset + header.entryCount * 8 ∧
    header.entriesOffset ≤ header.usedLength ∧ header.usedLength ≤ payload.length ∧
    allZero header.reserved ∧ (header.type = 1 → allZero header.leftmostChild)

instance (header : PageHeader) (kind : Nat) (payload : Bytes) :
    Decidable (header.RootMatches kind payload) := by
  unfold PageHeader.RootMatches
  infer_instance

/-- `shallowValidateOrderedRoot` (`exact_store.hpp:2150-2221`): the level of the root. -/
def shallowValidateOrderedRoot (reference : ExtentReference) : Except LoadError (Option Nat) :=
  if reference.null then .ok none
  else do
    validateOrderedPageReference L format reference
    let kind ← readUnitKind store reference
    require (.corrupt "ordered root role is invalid") (kind = 1 ∨ kind = 2)
    let payload ← readAuthenticatedExtent L format store reference { unitKind := kind } none
    let header := readPageHeader payload
    require (.corrupt "ordered root header is invalid") (header.RootMatches kind payload)
    let leftmost := decodeExtentReference header.leftmostChild
    require (.corrupt "ordered internal root has a null child")
      (header.type = 2 → leftmost.null = false)
    if header.type = 2 then validateOrderedPageReference L format leftmost
    pure (some header.level)

/-- `loadExactValues` (`exact_store.hpp:2223-2242`) with `mutableRoot`, which stays as it is for
a null root. -/
def loadExactValues (reference : ExtentReference) :
    Except LoadError (OrderedLoad × MutableRoot) := do
  let start : OrderedLoad := { values := Keyed.empty, reachable := [] }
  match ← shallowValidateOrderedRoot L format store reference with
  | none => pure (start, MutableRoot.empty)
  | some level =>
    let (tree, _, state) ← loadOrderedPage L format store level reference start
    pure (state, ⟨level, tree⟩)

end Miare
