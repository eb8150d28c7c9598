import Miare.Misc.Program
import Miare.Tree.Load

/-!
# Lazy loading of the cursor tree

`ensureValuesLoaded` (`include/miare/database.hpp:2163-2176`) passes the tree of the session to
`loadExactValues`, which fills it in place (`include/miare/detail/exact_store.hpp:1998-2001`,
`2090-2147`).  What was filled in before an exception stays in the tree; the values are returned and
arrive only with a whole load.
-/

namespace Miare

open Misc

/-- `MutableTreeNode` while it is filled: its values and children need not fit its level. -/
structure CursorNode where
  reference : ExtentReference := {}
  minimumKey : Bytes := []
  level : Nat := 0
  dirty : Bool := false
  values : List MutableTreeValue := []
  children : List CursorNode := []

/-- The node that is filled and the values that are collected. -/
structure FillState where
  node : CursorNode
  load : OrderedLoad

/-- A program that fills a node. -/
abbrev Fill (α : Type) : Type := Program LoadError FillState α

/-- Change the node. -/
def modifyNode (change : CursorNode → CursorNode) : Fill Unit :=
  modify fun state => { state with node := change state.node }

/-- The state behind the filling of a child. -/
def FillState.putChild (state : FillState) (index : Nat) (child : FillState) : FillState where
  node := { state.node with children := state.node.children.set index child.node }
  load := child.load

/-- Fill `children[index]`. -/
def inChild {α : Type} (index : Nat) (program : Fill α) : Fill α := fun state =>
  match state.node.children[index]? with
  | none => .error .outOfBounds state
  | some child =>
    match program { node := child, load := state.load } with
    | .ok value after => .ok value (state.putChild index after)
    | .error error after => .error error (state.putChild index after)

section Load

variable (L : Limits) (format : OpenedFormat) (store : ExtentStore)

/-- The page at a reference up to the bounds check; the node gets its reference and its level
before the header is checked. -/
def fillHeader (expectedLevel : Nat) (reference : ExtentReference) : Fill (Bytes × PageHeader) := do
  let (kind, payload) ← attempt (readTreePage L format store orderedRole expectedLevel reference)
  let header := readPageHeader payload
  modifyNode fun node => { node with reference, level := header.level }
  demand (.corrupt "ordered page header is invalid") (header.Matches orderedRole kind expectedLevel)
  demand (.corrupt "ordered page bounds are invalid") (header.Bounded orderedRole payload)
  modify fun state =>
    { state with load := { state.load with reachable := state.load.reachable ++ [reference] } }
  pure (payload, header)

/-- One entry of a leaf: the value goes into the node and into the map. -/
def fillEntry (shared : Bytes) (items : List MutableTreeValue) (entry : Bytes) :
    Fill (List MutableTreeValue) := do
  let item ← attempt (decodeLeafEntry L format store shared
    (previousKey MutableTreeValue.key items) entry)
  modifyNode fun node => { node with values := node.values ++ [item] }
  let state ← get
  let load ← attempt (state.load.emplace item)
  modify fun state => { state with load }
  pure (items ++ [item])

/-- The loop over the slots of a leaf. -/
def fillSlots (shared payload : Bytes) (usedLength : Nat) :
    (count slot expectedEntry : Nat) → List MutableTreeValue → Fill (List MutableTreeValue × Nat)
  | 0, _, expectedEntry, items => pure (items, expectedEntry)
  | count + 1, slot, expectedEntry, items => do
    let entryOffset ← attempt (readField 4 payload slot)
    let entryLength ← attempt (readField 4 payload (slot + 4))
    demand (.corrupt "ordered page slot is invalid")
      (entryOffset = expectedEntry ∧ 20 ≤ entryLength ∧ entryOffset ≤ usedLength ∧
        entryLength ≤ usedLength - entryOffset)
    let entry ← attempt (view payload entryOffset entryLength)
    let items ← fillEntry L format store shared items entry
    fillSlots shared payload usedLength count (slot + 8) (expectedEntry + entryLength) items

/-- The loop over the children; each is filled in its place. -/
def fillSubtrees (fill : ExtentReference → Fill PageBounds) :
    (index : Nat) → (maximum : Option Bytes) → List (Bytes × ExtentReference) →
      Fill (List PageBounds)
  | _, _, [] => pure []
  | index, maximum, (separator, child) :: rest => do
    let bounds ← inChild index (fill child)
    demand (.corrupt "ordered internal separator is not the right-subtree minimum")
      (∀ _ ∈ maximum, bounds.minimum = separator)
    demand (.corrupt "ordered subtrees overlap or are reordered")
      (∀ last ∈ maximum, unsignedBytesLess last bounds.minimum)
    let others ← fillSubtrees fill (index + 1) (some bounds.maximum) rest
    pure (bounds :: others)

/-- The bounds of a page from those of its children. -/
def joinBounds (bounds : List PageBounds) : PageBounds where
  minimum := (bounds.head?.map PageBounds.minimum).getD []
  maximum := (bounds.getLast?.map PageBounds.maximum).getD []

/-- `loadOrderedPage` with a `mutableNode`. -/
def fillOrderedPage : (expectedLevel : Nat) → ExtentReference → Fill PageBounds
  | 0, reference => do
    let (payload, header) ← fillHeader L format store 0 reference
    let (values, stop) ← fillSlots L format store (sharedPrefix payload header) payload
      header.usedLength header.entryCount header.slotsOffset header.entriesOffset []
    demand (.corrupt "ordered page image is noncanonical")
      (stop = header.usedLength ∧ leafSharedLength values = header.prefixLength)
    let bounds := keyBounds (values.map MutableTreeValue.key)
    modifyNode fun node => { node with minimumKey := bounds.minimum }
    pure bounds
  | level + 1, reference => do
    let (payload, header) ← fillHeader L format store (level + 1) reference
    let children ← attempt (pageChildren L payload header)
    modifyNode fun node =>
      { node with children := node.children ++ List.replicate children.length {} }
    let subtrees ← fillSubtrees (fillOrderedPage level) 0 none children
    let bounds := joinBounds subtrees
    modifyNode fun node => { node with minimumKey := bounds.minimum }
    pure bounds

/-- `loadExactValues` with a `mutableRoot`. -/
def fillExactValues (reference : ExtentReference) : Fill Unit := do
  let root ← attempt (shallowValidateOrderedRoot L format store reference)
  match root with
  | none => pure ()
  | some level =>
    let _ ← fillOrderedPage L format store level reference

/-- The members of a session that hold the ordered values. -/
structure LazyValues where
  values : OrderedKeyValues := Keyed.empty
  valuesLoaded : Bool := false
  cursorTree : CursorNode := {}

/-- `ensureValuesLoaded` for the root of the publication. -/
def LazyValues.ensureLoaded (reference : ExtentReference) : Program LoadError LazyValues Unit :=
  fun session =>
    if session.valuesLoaded then .ok () session
    else
      match fillExactValues L format store reference
        { node := session.cursorTree, load := { values := Keyed.empty, reachable := [] } } with
      | .ok () after =>
        .ok () { values := after.load.values, valuesLoaded := true, cursorTree := after.node }
      | .error error after => .error error { session with cursorTree := after.node }

end Load

/-- The session behind an attempt, which may have thrown. -/
def LazyValues.afterAttempt (L : Limits) (format : OpenedFormat) (reference : ExtentReference)
    (session : LazyValues) (store : ExtentStore) : LazyValues :=
  match LazyValues.ensureLoaded L format store reference session with
  | .ok () after => after
  | .error _ after => after

/-- The session behind some attempts; each sees the extents that its reads can get. -/
def LazyValues.afterAttempts (L : Limits) (format : OpenedFormat) (reference : ExtentReference)
    (session : LazyValues) (attempts : List ExtentStore) : LazyValues :=
  attempts.foldl (LazyValues.afterAttempt L format reference) session

end Miare
