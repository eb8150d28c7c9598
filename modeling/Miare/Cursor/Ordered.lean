import Miare.Tree.Mutable
import Miare.Misc.Guard
import Miare.Misc.LowerBound

/-!
# Cursors over the ordered tree

`OrderedCursor` (`include/miare/detail/ordered_cursor.hpp:52-390`) keeps the child indexes from the
root to a leaf and an index into the values of the leaf.  The model is of a cursor whose transaction
is live, used from its own thread on an unchanged tree.
-/

namespace Miare

open Misc

/-- Why a cursor refuses a call; `outOfRange` is an index behind the end of a vector. -/
inductive CursorError where
  | resourceLimit
  | boundTooLong
  | keyTooLong
  | unpositioned
  | outOfRange
deriving DecidableEq, Repr

/-- Text of the errors: the first is a `DatabaseError`, the others are `ContractError`s. -/
def CursorError.message : CursorError → Option String
  | .resourceLimit => some "transaction cursor limit reached"
  | .boundTooLong => some "range bound exceeds the capacity profile"
  | .keyTooLong => some "key exceeds the capacity profile"
  | .unpositioned => some "cursor is unpositioned"
  | .outOfRange => none

/-- The fields of a cursor. -/
structure OrderedCursor where
  root : MutableRoot
  lower : Option Bytes := none
  upper : Option Bytes := none
  path : List Nat := []
  valueIndex : Nat := 0
  positioned : Bool := false

/-! ## Walking the tree -/

/-- `nodeAtDepth` (`ordered_cursor.hpp:225-232`): the node at the end of a path. -/
def followPath : {level : Nat} → MutableTree level → List Nat → Option MutableRoot
  | level, node, [] => some ⟨level, node⟩
  | 0, _, _ :: _ => none
  | level + 1, node, index :: rest =>
    match (node : MutableNode (MutableTree level)).items[index]? with
    | none => none
    | some child => followPath child rest

/-- Descend to a leaf: the path and the values of the leaf.  `choose` picks a child by the least
keys of the children, and gives up when there are none. -/
def descendBy (choose : List Bytes → Option Nat) :
    {level : Nat} → MutableTree level → List Nat × Option (List MutableTreeValue)
  | 0, node => ([], some (node : MutableNode MutableTreeValue).items)
  | level + 1, node =>
    let inner : MutableNode (MutableTree level) := node
    match choose (inner.items.map MutableTree.minimumKey) with
    | none => ([], none)
    | some index =>
      match inner.items[index]? with
      | none => ([], none)
      | some child =>
        let below := descendBy choose child
        (index :: below.1, below.2)

/-- `children.front()`. -/
def chooseFirst (minimums : List Bytes) : Option Nat :=
  if minimums = [] then none else some 0

/-- `children.back()`. -/
def chooseLast (minimums : List Bytes) : Option Nat :=
  if minimums = [] then none else some (minimums.length - 1)

/-- What differs between `moveToNextLeaf` and `moveToPreviousLeaf`. -/
structure LeafStep where
  sibling : (child count : Nat) → Option Nat
  choose : List Bytes → Option Nat
  valueIndex : (size : Nat) → Nat

def nextLeafStep : LeafStep where
  sibling child count := if child + 1 = count then none else some (child + 1)
  choose := chooseFirst
  valueIndex _ := 0

def previousLeafStep : LeafStep where
  sibling child _ := if child = 0 then none else some (child - 1)
  choose := chooseLast
  valueIndex size := size - 1

/-- The loop of `moveToNextLeaf` and `moveToPreviousLeaf` (`ordered_cursor.hpp:310-361`): from the
leaf upwards, look for a node with a sibling and descend from it.  The value index is absent when
the loop ends without a leaf. -/
def moveToLeaf (step : LeafStep) (root : MutableRoot) :
    (depth : Nat) → (path : List Nat) → Except CursorError (List Nat × Option Nat)
  | 0, path => .ok (path, none)
  | depth + 1, path =>
    match followPath root.tree (path.take depth), path[depth]? with
    | some ⟨level + 1, parent⟩, some child =>
      let siblings := (parent : MutableNode (MutableTree level)).items
      match step.sibling child siblings.length with
      | none => moveToLeaf step root depth path
      | some other =>
        match siblings[other]? with
        | none => .error .outOfRange
        | some node =>
          let below := descendBy step.choose node
          let path := path.take depth ++ other :: below.1
          match below.2 with
          | none => .error .outOfRange
          | some [] => moveToLeaf step root depth path
          | some values => .ok (path, some (step.valueIndex values.length))
    | _, _ => .error .outOfRange

namespace OrderedCursor

/-- The values of the leaf at the end of the path. -/
def leafValues (cursor : OrderedCursor) : Except CursorError (List MutableTreeValue) :=
  match followPath cursor.root.tree cursor.path with
  | some ⟨0, leaf⟩ => .ok (leaf : MutableNode MutableTreeValue).items
  | _ => .error .outOfRange

/-- `leaf().values[valueIndex_]`. -/
def currentValue (cursor : OrderedCursor) : Except CursorError MutableTreeValue := do
  let values ← cursor.leafValues
  match values[cursor.valueIndex]? with
  | none => .error .outOfRange
  | some value => .ok value

/-- A call's answer and the cursor behind it. -/
abbrev Moved : Type := Except CursorError (Bool × OrderedCursor)

/-- `moveToNextLeaf` and `moveToPreviousLeaf`. -/
def moveLeaf (step : LeafStep) (cursor : OrderedCursor) : Moved := do
  match ← moveToLeaf step cursor.root cursor.path.length cursor.path with
  | (path, none) => pure (false, { cursor with path, positioned := false })
  | (path, some valueIndex) => pure (true, { cursor with path, valueIndex, positioned := true })

def moveToNextLeaf (cursor : OrderedCursor) : Moved := cursor.moveLeaf nextLeafStep

def moveToPreviousLeaf (cursor : OrderedCursor) : Moved := cursor.moveLeaf previousLeafStep

/-- `descendLeft` and `descendRight` (`ordered_cursor.hpp:238-276`). -/
def descendEdge (choose : List Bytes → Option Nat) (valueIndex : (size : Nat) → Nat)
    (cursor : OrderedCursor) : Bool × OrderedCursor :=
  match descendBy choose cursor.root.tree with
  | (path, none) => (false, { cursor with path, positioned := false })
  | (path, some []) => (false, { cursor with path, positioned := false })
  | (path, some values) =>
    (true, { cursor with path, valueIndex := valueIndex values.length, positioned := true })

def descendLeft (cursor : OrderedCursor) : Bool × OrderedCursor :=
  cursor.descendEdge chooseFirst fun _ => 0

def descendRight (cursor : OrderedCursor) : Bool × OrderedCursor :=
  cursor.descendEdge chooseLast fun size => size - 1

/-- `std::lower_bound` on the values of a leaf, which are in order. -/
def lowerBound (sought : Bytes) (values : List MutableTreeValue) : Nat :=
  lowerIndex MutableTreeValue.key sought values

/-- `descendLowerBound` (`ordered_cursor.hpp:278-308`). -/
def descendLowerBound (sought : Bytes) (cursor : OrderedCursor) : Moved :=
  match descendBy (mutableChildFor sought) cursor.root.tree with
  | (path, none) => .ok (false, { cursor with path, positioned := false })
  | (path, some values) =>
    let valueIndex := lowerBound sought values
    let positioned := decide (valueIndex ≠ values.length)
    let cursor := { cursor with path, valueIndex, positioned }
    if positioned then .ok (true, cursor) else cursor.moveToNextLeaf

/-- `moveToNextValue`. -/
def moveToNextValue (cursor : OrderedCursor) : Moved := do
  let values ← cursor.leafValues
  if cursor.valueIndex + 1 ≠ values.length then
    pure (true, { cursor with valueIndex := cursor.valueIndex + 1 })
  else cursor.moveToNextLeaf

/-- `moveToPreviousValue`. -/
def moveToPreviousValue (cursor : OrderedCursor) : Moved :=
  if cursor.positioned ∧ cursor.valueIndex ≠ 0 then
    .ok (true, { cursor with valueIndex := cursor.valueIndex - 1 })
  else cursor.moveToPreviousLeaf

/-! ## Ranges -/

/-- Unpositioned, with the answer `false`. -/
def leave (cursor : OrderedCursor) : Bool × OrderedCursor := (false, { cursor with positioned := false })

/-- `acceptLowerBound` with what its callers make of a refusal. -/
def acceptLowerBound (cursor : OrderedCursor) : Moved :=
  match cursor.lower with
  | none => .ok (true, cursor)
  | some lower => do
    let current ← cursor.currentValue
    if current.key < lower then pure cursor.leave else pure (true, cursor)

/-- `acceptUpperBound`. -/
def acceptUpperBound (cursor : OrderedCursor) : Moved :=
  match cursor.upper with
  | none => .ok (true, cursor)
  | some upper => do
    let current ← cursor.currentValue
    if current.key < upper then pure (true, cursor) else pure cursor.leave

/-- A movement and the check behind it, which is made only when the movement found a key. -/
def andAccept (accept : OrderedCursor → Moved) (moved : Bool × OrderedCursor) : Moved :=
  if moved.1 then accept moved.2 else .ok moved.2.leave

/-! ## Calls -/

/-- `first` (`ordered_cursor.hpp:105-111`). -/
def first (cursor : OrderedCursor) : Moved := do
  let moved ← match cursor.lower with
    | none => pure cursor.descendLeft
    | some lower => cursor.descendLowerBound lower
  andAccept acceptUpperBound moved

/-- The branch of `last` with an upper bound: the key before the first one at or behind it, or the
last of all. -/
def lastBefore (upper : Bytes) (cursor : OrderedCursor) : Moved := do
  let (found, behind) ← cursor.descendLowerBound upper
  if found then behind.moveToPreviousValue else pure behind.descendRight

/-- `last` (`ordered_cursor.hpp:115-134`). -/
def last (cursor : OrderedCursor) : Moved := do
  let moved ← match cursor.upper with
    | none => pure cursor.descendRight
    | some upper => cursor.lastBefore upper
  andAccept acceptLowerBound moved

/-- `seekLowerBound` (`ordered_cursor.hpp:138-151`). -/
def seekLowerBound (L : Limits) (key : Bytes) (cursor : OrderedCursor) : Moved := do
  require .keyTooLong (key.length ≤ L.maxKeyBytes)
  let sought := match cursor.lower with
    | none => key
    | some lower => if key < lower then lower else key
  let moved ← cursor.descendLowerBound sought
  andAccept acceptUpperBound moved

/-- `next` (`ordered_cursor.hpp:155-162`). -/
def next (cursor : OrderedCursor) : Moved := do
  require .unpositioned (cursor.positioned = true)
  let moved ← cursor.moveToNextValue
  andAccept acceptUpperBound moved

/-- `previous` (`ordered_cursor.hpp:166-173`). -/
def previous (cursor : OrderedCursor) : Moved := do
  require .unpositioned (cursor.positioned = true)
  let moved ← cursor.moveToPreviousValue
  andAccept acceptLowerBound moved

end OrderedCursor

/-- The calls that move a cursor. -/
inductive CursorCall where
  | first
  | last
  | seekLowerBound (key : Bytes)
  | next
  | previous
deriving DecidableEq, Repr

namespace OrderedCursor

def call (L : Limits) (cursor : OrderedCursor) : CursorCall → Moved
  | .first => cursor.first
  | .last => cursor.last
  | .seekLowerBound key => cursor.seekLowerBound L key
  | .next => cursor.next
  | .previous => cursor.previous

/-- `key()` and `value()`, for a positioned cursor. -/
def current (cursor : OrderedCursor) : Option (Bytes × Bytes) :=
  if cursor.positioned then
    match cursor.currentValue with
    | .error _ => none
    | .ok value => some (value.key, value.value)
  else none

/-- What a caller sees of a call: the answer, or the error with the cursor as it was, and the key and
value it then stands on. -/
def observe (L : Limits) (cursor : OrderedCursor) (call_ : CursorCall) :
    (Except CursorError Bool × Option (Bytes × Bytes)) × OrderedCursor :=
  match cursor.call L call_ with
  | .error error => ((.error error, cursor.current), cursor)
  | .ok (answer, moved) => ((.ok answer, moved.current), moved)

/-- What a caller sees of a sequence of calls. -/
def run (L : Limits) : OrderedCursor → List CursorCall →
    List (Except CursorError Bool × Option (Bytes × Bytes))
  | _, [] => []
  | cursor, call_ :: rest =>
    let (seen, moved) := cursor.observe L call_
    seen :: run L moved rest

end OrderedCursor

/-! ## Making cursors -/

/-- `OrderedRangeKind` with its bounds. -/
inductive OrderedRange where
  | all
  | halfOpen (lower upper : Option Bytes)
  | startsWith (head : Bytes)
deriving DecidableEq, Repr

/-- The least byte string behind all that begin with `head`: trailing bytes 0xff are dropped and the
last of the others is incremented (`ordered_cursor.hpp:433-444`). -/
def prefixUpperBound (head : Bytes) : Option Bytes :=
  match head.reverse.dropWhile (· = 255) with
  | [] => none
  | back :: rest => some ((back + 1) :: rest).reverse

/-- `makeOrderedCursor` (`ordered_cursor.hpp:393-452`); `maxKeyBytes + 1` is a
`std::uint64_t`. -/
def makeOrderedCursor (L : Limits) (liveCursors : Nat) (root : MutableRoot) (range : OrderedRange) :
    Except CursorError OrderedCursor := do
  require .resourceLimit (liveCursors ≠ L.maxCursorsPerTransaction)
  match range with
  | .all => pure { root }
  | .halfOpen lower upper => do
    let maximumBoundBytes := (L.maxKeyBytes + 1) % 2 ^ 64
    require .boundTooLong
      ((∀ bound ∈ lower, bound.length ≤ maximumBoundBytes) ∧
        ∀ bound ∈ upper, bound.length ≤ maximumBoundBytes)
    pure { root, lower, upper }
  | .startsWith head => do
    require .keyTooLong (head.length ≤ L.maxKeyBytes)
    pure { root, lower := some head, upper := prefixUpperBound head }

end Miare
