import Miare.Allocator.Load
import Miare.Misc.Checked
import Miare.Tree.LoadFixed

/-!
# Page parsing on machine words

The parsing parts of `loadOrderedPage`, `loadFixedTreePage`, `decodeAllocatorIndexLeaf` and
`loadAllocatorIndexPage` (`include/miare/detail/exact_store.hpp:1996-2115`, `2298-2417`,
`1255-1342`, `1377-1470`) with every access to a buffer and every sum and difference of offsets and
lengths, in the order in which the code makes them.  An operand of `||` is evaluated only when the
ones before it are false, so a condition of several operands is a sequence of checks here.
-/

namespace Miare

open Misc

/-! ## Header and regions -/

/-- The fields of the header. -/
def checkedHeader (payload : Bytes) : Checked LoadError PageHeader := do
  let type ← readWord 2 payload 10
  let level ← readWord 4 payload 20
  let magic ← readBytes payload 0 8
  let version ← readWord 2 payload 8
  let headerLength ← readWord 4 payload 12
  let role ← readWord 4 payload 16
  let flags ← readWord 4 payload 44
  let reserved ← readBytes payload 80 96
  let entryCount ← readWord 4 payload 24
  let prefixLength ← readWord 4 payload 28
  let slotsOffset ← readWord 4 payload 32
  let entriesOffset ← readWord 4 payload 36
  let usedLength ← readWord 4 payload 40
  let leftmostChild ← subspan payload 48 32
  pure
    { magic, version, type, headerLength, role, level, entryCount, prefixLength, slotsOffset,
      entriesOffset, usedLength, flags, leftmostChild, reserved }

/-- The operands that all four parsers share. -/
def checkedRegions (error : LoadError) (keyLimit : Option Nat) (header : PageHeader)
    (payload : Bytes) : Checked LoadError Unit := do
  check error (∀ size ∈ keyLimit, header.prefixLength ≤ size)
  let slots ← addWord 64 pageLayoutBytes header.prefixLength
  check error (header.slotsOffset = slots)
  let scaled ← mulWord 64 header.entryCount 8
  let entries ← addWord 64 header.slotsOffset scaled
  check error (header.entriesOffset = entries)
  check error (header.entriesOffset ≤ header.usedLength ∧ header.usedLength ≤ payload.length)
  let unused ← readBytes payload header.usedLength payload.length
  check error (allZero unused)

/-- The header and the bounds of a page of a tree. -/
def checkedFrame (T : TreeRole) (kind expectedLevel : Nat) (payload : Bytes) :
    Checked LoadError PageHeader := do
  let header ← checkedHeader payload
  check (.corrupt (T.subject ++ " page header is invalid")) (header.Matches T kind expectedLevel)
  check (.corrupt (T.subject ++ " page bounds are invalid"))
    (¬(header.type = 1 ∧ header.entryCount = 0))
  checkedRegions (.corrupt (T.subject ++ " page bounds are invalid")) T.keySize header payload
  check (.corrupt (T.subject ++ " page bounds are invalid"))
    (header.type = 1 → allZero header.leftmostChild)
  pure header

/-- The place of a slot and its two words. -/
def checkedSlot (payload : Bytes) (slotsOffset index : Nat) : Checked LoadError (Nat × Nat) := do
  let scaled ← mulWord 32 index 8
  let slot ← addWord 32 slotsOffset scaled
  let entryOffset ← readWord 4 payload slot
  let second ← addWord 32 slot 4
  let entryLength ← readWord 4 payload second
  pure (entryOffset, entryLength)

/-- The loop over the slots of a tree page.  `step` is given the place of an entry. -/
def checkedSlots {σ : Type} (slotError : String) (minimumLength : Nat) (payload : Bytes)
    (usedLength slotsOffset : Nat) (step : σ → (entryOffset entryLength : Nat) → Checked LoadError σ) :
    (remaining index expectedEntry : Nat) → σ → Checked LoadError (σ × Nat)
  | 0, _, expectedEntry, state => .ok (state, expectedEntry)
  | remaining + 1, index, expectedEntry, state => do
    let (entryOffset, entryLength) ← checkedSlot payload slotsOffset index
    check (.corrupt slotError)
      (entryOffset = expectedEntry ∧ minimumLength ≤ entryLength ∧ entryOffset ≤ usedLength)
    let room ← subWord usedLength entryOffset
    check (.corrupt slotError) (entryLength ≤ room)
    let state ← step state entryOffset entryLength
    let next ← addWord 64 expectedEntry entryLength
    checkedSlots slotError minimumLength payload usedLength slotsOffset step remaining (index + 1)
      next state

/-! ## The ordered tree -/

section Ordered

variable (L : Limits) (format : OpenedFormat) (store : ExtentStore)

/-- The key of an entry. -/
def checkedOrderedKey (shared : Bytes) (fixedLength : Nat) (previous : Option Bytes)
    (payload : Bytes) (entryOffset entryLength : Nat) : Checked LoadError (Bytes × Nat) := do
  let suffixLength ← readWord 4 payload entryOffset
  let most ← subWord entryLength fixedLength
  check (.corrupt "ordered page key suffix is invalid") (suffixLength ≤ most)
  let start ← addWord 64 entryOffset 4
  let suffix ← subspan payload start suffixLength
  let key := shared ++ suffix
  check (.corrupt "ordered page keys are not canonical")
    (key.length ≤ L.maxKeyBytes ∧ ∀ before ∈ previous, before < key)
  pure (key, suffixLength)

/-- The value of a leaf entry behind its key. -/
def checkedLeafEntry (shared : Bytes) (previous : Option Bytes) (payload : Bytes)
    (entryOffset entryLength : Nat) : Checked LoadError MutableTreeValue := do
  let (key, suffixLength) ← checkedOrderedKey L shared 20 previous payload entryOffset entryLength
  let start ← addWord 32 entryOffset 4
  let representation ← addWord 32 start suffixLength
  let mark ← readWord 1 payload representation
  check (.corrupt "ordered leaf value representation is invalid") (mark = 0 ∨ mark = 1)
  let first ← addWord 32 representation 1
  let last ← addWord 32 representation 8
  let padding ← readBytes payload first last
  check (.corrupt "ordered leaf value representation is invalid") (allZero padding)
  let valueLength ← readWord 8 payload last
  let overflow := mark = 1
  check (.corrupt "ordered leaf value length is invalid")
    (valueLength ≤ L.maxValueBytes ∧ (overflow ↔ L.maxInlineValueBytes < valueLength))
  let fixed ← addWord 64 20 suffixLength
  let total ← addWord 64 fixed (if overflow then 32 else valueLength)
  check (.corrupt "ordered leaf value length is invalid") (entryLength = total)
  let tail ← addWord 32 representation 16
  if overflow then
    let bytes ← subspan payload tail 32
    let reference := decodeExtentReference bytes
    let value ← settled (readAuthenticatedExtent L format store reference { unitKind := 11 }
      (some valueLength))
    pure { key, value, overflow := reference }
  else
    let value ← subspan payload tail valueLength
    pure { key, value }

/-- The loop body for a leaf. -/
def checkedLeafStep (shared payload : Bytes) (state : List MutableTreeValue × OrderedLoad)
    (entryOffset entryLength : Nat) :
    Checked LoadError (List MutableTreeValue × OrderedLoad) := do
  let item ← checkedLeafEntry L format store shared (previousKey MutableTreeValue.key state.1)
    payload entryOffset entryLength
  let load ← settled (state.2.emplace item)
  pure (state.1 ++ [item], load)

/-- The loop body for an internal page. -/
def checkedSeparatorStep (shared payload : Bytes) (items : List (Bytes × ExtentReference))
    (entryOffset entryLength : Nat) : Checked LoadError (List (Bytes × ExtentReference)) := do
  let (key, suffixLength) ← checkedOrderedKey L shared 36 (previousKey Prod.fst items) payload
    entryOffset entryLength
  let start ← addWord 32 entryOffset 4
  let child ← addWord 32 start suffixLength
  let bytes ← subspan payload child 32
  pure (items ++ [(key, decodeExtentReference bytes)])

/-- What the parsing of an ordered page gives. -/
inductive OrderedPage where
  | leaf (values : List MutableTreeValue) (load : OrderedLoad)
  | inner (children : List (Bytes × ExtentReference))

/-- The parsing part of `loadOrderedPage`. -/
def parseOrderedPage (kind expectedLevel : Nat) (state : OrderedLoad) (payload : Bytes) :
    Checked LoadError OrderedPage := do
  let header ← checkedFrame orderedRole kind expectedLevel payload
  let shared ← subspan payload pageLayoutBytes header.prefixLength
  if header.type = 1 then
    let ((values, state), stop) ← checkedSlots "ordered page slot is invalid" 20 payload
      header.usedLength header.slotsOffset (checkedLeafStep L format store shared payload)
      header.entryCount 0 header.entriesOffset ([], state)
    check (.corrupt "ordered page image is noncanonical")
      (stop = header.usedLength ∧ leafSharedLength values = header.prefixLength)
    pure (.leaf values state)
  else
    let (separators, stop) ← checkedSlots "ordered page slot is invalid" 36 payload
      header.usedLength header.slotsOffset (checkedSeparatorStep L shared payload)
      header.entryCount 0 header.entriesOffset []
    let bounds := keyBounds (separators.map Prod.fst)
    check (.corrupt "ordered page image is noncanonical")
      (stop = header.usedLength ∧
        commonPrefixLength bounds.minimum bounds.maximum = header.prefixLength)
    pure (.inner (([], decodeExtentReference header.leftmostChild) :: separators))

end Ordered

/-! ## Fixed-key trees -/

/-- The prefix that the first key shares with a later one, of the length found so far. -/
def checkedCommonPrefix (first : Option Bytes) (key : Bytes) (canonical : Nat) :
    Checked LoadError Nat :=
  match first with
  | none => pure canonical
  | some first => do
    let left ← subspan first 0 canonical
    let right ← subspan key 0 canonical
    pure (commonPrefixLength left right)

section Fixed

variable (L : Limits) (format : OpenedFormat)

/-- `fixedTreeKeyLess`. -/
def checkedKeyLess (role : Nat) (left right : Bytes) : Checked LoadError Bool :=
  if role = 3 then do
    let first ← readWord 8 left 0
    let second ← readWord 8 right 0
    pure (decide (first < second))
  else pure (unsignedBytesLess left right)

/-- The check of a key against the one before. -/
def checkedKeyOrder (role : Nat) (previous : Option Bytes) (key : Bytes) : Checked LoadError Unit :=
  match previous with
  | none => pure ()
  | some before => do
    let less ← checkedKeyLess role before key
    check (.corrupt "fixed-key page keys are not canonical") (less = true)

/-- The entries of a page so far, and `canonicalPrefixLength`. -/
structure FixedScan where
  items : List FixedLeafEntry
  canonicalPrefixLength : Nat

/-- The loop body of a fixed-key page. -/
def checkedFixedStep (T : TreeRole) (leaf : Bool) (shared payload : Bytes) (scan : FixedScan)
    (entryOffset entryLength : Nat) : Checked LoadError FixedScan := do
  let suffixLength ← readWord 4 payload entryOffset
  let whole ← addWord 64 36 suffixLength
  check (.corrupt "fixed-key page entry is invalid") (entryLength = whole)
  let length ← addWord 32 shared.length suffixLength
  check (.corrupt "fixed-key page entry is invalid") (some length = T.keySize)
  let start ← addWord 64 entryOffset 4
  let suffix ← subspan payload start suffixLength
  let key := shared ++ suffix
  checkedKeyOrder T.role (previousKey FixedLeafEntry.key scan.items) key
  let canonicalPrefixLength ← checkedCommonPrefix (scan.items.head?.map FixedLeafEntry.key) key
    scan.canonicalPrefixLength
  let behind ← addWord 32 entryOffset 4
  let child ← addWord 32 behind suffixLength
  let bytes ← subspan payload child 32
  let reference := decodeExtentReference bytes
  check (.corrupt "fixed-key page has a null reference") (reference.null = false)
  if leaf then settled (validateExtentReference L format reference)
  pure { items := scan.items ++ [{ key, reference }], canonicalPrefixLength }

/-- What the parsing of a fixed-key page gives. -/
inductive FixedPage where
  | leaf (entries : List FixedLeafEntry)
  | inner (children : List (Bytes × ExtentReference))
deriving DecidableEq, Repr

/-- The loop of a fixed-key page and the check of its image. -/
def checkedFixedEntries (T : TreeRole) (leaf : Bool) (header : PageHeader) (shared payload : Bytes) :
    Checked LoadError (List FixedLeafEntry) := do
  let (scan, stop) ← checkedSlots "fixed-key page slot is invalid" 36 payload header.usedLength
    header.slotsOffset (checkedFixedStep L format T leaf shared payload) header.entryCount 0
    header.entriesOffset
    { items := []
      canonicalPrefixLength := if header.entryCount = 0 then 0 else T.keySize.getD 0 }
  check (.corrupt "fixed-key page image is noncanonical")
    (stop = header.usedLength ∧ scan.canonicalPrefixLength = header.prefixLength)
  pure scan.items

/-- The parsing part of `loadFixedTreePage`. -/
def parseFixedTreePage (T : TreeRole) (kind expectedLevel : Nat) (payload : Bytes) :
    Checked LoadError FixedPage := do
  let header ← checkedFrame T kind expectedLevel payload
  let shared ← subspan payload pageLayoutBytes header.prefixLength
  if header.type = 1 then
    let entries ← checkedFixedEntries L format T true header shared payload
    pure (.leaf entries)
  else
    let leftmost := decodeExtentReference header.leftmostChild
    check (.corrupt "fixed-key internal page has a null child") (leftmost.null = false)
    let entries ← checkedFixedEntries L format T false header shared payload
    pure (.inner (([], leftmost) :: entries.map fun item => (item.key, item.reference)))

end Fixed

/-! ## Allocator indexes -/

/-- `std::array<std::byte, 16>`, the keys of both indexes. -/
def allocatorKeyBytes : Nat := 16

/-- Where an entry of a leaf begins. -/
def checkedLeafRoom (usedLength entryOffset : Nat) : Checked LoadError Unit := do
  check (.corrupt "allocator index entry is out of bounds") (entryOffset ≤ usedLength)
  let room ← subWord usedLength entryOffset
  check (.corrupt "allocator index entry is out of bounds") (4 ≤ room)

/-- Where an entry of an internal page begins; the code adds where it subtracts in a leaf. -/
def checkedInnerRoom (usedLength entryOffset : Nat) : Checked LoadError Unit := do
  check (.corrupt "allocator internal entry is out of bounds") (entryOffset ≤ usedLength)
  let stop ← addWord 32 entryOffset 4
  check (.corrupt "allocator internal entry is out of bounds") (stop ≤ usedLength)

/-- The loop over the slots of an index page; `step` is given the place of an entry and the length
of its suffix. -/
def checkedAllocatorSlots {σ : Type} (subject : String)
    (begins : (usedLength entryOffset : Nat) → Checked LoadError Unit)
    (tailLength keyLength : Nat) (payload : Bytes) (header : PageHeader)
    (step : σ → (entryOffset suffixLength : Nat) → Checked LoadError σ) :
    (remaining index expectedEntry : Nat) → σ → Checked LoadError (σ × Nat)
  | 0, _, expectedEntry, state => .ok (state, expectedEntry)
  | remaining + 1, index, expectedEntry, state => do
    let (entryOffset, entryLength) ← checkedSlot payload header.slotsOffset index
    begins header.usedLength entryOffset
    let suffixLength ← readWord 4 payload entryOffset
    check (.corrupt (subject ++ " entry is invalid")) (entryOffset = expectedEntry)
    let rest ← subWord keyLength header.prefixLength
    check (.corrupt (subject ++ " entry is invalid")) (suffixLength = rest)
    let total ← addWord 32 (4 + tailLength) suffixLength
    check (.corrupt (subject ++ " entry is invalid")) (entryLength = total)
    let room ← subWord header.usedLength entryOffset
    check (.corrupt (subject ++ " entry is invalid")) (entryLength ≤ room)
    let state ← step state entryOffset suffixLength
    let next ← addWord 64 expectedEntry entryLength
    checkedAllocatorSlots subject begins tailLength keyLength payload header step remaining
      (index + 1) next state

/-- The key of an entry: the prefix and the suffix copied into an array. -/
def checkedAllocatorKey (shared payload : Bytes) (entryOffset suffixLength : Nat) :
    Checked LoadError Bytes := do
  let key ← copyInto (List.replicate allocatorKeyBytes 0) 0 shared
  let start ← addWord 64 entryOffset 4
  let stop ← addWord 64 start suffixLength
  let suffix ← readBytes payload start stop
  copyInto key shared.length suffix

/-- The items of a page so far, and `canonicalPrefix`. -/
structure AllocatorScan (α : Type) where
  items : List (Bytes × α)
  canonicalPrefix : Nat

/-- The new `canonicalPrefix`. -/
def checkedCanonicalPrefix {α : Type} (scan : AllocatorScan α) (key : Bytes) :
    Checked LoadError Nat := do
  let common ← checkedCommonPrefix (scan.items.head?.map Prod.fst) key scan.canonicalPrefix
  pure (min scan.canonicalPrefix common)

/-- The loop body of a leaf. -/
def checkedRunStep (retired : Bool) (shared payload : Bytes) (scan : AllocatorScan ExtentRun)
    (entryOffset suffixLength : Nat) : Checked LoadError (AllocatorScan ExtentRun) := do
  let key ← checkedAllocatorKey shared payload entryOffset suffixLength
  let retirementGeneration ← (if retired then readWord 8 key 0 else pure 0)
  let start ← readWord 8 key (if retired then 8 else 0)
  let behind ← addWord 32 entryOffset 4
  let counted ← addWord 32 behind suffixLength
  let count ← readWord 8 payload counted
  let run : ExtentRun := { start, count, retirementGeneration }
  check (.corrupt "allocator index runs are not canonical")
    (count ≠ 0 ∧ ∀ last ∈ scan.items.getLast?, last.2.follows run)
  let canonicalPrefix ← checkedCanonicalPrefix scan key
  pure { items := scan.items ++ [(key, run)], canonicalPrefix }

/-- The loop body of an internal page. -/
def checkedChildStep (shared payload : Bytes) (scan : AllocatorScan ExtentReference)
    (entryOffset suffixLength : Nat) : Checked LoadError (AllocatorScan ExtentReference) := do
  let key ← checkedAllocatorKey shared payload entryOffset suffixLength
  let behind ← addWord 32 entryOffset 4
  let place ← addWord 32 behind suffixLength
  let bytes ← subspan payload place 32
  let child := decodeExtentReference bytes
  check (.corrupt "allocator internal child is null") (child.null = false)
  let canonicalPrefix ← checkedCanonicalPrefix scan key
  pure { items := scan.items ++ [(key, child)], canonicalPrefix }

/-- `decodeAllocatorIndexLeaf`. -/
def parseAllocatorIndexLeaf (retired : Bool) (payload : Bytes) :
    Checked LoadError (List ExtentRun) := do
  let header ← checkedHeader payload
  check (.corrupt "allocator index header is invalid")
    (header.AllocatorMatches retired 1 ∧ header.level = 0 ∧ allZero header.leftmostChild)
  check (.corrupt "allocator index bounds are invalid") (header.entryCount ≠ 0)
  checkedRegions (.corrupt "allocator index bounds are invalid")
    (some (allocatorKeyLength retired)) header payload
  let shared ← subspan payload pageLayoutBytes header.prefixLength
  let (scan, stop) ← checkedAllocatorSlots "allocator index" checkedLeafRoom 8
    (allocatorKeyLength retired) payload header (checkedRunStep retired shared payload)
    header.entryCount 0 header.entriesOffset
    { items := [], canonicalPrefix := allocatorKeyLength retired }
  check (.corrupt "allocator index image is noncanonical")
    (stop = header.usedLength ∧ scan.canonicalPrefix = header.prefixLength)
  pure (scan.items.map Prod.snd)

/-- The parsing of an internal page in `loadAllocatorIndexPage`; the keys are arrays. -/
def parseAllocatorInternalPage (retired : Bool) (payload : Bytes) :
    Checked LoadError (List (Bytes × ExtentReference)) := do
  let header ← checkedHeader payload
  let leftmost := decodeExtentReference header.leftmostChild
  check (.corrupt "allocator internal page header is invalid")
    (header.AllocatorMatches retired 2 ∧ leftmost.null = false)
  checkedRegions (.corrupt "allocator internal page header is invalid")
    (some (allocatorKeyLength retired)) header payload
  let shared ← subspan payload pageLayoutBytes header.prefixLength
  let (scan, stop) ← checkedAllocatorSlots "allocator internal" checkedInnerRoom 32
    (allocatorKeyLength retired) payload header (checkedChildStep shared payload)
    header.entryCount 0 header.entriesOffset
    { items := []
      canonicalPrefix := if header.entryCount = 0 then 0 else allocatorKeyLength retired }
  check (.corrupt "allocator internal page is noncanonical")
    (stop = header.usedLength ∧ scan.canonicalPrefix = header.prefixLength)
  pure (([], leftmost) :: scan.items)

end Miare
