import Miare.Page.Encode
import Miare.Misc.Guard

/-!
# Parsing of tree pages

The loaders of the ordered tree (`include/miare/detail/exact_store.hpp:1967-2148`), of the
fixed-key trees (`2260-2454`) and of the allocator indexes read the same page frame.  They check
the header and the bounds of its regions, then walk the slots, which must name the entries back to
back.  The buffer of every read is explicit: a read behind its end is an error of its own, so
that its absence can be proved.
-/

namespace Miare

open Misc

/-- Why a page could not be loaded: the layer below could not produce the extent, the page is
`Corrupt`, or the code would read behind the end of a buffer. -/
inductive LoadError where
  | extent
  | corrupt (message : String)
  | outOfBounds
deriving DecidableEq, Repr

/-- `subspan`. -/
def view (bytes : Bytes) (offset length : Nat) : Except LoadError Bytes :=
  if offset + length ≤ bytes.length then .ok (slice bytes offset length) else .error .outOfBounds

/-- `readLittleEndian` (`include/miare/detail/database_format.hpp:113-122`). -/
def readField (width : Nat) (bytes : Bytes) (offset : Nat) : Except LoadError Nat := do
  let field ← view bytes offset width
  pure (ofLittleEndian field)

/-- `decodeExtentReference` (`exact_store.hpp:423-429`). -/
def decodeExtentReference (bytes : Bytes) : ExtentReference :=
  { blockIndex := readLittleEndian 8 bytes 0
    blockCount := readLittleEndian 8 bytes 8
    encodedLength := readLittleEndian 8 bytes 16
    creationGeneration := readLittleEndian 8 bytes 24 }

/-- `allZero` of `database_format.hpp:155-160` for a region. -/
def allZero (bytes : Bytes) : Bool := bytes.all (· == 0)

/-- The header fields (`PageLayout`, `exact_store.hpp:295-311`). -/
structure PageHeader where
  magic : Bytes
  version : Nat
  type : Nat
  headerLength : Nat
  role : Nat
  level : Nat
  entryCount : Nat
  prefixLength : Nat
  slotsOffset : Nat
  entriesOffset : Nat
  usedLength : Nat
  flags : Nat
  leftmostChild : Bytes
  reserved : Bytes
deriving DecidableEq, Repr

/-- Read the header; a page payload is never shorter than that. -/
def readPageHeader (payload : Bytes) : PageHeader where
  magic := slice payload 0 8
  version := readLittleEndian 2 payload 8
  type := readLittleEndian 2 payload 10
  headerLength := readLittleEndian 4 payload 12
  role := readLittleEndian 4 payload 16
  level := readLittleEndian 4 payload 20
  entryCount := readLittleEndian 4 payload 24
  prefixLength := readLittleEndian 4 payload 28
  slotsOffset := readLittleEndian 4 payload 32
  entriesOffset := readLittleEndian 4 payload 36
  usedLength := readLittleEndian 4 payload 40
  flags := readLittleEndian 4 payload 44
  leftmostChild := slice payload 48 32
  reserved := slice payload 80 16

/-- The unit kinds and the role of one tree, and the words of its errors. -/
structure TreeRole where
  role : Nat
  internalKind : Nat
  leafKind : Nat
  -- fixed-key trees have keys of one size
  keySize : Option Nat
  -- "ordered" or "fixed-key"
  subject : String
  tooDeep : String
  keyDomain : Nat := 2
  owner : Bytes := []
deriving DecidableEq, Repr

/-- The header check of a page of the given unit kind. -/
def PageHeader.Matches (header : PageHeader) (T : TreeRole) (kind expectedLevel : Nat) : Prop :=
  header.magic = pageMagic ∧ header.version = 1 ∧ (header.type = 1 ∨ header.type = 2) ∧
    kind = (if header.type = 1 then T.leafKind else T.internalKind) ∧
    header.headerLength = pageLayoutBytes ∧ header.role = T.role ∧
    header.level = expectedLevel ∧ (header.type = 1 ↔ header.level = 0) ∧
    header.flags = 0 ∧ allZero header.reserved

instance (header : PageHeader) (T : TreeRole) (kind expectedLevel : Nat) :
    Decidable (header.Matches T kind expectedLevel) := by
  unfold PageHeader.Matches
  infer_instance

/-- The bounds check: the regions of the page follow each other, and what is not used is
zero. -/
def PageHeader.Bounded (header : PageHeader) (T : TreeRole) (payload : Bytes) : Prop :=
  ¬(header.type = 1 ∧ header.entryCount = 0) ∧
    (∀ size ∈ T.keySize, header.prefixLength ≤ size) ∧
    header.slotsOffset = pageLayoutBytes + header.prefixLength ∧
    header.entriesOffset = header.slotsOffset + header.entryCount * 8 ∧
    header.entriesOffset ≤ header.usedLength ∧ header.usedLength ≤ payload.length ∧
    allZero (payload.drop header.usedLength) ∧
    (header.type = 1 → allZero header.leftmostChild)

instance (header : PageHeader) (T : TreeRole) (payload : Bytes) :
    Decidable (header.Bounded T payload) := by
  unfold PageHeader.Bounded
  infer_instance

/-- The loop over the slots.  `step` handles one entry; the result is the last state and the end
of the last entry. -/
def walkSlots {σ : Type} (slotError : String) (minimumLength : Nat) (payload : Bytes)
    (usedLength : Nat) (step : σ → Bytes → Except LoadError σ) :
    (count slot expectedEntry : Nat) → σ → Except LoadError (σ × Nat)
  | 0, _, expectedEntry, state => .ok (state, expectedEntry)
  | count + 1, slot, expectedEntry, state => do
    let entryOffset ← readField 4 payload slot
    let entryLength ← readField 4 payload (slot + 4)
    require (.corrupt slotError)
      (entryOffset = expectedEntry ∧ minimumLength ≤ entryLength ∧ entryOffset ≤ usedLength ∧
        entryLength ≤ usedLength - entryOffset)
    let entry ← view payload entryOffset entryLength
    let state ← step state entry
    walkSlots slotError minimumLength payload usedLength step count (slot + 8)
      (expectedEntry + entryLength) state

/-- Key of the last entry so far, `previousKey`. -/
def previousKey {α : Type} (key : α → Bytes) (items : List α) : Option Bytes :=
  items.getLast?.map key

/-- A loop body that decodes one more item. -/
def collectStep {α : Type} (decode : List α → Bytes → Except LoadError α) (items : List α)
    (entry : Bytes) : Except LoadError (List α) := do
  let item ← decode items entry
  pure (items ++ [item])

/-- The entries of a page, from its header on. -/
def walkPage {σ : Type} (T : TreeRole) (minimumLength : Nat) (payload : Bytes)
    (header : PageHeader) (step : σ → Bytes → Except LoadError σ) (state : σ) :
    Except LoadError (σ × Nat) :=
  walkSlots (T.subject ++ " page slot is invalid") minimumLength payload header.usedLength step
    header.entryCount header.slotsOffset header.entriesOffset state

/-- The key prefix of a page. -/
def sharedPrefix (payload : Bytes) (header : PageHeader) : Bytes :=
  slice payload pageLayoutBytes header.prefixLength

end Miare
