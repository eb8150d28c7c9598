import Miare.Allocator.Runs
import Miare.Tree.Store

/-!
# Loading the allocator indexes

The free and the retired runs of a publication are trees of pages with numeric keys
(`include/miare/detail/exact_store.hpp:1255-1503`), below a record with both roots and the block
counts (`1640-1781`).
-/

namespace Miare

open Misc

/-- Role of the pages of an allocator index. -/
def allocatorIndexRole (retired : Bool) : Nat := if retired then 5 else 4

/-- Unit kind of the internal pages of an allocator index. -/
def allocatorInternalKind (retired : Bool) : Nat := if retired then 9 else 7

/-- Unit kind of the leaves of an allocator index. -/
def allocatorLeafKind (retired : Bool) : Nat := if retired then 10 else 8

/-- The loop over the slots of an index page.  All keys have one length, so the length of an entry
is known; `tailLength` counts its bytes behind the key. -/
def walkAllocatorSlots {σ : Type} (subject : String) (tailLength suffixLength : Nat)
    (payload : Bytes) (usedLength : Nat) (step : σ → Bytes → Except LoadError σ) :
    (count slot expectedEntry : Nat) → σ → Except LoadError (σ × Nat)
  | 0, _, expectedEntry, state => .ok (state, expectedEntry)
  | count + 1, slot, expectedEntry, state => do
    let entryOffset ← readField 4 payload slot
    let entryLength ← readField 4 payload (slot + 4)
    require (.corrupt (subject ++ " entry is out of bounds"))
      (entryOffset ≤ usedLength ∧ entryOffset + 4 ≤ usedLength)
    let suffix ← readField 4 payload entryOffset
    require (.corrupt (subject ++ " entry is invalid"))
      (entryOffset = expectedEntry ∧ suffix = suffixLength ∧
        entryLength = 4 + tailLength + suffix ∧ entryLength ≤ usedLength - entryOffset)
    let entry ← view payload entryOffset entryLength
    let state ← step state entry
    walkAllocatorSlots subject tailLength suffixLength payload usedLength step count (slot + 8)
      (expectedEntry + entryLength) state

/-- The regions of an index page, in both page forms. -/
def PageHeader.AllocatorBounded (header : PageHeader) (retired : Bool) (payload : Bytes) : Prop :=
  header.prefixLength ≤ allocatorKeyLength retired ∧
    header.slotsOffset = pageLayoutBytes + header.prefixLength ∧
    header.entriesOffset = header.slotsOffset + header.entryCount * 8 ∧
    header.entriesOffset ≤ header.usedLength ∧ header.usedLength ≤ payload.length ∧
    allZero (payload.drop header.usedLength)

instance (header : PageHeader) (retired : Bool) (payload : Bytes) :
    Decidable (header.AllocatorBounded retired payload) := by
  unfold PageHeader.AllocatorBounded
  infer_instance

/-- The header check of both page forms but for the level, which the loader has compared. -/
def PageHeader.AllocatorMatches (header : PageHeader) (retired : Bool) (type : Nat) : Prop :=
  header.magic = pageMagic ∧ header.version = 1 ∧ header.type = type ∧
    header.headerLength = pageLayoutBytes ∧ header.role = allocatorIndexRole retired ∧
    header.flags = 0 ∧ allZero header.reserved

instance (header : PageHeader) (retired : Bool) (type : Nat) :
    Decidable (header.AllocatorMatches retired type) := by
  unfold PageHeader.AllocatorMatches
  infer_instance

/-- `run` may follow `last`: runs of one generation neither overlap nor touch.  The end of `last`
is a `std::uint64_t`. -/
def ExtentRun.follows (last run : ExtentRun) : Prop :=
  ¬(run.retirementGeneration < last.retirementGeneration ∨
    run.retirementGeneration = last.retirementGeneration ∧
      run.start ≤ (last.start + last.count) % 2 ^ 64)

instance (last run : ExtentRun) : Decidable (last.follows run) := by
  unfold ExtentRun.follows
  infer_instance

/-- The run with a key. -/
def runOfKey (retired : Bool) (key : Bytes) (count : Nat) : ExtentRun where
  start := readLittleEndian 8 key (if retired then 8 else 0)
  count := count
  retirementGeneration := if retired then readLittleEndian 8 key 0 else 0

/-- One run of an index leaf with its key. -/
def decodeAllocatorRun (retired : Bool) (shared : Bytes) (runs : List (Bytes × ExtentRun))
    (entry : Bytes) : Except LoadError (Bytes × ExtentRun) := do
  let suffixLength := allocatorKeyLength retired - shared.length
  let suffix ← view entry 4 suffixLength
  let key := shared ++ suffix
  let blockCount ← readField 8 entry (4 + suffixLength)
  let run := runOfKey retired key blockCount
  require (.corrupt "allocator index runs are not canonical")
    (blockCount ≠ 0 ∧ ∀ last ∈ runs.getLast?, last.2.follows run)
  pure (key, run)

/-- `decodeAllocatorIndexLeaf` (`exact_store.hpp:1255-1342`). -/
def decodeAllocatorIndexLeaf (retired : Bool) (payload : Bytes) :
    Except LoadError (List ExtentRun) := do
  let header := readPageHeader payload
  require (.corrupt "allocator index header is invalid")
    (header.AllocatorMatches retired 1 ∧ header.level = 0 ∧ allZero header.leftmostChild)
  require (.corrupt "allocator index bounds are invalid")
    (header.entryCount ≠ 0 ∧ header.AllocatorBounded retired payload)
  let (items, stop) ← walkAllocatorSlots "allocator index" 8
    (allocatorKeyLength retired - header.prefixLength) payload header.usedLength
    (collectStep (decodeAllocatorRun retired (sharedPrefix payload header)))
    header.entryCount header.slotsOffset header.entriesOffset []
  require (.corrupt "allocator index image is noncanonical")
    (stop = header.usedLength ∧
      sharedPrefixLength (items.map Prod.fst) = header.prefixLength)
  pure (items.map Prod.snd)

/-- One separator of an internal page and the child behind it. -/
def decodeAllocatorChild (retired : Bool) (shared : Bytes) (_ : List (Bytes × ExtentReference))
    (entry : Bytes) : Except LoadError (Bytes × ExtentReference) := do
  let suffixLength := allocatorKeyLength retired - shared.length
  let suffix ← view entry 4 suffixLength
  let bytes ← view entry (4 + suffixLength) 32
  let child := decodeExtentReference bytes
  require (.corrupt "allocator internal child is null") (child.null = false)
  pure (shared ++ suffix, child)

/-- The children of an internal page, the leftmost with an empty key: the internal-page branch of
`loadAllocatorIndexPage`. -/
def allocatorChildren (retired : Bool) (payload : Bytes) :
    Except LoadError (List (Bytes × ExtentReference)) := do
  let header := readPageHeader payload
  let leftmost := decodeExtentReference header.leftmostChild
  require (.corrupt "allocator internal page header is invalid")
    (header.AllocatorMatches retired 2 ∧ leftmost.null = false ∧
      header.AllocatorBounded retired payload)
  let (separators, stop) ← walkAllocatorSlots "allocator internal" 32
    (allocatorKeyLength retired - header.prefixLength) payload header.usedLength
    (collectStep (decodeAllocatorChild retired (sharedPrefix payload header)))
    header.entryCount header.slotsOffset header.entriesOffset []
  require (.corrupt "allocator internal page is noncanonical")
    (stop = header.usedLength ∧
      sharedPrefixLength (separators.map Prod.fst) = header.prefixLength)
  pure (([], leftmost) :: separators)

/-- The loop over the children of an internal page; `runs` are those of the children before. -/
def loadAllocatorSubtrees (retired : Bool)
    (load : ExtentReference → List ExtentReference →
      Except LoadError (List ExtentRun × List ExtentReference)) :
    (first : Bool) → (runs : List ExtentRun) → List (Bytes × ExtentReference) →
      List ExtentReference → Except LoadError (List ExtentRun × List ExtentReference)
  | _, runs, [], reachable => .ok (runs, reachable)
  | first, runs, (separator, child) :: rest, reachable => do
    let (childRuns, reachable) ← load child reachable
    require (.corrupt "allocator separator does not match its right subtree")
      (childRuns ≠ [] ∧
        (first = true ∨ childRuns.head?.map (allocatorRunKey retired) = some separator))
    require (.corrupt "allocator subtrees overlap or are reordered")
      (∀ last ∈ runs.getLast?, ∀ next ∈ childRuns.head?, last.follows next)
    loadAllocatorSubtrees retired load false (runs ++ childRuns) rest reachable

section Load

variable (L : Limits) (format : OpenedFormat) (store : ExtentStore)

/-- The beginning of `loadAllocatorIndexPage`: the payload of a page whose level fits its kind. -/
def openAllocatorPage (retired : Bool) (expectedLevel : Option Nat) (reference : ExtentReference) :
    Except LoadError Bytes := do
  validateExtentReference L format reference
  let kind ← readUnitKind store reference
  require (.corrupt "allocator index page role is invalid")
    (kind = allocatorInternalKind retired ∨ kind = allocatorLeafKind retired)
  let payload ← readAuthenticatedExtent L format store reference { unitKind := kind } none
  let level := (readPageHeader payload).level
  require (.corrupt "allocator index level is invalid")
    ((∀ expected ∈ expectedLevel, level = expected) ∧ level ≤ maximumTreeLevel ∧
      (kind = allocatorLeafKind retired ↔ level = 0))
  pure payload

/-- The runs below a page of the given level. -/
def loadAllocatorLevel (retired : Bool) : (level : Nat) → (payload : Bytes) →
    List ExtentReference → Except LoadError (List ExtentRun × List ExtentReference)
  | 0, payload, reachable => do
    let runs ← decodeAllocatorIndexLeaf retired payload
    pure (runs, reachable)
  | level + 1, payload, reachable => do
    let children ← allocatorChildren retired payload
    loadAllocatorSubtrees retired (fun child reachable => do
      let payload ← openAllocatorPage L format store retired (some level) child
      loadAllocatorLevel retired level payload (reachable ++ [child])) true [] children reachable

/-- `loadAllocatorIndexPage` for a root, whose level is not known before. -/
def loadAllocatorIndexPage (retired : Bool) (reference : ExtentReference)
    (reachable : List ExtentReference) :
    Except LoadError (List ExtentRun × List ExtentReference) := do
  let payload ← openAllocatorPage L format store retired none reference
  loadAllocatorLevel L format store retired (readPageHeader payload).level payload
    (reachable ++ [reference])

/-! ## The allocator root -/

/-- The bytes `MIAREALC`. -/
def allocatorRootMagic : Bytes := [77, 73, 65, 82, 69, 65, 76, 67]

/-- `AllocatorRootLayout::bytes`. -/
def allocatorRootBytes : Nat := 160

/-- The record of an allocator root (`AllocatorRootLayout`, `exact_store.hpp:313-327`). -/
structure AllocatorRoot where
  magic : Bytes
  version : Nat
  flags : Nat
  length : Nat
  generation : Nat
  highWaterBlocks : Nat
  freeRoot : ExtentReference
  retiredRoot : ExtentReference
  reachableBlocks : Nat
  freeBlocks : Nat
  retiredBlocks : Nat
  reserved : Bytes
deriving DecidableEq, Repr

def readAllocatorRoot (payload : Bytes) : AllocatorRoot where
  magic := slice payload 0 8
  version := readLittleEndian 2 payload 8
  flags := readLittleEndian 2 payload 10
  length := readLittleEndian 4 payload 12
  generation := readLittleEndian 8 payload 16
  highWaterBlocks := readLittleEndian 8 payload 24
  freeRoot := decodeExtentReference (slice payload 32 32)
  retiredRoot := decodeExtentReference (slice payload 64 32)
  reachableBlocks := readLittleEndian 8 payload 96
  freeBlocks := readLittleEndian 8 payload 104
  retiredBlocks := readLittleEndian 8 payload 112
  reserved := slice payload 120 40

/-- The check of the root record. -/
def AllocatorRoot.Canonical (root : AllocatorRoot) : Prop :=
  root.magic = allocatorRootMagic ∧ root.version = 1 ∧ root.flags = 0 ∧
    root.length = allocatorRootBytes ∧ root.generation = format.generation ∧
    root.highWaterBlocks = format.highWaterBytes / L.allocationQuantumBytes ∧
    (root.freeRoot.null = true ↔ root.freeBlocks = 0) ∧
    (root.retiredRoot.null = true ↔ root.retiredBlocks = 0) ∧ allZero root.reserved

instance (root : AllocatorRoot) : Decidable (root.Canonical L format) := by
  unfold AllocatorRoot.Canonical
  infer_instance

/-- `shallowValidateAllocatorRoot` (`exact_store.hpp:1640-1708`); the first generation has no
allocator state. -/
def shallowValidateAllocatorRoot (reference : ExtentReference) :
    Except LoadError (Option AllocatorRoot) :=
  if format.generation = 1 then do
    require (.corrupt "initial database has allocator state") (reference.null = true)
    pure none
  else do
    require (.corrupt "committed generation has no allocator root") (reference.null = false)
    require (.corrupt "allocator root generation does not match publication")
      (reference.creationGeneration = format.generation)
    let payload ← readAuthenticatedExtent L format store reference { unitKind := 14 }
      (some allocatorRootBytes)
    let root := readAllocatorRoot payload
    require (.corrupt "allocator root is noncanonical") (root.Canonical L format)
    validateExtentReference L format root.freeRoot
    validateExtentReference L format root.retiredRoot
    pure (some root)

/-- The runs of one index; a null root has none. -/
def loadAllocatorIndex (retired : Bool) (reference : ExtentReference)
    (reachable : List ExtentReference) :
    Except LoadError (List ExtentRun × List ExtentReference) :=
  if reference.null then .ok ([], reachable)
  else loadAllocatorIndexPage L format store retired reference reachable

/-- Blocks of a list of runs, as a `std::uint64_t`. -/
def runBlocks (runs : List ExtentRun) : Nat := (runs.map ExtentRun.count).sum % 2 ^ 64

/-- Blocks of a list of references, as a `std::uint64_t`. -/
def referenceBlocks (references : List ExtentReference) : Nat :=
  (references.map ExtentReference.blockCount).sum % 2 ^ 64

/-- What `loadAllocatorReferences` gives back. -/
structure AllocatorLoad where
  reachable : List ExtentReference
  freeRuns : List ExtentRun
  retiredRuns : List ExtentRun
deriving DecidableEq, Repr

/-- `loadAllocatorReferences` (`exact_store.hpp:1710-1781`) behind what the other loaders have
reached. -/
def loadAllocatorReferences (reference : ExtentReference) (reachable : List ExtentReference) :
    Except LoadError AllocatorLoad := do
  match ← shallowValidateAllocatorRoot L format store reference with
  | none => pure { reachable, freeRuns := [], retiredRuns := [] }
  | some root =>
    let (freeRuns, reachable) ← loadAllocatorIndex L format store false root.freeRoot
      (reachable ++ [reference])
    let (retiredRuns, reachable) ← loadAllocatorIndex L format store true root.retiredRoot reachable
    require (.corrupt "allocator retirement generation is invalid")
      (∀ run ∈ retiredRuns, run.retirementGeneration ≠ 0 ∧
        run.retirementGeneration ≤ format.generation)
    require (.corrupt "allocator counters do not partition committed storage")
      (runBlocks freeRuns = root.freeBlocks ∧ runBlocks retiredRuns = root.retiredBlocks ∧
        referenceBlocks reachable = root.reachableBlocks ∧
        (referenceBlocks reachable + runBlocks freeRuns + runBlocks retiredRuns) % 2 ^ 64 =
          format.highWaterBytes / L.allocationQuantumBytes - L.commonBlocks)
    match validateAllocatorPartition L.commonBlocks
      (format.highWaterBytes / L.allocationQuantumBytes) reachable freeRuns retiredRuns with
    | .error error => .error (.corrupt error.message)
    | .ok () => pure { reachable, freeRuns, retiredRuns }

end Load

end Miare
