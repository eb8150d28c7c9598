import Miare.Allocator.Runs
import Miare.Misc.Disk

/-!
# Blob staging allocator

Blob chunks are written before their transaction commits.  The first chunk of a transaction
loads the committed free and retired runs and makes an allocator of them
(`include/miare/detail/exact_store.hpp:2689-2747`); each chunk then takes a run of blocks first
fit or by growing the file (2770-2880), and cancelled chunks return their blocks (2749-2768).

The environment decides what a call cannot know beforehand: the size the compression provider
leaves, the sealed bytes (nonce and ciphertext), and which operation throws.
-/

namespace Miare

open Misc

/-- The committed block map that `loadAllocatorReferences` returns for the generation a session
has opened.  The fields that are proofs are the checks of the loader
(`exact_store.hpp:1745-1778`); for the initial generation all lists are empty. -/
structure CommittedSpace (L : Limits) where
  generation : Nat
  highWaterBlocks : Nat
  reachable : List ExtentReference
  freeRuns : List ExtentRun
  retiredRuns : List ExtentRun
  partitioned : validateAllocatorPartition L.commonBlocks highWaterBlocks reachable freeRuns
    retiredRuns = .ok ()
  retirement : ∀ run ∈ retiredRuns,
    run.retirementGeneration ≠ 0 ∧ run.retirementGeneration ≤ generation

/-- The staging fields of `BlobWriteState` (`exact_store.hpp:386-432`). -/
structure StagingAllocator where
  stagingFreeRuns : List ExtentRun := []
  stagingNextBlock : Nat := 0
  abortableStagingReferences : Nat := 0
  allocatorInitialized : Bool := false
deriving DecidableEq, Repr

/-- The staging free list as block pool. -/
def StagingAllocator.pool (state : StagingAllocator) : BlockPool :=
  { freeRuns := state.stagingFreeRuns, nextBlock := state.stagingNextBlock }

/-- The free runs a fresh staging allocator starts with. -/
def initialStagingRuns {L : Limits} (space : CommittedSpace L) (readers : List Nat) :
    List ExtentRun :=
  coalesceBlobStagingFreeRuns (space.freeRuns ++ eligibleRuns readers space.retiredRuns)

/-- Load the committed runs once per transaction; `readers` are the generations of the readers
live at that moment. -/
def initializeBlobStagingAllocator {L : Limits} (space : CommittedSpace L) (readers : List Nat)
    (state : StagingAllocator) : StagingAllocator :=
  if state.allocatorInitialized then state
  else
    { state with
      stagingFreeRuns := initialStagingRuns space readers
      stagingNextBlock := space.highWaterBlocks
      allocatorInitialized := true }

/-- Return one staged reference to the free list. -/
def releaseBlobStagingReference (state : StagingAllocator) (reference : ExtentReference) :
    StagingAllocator :=
  { state with
    stagingFreeRuns := insertBlobStagingFreeRun state.stagingFreeRuns reference.toRun
    abortableStagingReferences := state.abortableStagingReferences - 1 }

/-- Return several staged references, in order. -/
def releaseBlobStagingReferences (state : StagingAllocator)
    (references : List ExtentReference) : StagingAllocator :=
  references.foldl releaseBlobStagingReference state

/-- Where a call to `stageBlobChunk` may throw besides its own checks. -/
inductive StageFault where
  | load (corrupt : Bool)
  | prepare
  | reserve
  | seal
  | resize (grown : Bool)
  | write (written : Nat)
deriving DecidableEq, Repr

/-- What the environment contributes to one call. -/
structure StageInput where
  storedBytes : Nat
  image : Nat → Byte
  fault : Option StageFault := none

/-- Why a chunk was not staged. -/
inductive StageError where
  | fault (fault : StageFault)
  | blockRange
  | byteRange
  | capacity
deriving DecidableEq, Repr

/-- Text of the `ResourceLimit` errors of `stageBlobChunk` itself. -/
def StageError.message : StageError → Option String
  | .fault _ => none
  | .blockRange => some "Blob staging block range is not representable"
  | .byteRange => some "Blob staging byte range is not representable"
  | .capacity => some "Blob staging exceeds the database capacity profile"

/-- The bytes of a sealed extent of `blockCount` blocks. -/
def StageInput.sealed (input : StageInput) (L : Limits) (blockCount : Nat) : Bytes :=
  (List.range (blockCount * L.allocationQuantumBytes)).map input.image

/-- The checks and file operations in the `try` block of `stageBlobChunk`: the operations issued,
the size of the file behind them, and the error if one occurred. -/
def writeStagedExtent (L : Limits) (highWaterBlocks fileBytes allocated blockCount : Nat)
    (input : StageInput) : List (DiskOp Byte) × Nat × Option StageError :=
  let requiredBlocks := allocated + blockCount
  let requiredBytes := requiredBlocks * L.allocationQuantumBytes
  let highWaterBytes := highWaterBlocks * L.allocationQuantumBytes
  let offset := allocated * L.allocationQuantumBytes
  let bytes := input.sealed L blockCount
  if input.fault = some .seal then ([], fileBytes, some (.fault .seal))
  else if uint64Max - blockCount < allocated then ([], fileBytes, some .blockRange)
  else if uint64Max / L.allocationQuantumBytes < requiredBlocks then
    ([], fileBytes, some .byteRange)
  else if L.maxDatabaseBytes < requiredBytes ∨
      (highWaterBytes < requiredBytes ∧
        L.maxFileGrowthPerTransaction < requiredBytes - highWaterBytes) then
    ([], fileBytes, some .capacity)
  else
    let resizes := if fileBytes < requiredBytes then [DiskOp.resize requiredBytes] else []
    let grownBytes := max fileBytes requiredBytes
    match input.fault with
    | some (.resize grown) =>
      -- only a call that resizes can fail there
      if fileBytes < requiredBytes then
        (resizes, if grown then requiredBytes else fileBytes, some (.fault (.resize grown)))
      else (resizes ++ [.write offset bytes], grownBytes, none)
    | some (.write written) =>
      (resizes ++ [.write offset (bytes.take written)], grownBytes,
        some (.fault (.write written)))
    | _ => (resizes ++ [.write offset bytes], grownBytes, none)

/-- What one call to `stageBlobChunk` leaves behind. -/
structure StageResult where
  state : StagingAllocator
  fileBytes : Nat
  issued : List (DiskOp Byte)
  outcome : Except StageError ExtentReference

/-- A call that throws before it has reserved blocks. -/
def StageResult.early (state : StagingAllocator) (fileBytes : Nat) (error : StageError) :
    StageResult :=
  { state, fileBytes, issued := [], outcome := .error error }

/-- Reserve blocks for a chunk, then write it; a failure behind the reservation gives the
blocks back (`exact_store.hpp:2782-2880`). -/
def reserveAndWrite {L : Limits} (space : CommittedSpace L) (state : StagingAllocator)
    (fileBytes : Nat) (input : StageInput) : StageResult :=
  let encodedLength := encodedExtentLength input.storedBytes
  let blockCount := L.blocksFor encodedLength
  let taken := state.pool.allocateBlocks blockCount
  let reserved : ExtentReference :=
    { blockIndex := taken.1, blockCount, encodedLength,
      creationGeneration := space.generation + 1 }
  let state :=
    { state with
      stagingFreeRuns := taken.2.freeRuns
      stagingNextBlock := taken.2.nextBlock }
  match writeStagedExtent L space.highWaterBlocks fileBytes taken.1 blockCount input with
  | (issued, fileBytes, none) =>
    { state :=
        { state with abortableStagingReferences := state.abortableStagingReferences + 1 }
      fileBytes, issued, outcome := .ok reserved }
  | (issued, fileBytes, some error) =>
    { state :=
        { state with
          stagingFreeRuns := insertBlobStagingFreeRun state.stagingFreeRuns reserved.toRun }
      fileBytes, issued, outcome := .error error }

/-- Stage one Blob chunk (`exact_store.hpp:2770-2880`). -/
def stageBlobChunk {L : Limits} (space : CommittedSpace L) (readers : List Nat)
    (state : StagingAllocator) (fileBytes : Nat) (input : StageInput) : StageResult :=
  let initialized := initializeBlobStagingAllocator space readers state
  match input.fault with
  | some (.load corrupt) =>
    -- the committed state is loaded only once
    if state.allocatorInitialized then reserveAndWrite space state fileBytes input
    else .early state fileBytes (.fault (.load corrupt))
  | some .prepare => .early initialized fileBytes (.fault .prepare)
  | some .reserve => .early initialized fileBytes (.fault .reserve)
  | _ => reserveAndWrite space initialized fileBytes input

end Miare
