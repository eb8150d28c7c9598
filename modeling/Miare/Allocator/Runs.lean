import Miare.Extent

/-!
# Block runs of the allocator

The list operations behind block allocation, as `include/miare/detail/exact_store.hpp` performs
them on vectors of `ExtentRun`: sorting and coalescing (2629-2653, 3610-3625), insertion into the
Blob staging list (2655-2687), first-fit allocation (3689-3701 and 2793-2808), removal of a
range (3643-3662 and 4049-4068), the partition check of the loader (1505-1550) and the
subtraction of retained extents (1552-1640).  `std::sort` is insertion sort here; no caller
depends on the order of runs with equal keys.
-/

namespace Miare

open Misc

namespace ExtentRun

/-- First block behind the run. -/
def limit (run : ExtentRun) : Nat := run.start + run.count

end ExtentRun

/-- `std::sort` by start block. -/
def sortByStart (runs : List ExtentRun) : List ExtentRun :=
  runs.insertionSort fun left right => left.start ≤ right.start

/-- One turn of a coalescing loop.  The vector built so far is kept in reverse, so its `back()`
is the head. -/
def appendCoalesced (coalesced : List ExtentRun) (run : ExtentRun) : List ExtentRun :=
  match coalesced with
  | [] => [run]
  | back :: rest =>
    if back.limit = run.start then
      { back with count := back.count + run.count } :: rest
    else
      run :: back :: rest

/-- The coalescing loop over a list that is already sorted. -/
def coalesceSorted (runs : List ExtentRun) : List ExtentRun :=
  (runs.foldl appendCoalesced []).reverse

/-- Sort and coalesce, keeping empty runs (`exact_store.hpp:3610-3625`). -/
def coalesceEligible (runs : List ExtentRun) : List ExtentRun :=
  coalesceSorted (sortByStart runs)

/-- Sort, drop empty runs and coalesce (`exact_store.hpp:2629-2653`). -/
def coalesceBlobStagingFreeRuns (runs : List ExtentRun) : List ExtentRun :=
  coalesceSorted ((sortByStart runs).filter fun run => run.count ≠ 0)

/-- The closing loop of `insertBlobStagingFreeRun`: the run at the insertion point takes in its
successors as long as they touch it. -/
def absorbFollowing (position : ExtentRun) : List ExtentRun → List ExtentRun
  | [] => [position]
  | following :: rest =>
    if following.start ≤ position.limit then
      absorbFollowing
        { position with count := max position.limit following.limit - position.start } rest
    else
      position :: following :: rest

/-- Return a run to the sorted staging list (`exact_store.hpp:2655-2687`).  The lower bound of a
sorted list is where the starts below `inserted.start` end. -/
def insertBlobStagingFreeRun (runs : List ExtentRun) (inserted : ExtentRun) : List ExtentRun :=
  let before := runs.takeWhile fun run => run.start < inserted.start
  let after := runs.dropWhile fun run => run.start < inserted.start
  match before.getLast? with
  | none => absorbFollowing inserted after
  | some previous =>
    if inserted.start ≤ previous.limit then
      before.dropLast ++ absorbFollowing
        { previous with count := max previous.limit inserted.limit - previous.start } after
    else
      before ++ absorbFollowing inserted after

/-- First fit: the first run with at least `count` blocks gives up its first `count` blocks and
stays in the list, possibly empty. -/
def takeFirstFit (count : Nat) : List ExtentRun → Option (Nat × List ExtentRun)
  | [] => none
  | run :: rest =>
    if count ≤ run.count then
      some (run.start,
        { run with start := run.start + count, count := run.count - count } :: rest)
    else
      (takeFirstFit count rest).map fun taken => (taken.1, run :: taken.2)

/-- A free list with the first block behind everything allocated so far. -/
structure BlockPool where
  freeRuns : List ExtentRun
  nextBlock : Nat
deriving DecidableEq, Repr

/-- Allocate from the first fitting run, else by growing the file
(`exact_store.hpp:3689-3701`). -/
def BlockPool.allocateBlocks (pool : BlockPool) (count : Nat) : Nat × BlockPool :=
  match takeFirstFit count pool.freeRuns with
  | some (allocated, freeRuns) => (allocated, { pool with freeRuns })
  | none => (pool.nextBlock, { pool with nextBlock := pool.nextBlock + count })

/-- What is left of one run after `[start, stop)` is cut out of it. -/
def cutRun (start stop : Nat) (run : ExtentRun) : List ExtentRun :=
  if stop ≤ run.start ∨ run.limit ≤ start then
    [run]
  else
    (if run.start < start then [{ start := run.start, count := start - run.start }] else []) ++
      (if stop < run.limit then [{ start := stop, count := run.limit - stop }] else [])

/-- Cut the blocks of `reference` out of every run: `removeStagedRange` and `removeFreeRange`. -/
def removeRange (runs : List ExtentRun) (start count : Nat) : List ExtentRun :=
  runs.flatMap (cutRun start (start + count))

/-- Oldest generation any live reader holds, the largest `uint64_t` without readers. -/
def oldestReaderGeneration (readers : List Nat) : Nat :=
  readers.foldl min uint64Max

/-- Blocks retired at `run.retirementGeneration` may be reused under these readers. -/
def ExtentRun.eligible (readers : List Nat) (run : ExtentRun) : Bool :=
  decide (run.retirementGeneration ≤ oldestReaderGeneration readers)

/-- The retired runs that reclamation turns into free runs, without their generations. -/
def eligibleRuns (readers : List Nat) (retiredRuns : List ExtentRun) : List ExtentRun :=
  (retiredRuns.filter (ExtentRun.eligible readers)).map fun run =>
    { start := run.start, count := run.count }

/-- Errors of `validateAllocatorPartition`, with the messages of the source. -/
inductive PartitionError where
  | outOfBounds
  | overlap
  | unclassified
deriving DecidableEq, Repr

/-- Text of the `Corrupt` error. -/
def PartitionError.message : PartitionError → String
  | .outOfBounds => "allocator partition range is out of bounds"
  | .overlap => "allocator partition ranges overlap"
  | .unclassified => "allocator partition leaves unclassified blocks"

/-- The bounds test of the lambda `add`. -/
def partitionRangeOk (commonBlocks highWaterBlocks : Nat) (run : ExtentRun) : Bool :=
  !(run.start < commonBlocks || run.count == 0 || highWaterBlocks < run.start ||
    highWaterBlocks - run.start < run.count)

/-- The sweep over the sorted intervals; returns the final cursor. -/
def sweepIntervals (cursor : Nat) : List ExtentRun → Except PartitionError Nat
  | [] => .ok cursor
  | interval :: rest =>
    if interval.start < cursor then .error .overlap
    else if interval.start ≠ cursor then .error .unclassified
    else sweepIntervals (cursor + interval.count) rest

/-- The partition check of the loader (`exact_store.hpp:1505-1550`). -/
def validateAllocatorPartition (commonBlocks highWaterBlocks : Nat)
    (reachable : List ExtentReference) (freeRuns retiredRuns : List ExtentRun) :
    Except PartitionError Unit :=
  let intervals := reachable.map ExtentReference.toRun ++
    (freeRuns ++ retiredRuns).map fun run => { start := run.start, count := run.count }
  if intervals.all (partitionRangeOk commonBlocks highWaterBlocks) then
    match sweepIntervals commonBlocks (sortByStart intervals) with
    | .error error => .error error
    | .ok cursor => if cursor ≠ highWaterBlocks then .error .unclassified else .ok ()
  else .error .outOfBounds

/-- The sweep with the cursor in a `uint64_t`, where `cursor += interval.count` may wrap. -/
def sweepWords (cursor : Nat) : List ExtentRun → Except PartitionError Nat
  | [] => .ok cursor
  | interval :: rest =>
    if interval.start < cursor then .error .overlap
    else if interval.start ≠ cursor then .error .unclassified
    else sweepWords ((cursor + interval.count) % 2 ^ 64) rest

/-- The partition check in machine words.  The subtraction of `add` stands behind the test
`start > highWaterBlocks` and cannot wrap. -/
def validateAllocatorPartitionWords (commonBlocks highWaterBlocks : Nat)
    (reachable : List ExtentReference) (freeRuns retiredRuns : List ExtentRun) :
    Except PartitionError Unit :=
  let intervals := reachable.map ExtentReference.toRun ++
    (freeRuns ++ retiredRuns).map fun run => { start := run.start, count := run.count }
  if intervals.all (partitionRangeOk commonBlocks highWaterBlocks) then
    match sweepWords commonBlocks (sortByStart intervals) with
    | .error error => .error error
    | .ok cursor => if cursor ≠ highWaterBlocks then .error .unclassified else .ok ()
  else .error .outOfBounds

end Miare
