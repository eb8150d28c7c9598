import Miare.Allocator.Index
import Miare.Allocator.Runs

/-!
# The allocator-metadata fixed point

The pages of the allocator indexes occupy blocks that the free index must not list, and the free
index decides how many pages there are.  `commitExact` searches a fixed point
(`include/miare/detail/exact_store.hpp:4031-4200`): it reserves full-size blocks for the pages,
writes the indexes into the reservations, returns what the pages did not use to the free runs and
repeats with that list until it no longer changes, at most 128 times.

At the beginning of a turn `freeRuns` and `representedFreeRuns` of the source are equal; the
state keeps one list.
-/

namespace Miare

open Misc

/-- `metadataPageBlocks`. -/
def Limits.metadataPageBlocks (L : Limits) : Nat := L.pageBlocks

/-- `metadataConvergenceLimit`. -/
def metadataConvergenceLimit : Nat := 128

/-- A metadata page with the blocks it was sealed for. -/
structure MetadataExtent where
  reference : ExtentReference
  kind : Nat
  payload : Bytes
deriving DecidableEq, Repr

/-- The loop variables at the beginning of a turn.  `previous` is empty while
`hasPreviousRepresentation` is false. -/
structure MetadataState where
  reservations : List ExtentReference
  represented : List ExtentRun
  previous : Option (List ExtentRun)
  nextBlock : Nat
deriving DecidableEq, Repr

/-- What the loop leaves when it has converged. -/
structure MetadataResult where
  freeRuns : List ExtentRun
  nextBlock : Nat
  extents : List MetadataExtent
  freeRoot : ExtentReference
  retiredRoot : ExtentReference
deriving DecidableEq, Repr

/-- The commit in whose name the pages are written: its generation, its retired runs, and the
stored size of each page, which the compression provider decides (`stored attempt index
payload`). -/
structure MetadataInput where
  generation : Nat
  retiredRuns : List ExtentRun
  stored : Nat → Nat → Bytes → Nat

/-- Why the loop fails. -/
inductive MetadataError where
  | tree (error : TreeError)
  | oversized
  | notConverged
deriving DecidableEq, Repr

/-- Text of the `ResourceLimit` errors of the loop itself. -/
def MetadataError.message : MetadataError → Option String
  | .tree error => error.message
  | .oversized => some "allocator metadata exceeds its full-page reservation"
  | .notConverged => some "allocator metadata reservation did not converge"

/-- `prepareReserved`: page number `index` goes to reservation number `index`, or to a
provisional place when there is none yet. -/
def prepareReserved (L : Limits) (input : MetadataInput) (attempt : Nat) (state : MetadataState) :
    Placement (List MetadataExtent) := fun extents payload kind =>
  let blockIndex := ((state.reservations.drop extents.length).head?.map
    ExtentReference.blockIndex).getD state.nextBlock
  let encodedLength := encodedExtentLength (input.stored attempt extents.length payload)
  let reference : ExtentReference :=
    { blockIndex, blockCount := L.blocksFor encodedLength, encodedLength,
      creationGeneration := input.generation }
  (reference, extents ++ [{ reference := reference, kind, payload }])

/-- Both indexes of a turn: the two roots and all pages in the order they were placed. -/
def writeIndexes (L : Limits) (input : MetadataInput) (attempt : Nat) (state : MetadataState) :
    Except TreeError (ExtentReference × ExtentReference × List MetadataExtent) :=
  match persistAllocatorIndex L true input.retiredRuns (prepareReserved L input attempt state)
    [] with
  | .error error => .error error
  | .ok (retiredRoot, extents) =>
    match persistAllocatorIndex L false state.represented (prepareReserved L input attempt state)
      extents with
    | .error error => .error error
    | .ok (freeRoot, extents) => .ok (retiredRoot, freeRoot, extents)

/-- `eraseEmptyRuns`. -/
def eraseEmptyRuns (runs : List ExtentRun) : List ExtentRun :=
  runs.filter fun run => run.count ≠ 0

/-- Carve `count` full-page reservations. -/
def reservePages (L : Limits) (generation : Nat) :
    (count : Nat) → BlockPool → List ExtentReference × BlockPool
  | 0, pool => ([], pool)
  | count + 1, pool =>
    let taken := pool.allocateBlocks L.metadataPageBlocks
    let rest := reservePages L generation count taken.2
    ({ blockIndex := taken.1, blockCount := L.metadataPageBlocks, encodedLength := 0,
       creationGeneration := generation } :: rest.1, rest.2)

/-- The state behind a carving. -/
def MetadataState.carve (L : Limits) (generation : Nat) (state : MetadataState)
    (runs : List ExtentRun) (count : Nat) : MetadataState :=
  let carved := reservePages L generation count { freeRuns := runs, nextBlock := state.nextBlock }
  { reservations := state.reservations ++ carved.1
    represented := eraseEmptyRuns carved.2.freeRuns
    previous := none
    nextBlock := carved.2.nextBlock }

/-- The blocks of one reservation behind those its page uses. -/
def unusedSuffix (pageBlocks : Nat) (reserved : ExtentReference) (usedBlocks : Nat) :
    List ExtentRun :=
  if usedBlocks ≠ pageBlocks then
    [{ start := reserved.blockIndex + usedBlocks, count := pageBlocks - usedBlocks }]
  else []

/-- The blocks of the reservations that the pages leave unused; a reservation without page is
unused as a whole. -/
def unusedSuffixes (pageBlocks : Nat) :
    List ExtentReference → List MetadataExtent → List ExtentRun
  | [], _ => []
  | reserved :: rest, [] =>
    unusedSuffix pageBlocks reserved 0 ++ unusedSuffixes pageBlocks rest []
  | reserved :: rest, extent :: extents =>
    unusedSuffix pageBlocks reserved extent.reference.blockCount ++
      unusedSuffixes pageBlocks rest extents

/-- The free list that follows from the pages of a turn. -/
def finalFreeRuns (L : Limits) (state : MetadataState) (extents : List MetadataExtent) :
    List ExtentRun :=
  coalesceBlobStagingFreeRuns
    (state.reservations.foldl
      (fun runs reserved => removeRange runs reserved.blockIndex reserved.blockCount)
      state.represented ++
      unusedSuffixes L.metadataPageBlocks state.reservations extents)

/-- How a turn ends. -/
inductive MetadataTurn where
  | again (state : MetadataState)
  | converged (result : MetadataResult)
deriving DecidableEq, Repr

/-- What a turn would carve reservations from, and how many: more pages than reservations, or a
list that alternates between two representations. -/
def carving (L : Limits) (input : MetadataInput) (attempt : Nat) (state : MetadataState) :
    Option (List ExtentRun × Nat) :=
  match writeIndexes L input attempt state with
  | .error _ => none
  | .ok (_, _, extents) =>
    if state.reservations.length < extents.length then
      some (state.represented, extents.length - state.reservations.length)
    else
      let final := finalFreeRuns L state extents
      if final ≠ state.represented ∧ state.previous = some final then some (final, 1) else none

/-- One turn of the loop (`exact_store.hpp:4101-4190`). -/
def metadataTurn (L : Limits) (input : MetadataInput) (attempt : Nat) (state : MetadataState) :
    Except MetadataError MetadataTurn :=
  match writeIndexes L input attempt state with
  | .error error => .error (.tree error)
  | .ok (retiredRoot, freeRoot, extents) =>
    if state.reservations.length < extents.length then
      .ok (.again (state.carve L input.generation state.represented
        (extents.length - state.reservations.length)))
    else if extents.any fun extent => L.metadataPageBlocks < extent.reference.blockCount then
      .error .oversized
    else
      let final := finalFreeRuns L state extents
      if final = state.represented then
        .ok (.converged
          { freeRuns := final, nextBlock := state.nextBlock, extents, freeRoot, retiredRoot })
      else if state.previous = some final then
        .ok (.again (state.carve L input.generation final 1))
      else
        .ok (.again { state with represented := final, previous := some state.represented })

/-- The turns from number `attempt` on, `remaining` of them at most. -/
def metadataTurns (L : Limits) (input : MetadataInput) :
    (remaining attempt : Nat) → MetadataState → Except MetadataError MetadataResult
  | 0, _, _ => .error .notConverged
  | remaining + 1, attempt, state =>
    match metadataTurn L input attempt state with
    | .error error => .error error
    | .ok (.converged result) => .ok result
    | .ok (.again state) => metadataTurns L input remaining (attempt + 1) state

/-- The loop variables before the first turn. -/
def MetadataState.initial (freeRuns : List ExtentRun) (nextBlock : Nat) : MetadataState :=
  { reservations := [], represented := freeRuns, previous := none, nextBlock }

/-- The whole reservation loop. -/
def reserveMetadata (L : Limits) (input : MetadataInput) (freeRuns : List ExtentRun)
    (nextBlock : Nat) : Except MetadataError MetadataResult :=
  metadataTurns L input metadataConvergenceLimit 0 (.initial freeRuns nextBlock)

/-- The states at the beginning of each turn, with the numbers of the turns. -/
def metadataTrace (L : Limits) (input : MetadataInput) :
    (remaining attempt : Nat) → MetadataState → List (Nat × MetadataState)
  | 0, _, _ => []
  | remaining + 1, attempt, state =>
    (attempt, state) ::
      match metadataTurn L input attempt state with
      | .ok (.again state) => metadataTrace L input remaining (attempt + 1) state
      | _ => []

end Miare
