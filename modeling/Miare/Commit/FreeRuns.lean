import Miare.Blob.Transaction

/-!
# The free list a commit starts from

Before `commitExact` allocates its first block it rebuilds the free list from three books
(`include/miare/detail/exact_store.hpp:3592-3672`): the committed free runs, the retired runs no
live reader needs, and what the transaction's staging allocator left behind.
-/

namespace Miare

open Misc

variable {L : Limits}

/-- The committed free runs and the eligible retired runs, sorted and coalesced
(`exact_store.hpp:3592-3625`). -/
def reclaimedRuns (space : CommittedSpace L) (readers : List Nat) : List ExtentRun :=
  coalesceEligible (space.freeRuns ++ eligibleRuns readers space.retiredRuns)

/-- The part of a staging free run at or behind the committed high water. -/
def stagingTail (startBlock : Nat) (run : ExtentRun) : List ExtentRun :=
  if startBlock < run.limit then
    [{ start := max run.start startBlock, count := run.limit - max run.start startBlock }]
  else []

/-- The free list and the first unallocated block just before the first allocation of a commit
(`exact_store.hpp:3592-3672`). -/
def commitFreeRuns (space : CommittedSpace L) (tx : BlobTransaction) : BlockPool :=
  let startBlock := space.highWaterBlocks
  let reclaimed := reclaimedRuns space tx.readers
  if tx.staging.allocatorInitialized then
    let tail := tx.staging.stagingFreeRuns.flatMap (stagingTail startBlock)
    let discarded := (tx.discardedStagedReferences.filter fun reference =>
      startBlock ≤ reference.blockIndex).map ExtentReference.toRun
    { freeRuns := coalesceBlobStagingFreeRuns ((pendingChunks tx.blobs).foldl
        (fun runs reference => removeRange runs reference.blockIndex reference.blockCount)
        (reclaimed ++ tail ++ discarded))
      nextBlock := max startBlock tx.staging.stagingNextBlock }
  else
    { freeRuns := reclaimed, nextBlock := startBlock }

/-- The blocks a commit may use: committed free runs, retired runs eligible under the live
readers, and the tail behind the committed high water up to `nextBlock`. -/
def commitBlocks (space : CommittedSpace L) (readers : List Nat) (nextBlock : Nat) : Set Nat :=
  { x | (∃ run ∈ space.freeRuns, Covers run x) ∨
    (∃ run ∈ space.retiredRuns, run.eligible readers = true ∧ Covers run x) ∨
    (space.highWaterBlocks ≤ x ∧ x < nextBlock) }

end Miare
