import Miare.Session.State

/-!
# Closing a session

`close()` (`include/miare/database.hpp:1866-1954`) with the helpers that only it calls.  It holds
`operationMutex` exclusively, so that no other thread changes the state behind its admission.
-/

namespace Miare

open Misc

/-- What other threads have left when the queued writers are gone. -/
structure Settled where
  activeReaders : List (Nat × Nat)
  writerActive : Bool
  liveTransactions : Nat
deriving DecidableEq, Repr

/-- The outcomes of the calls of `close()`. -/
structure CloseCalls where
  settled : Settled
  -- `none` is `AuthenticationFailed`
  selectPublication : Except Raised (Option SelectedPublication)
  allocateCursorTree : Except Raised Unit
  loadExactValues : Except Raised Unit
  loadBlobCatalog : Except Raised Unit
  loadAllocatorSnapshot : Except Raised AllocatorSnapshot
  makeWriteBlobState : Except Raised Unit
  commit : CommitCalls
  size : Except Raised Nat
  resize : Except Raised Unit
  barrier : Except Raised Unit

/-- `reselectSessionForClose` (`database.hpp:2207-2234`). -/
def reselectSessionForClose (calls : CloseCalls) : SessionProgram Unit := do
  let selected ← attempt calls.selectPublication
  match selected with
  | none =>
    throw (.error (corruptError "recovery close could not authenticate a committed publication"))
  | some publication =>
    modify fun session => { session with
      format := publication.format.toOpenedFormat
      rejectedInactivePublication := publication.rejectedInactivePublication
      abandonedTailBytes := publication.abandonedTailBytes
      valuesLoaded := false
      blobsLoaded := false }
    attempt calls.allocateCursorTree
    modify fun session => { session with
      allocator := { session.allocator with
        retiredBlocksByGeneration := []
        blobRetiredBlocksByGeneration := [] }
      allocatorSnapshotLoaded := false }

/-- Blocks retired at a generation may be reused when no reader is older. -/
def Session.eligibleRetirement (session : Session) : Bool :=
  session.allocator.retiredBlocksByGeneration.any fun retirement =>
    session.activeReaders.all fun reader => decide (retirement.1 ≤ reader.2)

/-- `checkpointEligibleRetirements` (`database.hpp:2236-2264`). -/
def checkpointEligibleRetirements (makeWriteBlobState : Except Raised Unit) (commit : CommitCalls)
    (persistenceFailureCause : RecoveryCause) : SessionProgram Unit := do
  let session ← get
  if session.eligibleRetirement then
    attempt makeWriteBlobState
    commitExact commit (some persistenceFailureCause)
  else pure ()

/-- The body of the `try` block of `close()` (`database.hpp:1925-1933`). -/
def resolveForClose (calls : CloseCalls) (expected : DatabaseState) : SessionProgram Unit := do
  if expected = .recoveryRequired then reselectSessionForClose calls else pure ()
  ensureValuesLoaded calls.loadExactValues
  ensureBlobsLoaded calls.loadBlobCatalog
  ensureAllocatorSnapshotLoaded calls.loadAllocatorSnapshot
  checkpointEligibleRetirements calls.makeWriteBlobState calls.commit .closePersistenceFailed

/-- The handler for `DatabaseError` (`database.hpp:1934-1949`); no other exception is caught. -/
def restoreForClose (expected : DatabaseState) (raised : Raised) : SessionProgram Unit := do
  if raised.IsDatabaseError then
    modify fun session =>
      if session.state = .recoveryRequired then session
      else if raised.code = some .corrupt then session.failStop .confirmedCorruption
      else { session with state := expected }
    throw raised
  else throw raised

/-- `consolidateAbandonedTailForClose` (`database.hpp:2498-2541`). -/
def consolidateAbandonedTailForClose (calls : CloseCalls) (previousState : DatabaseState) :
    SessionProgram Unit := do
  let physicalBytes ← tryCatch (attempt calls.size) fun raised => do
    modify fun session => { session with state := previousState }
    throw raised
  let session ← get
  if physicalBytes < session.format.highWaterBytes then
    modify fun session => session.failStop .confirmedCorruption
    throw (.error (corruptError "database file is shorter than its committed high-water mark"))
  else if physicalBytes = session.format.highWaterBytes ∧ previousState ≠ .recoveryRequired then
    modify fun session => { session with abandonedTailBytes := 0 }
  else
    tryCatch
      (do
        if session.format.highWaterBytes < physicalBytes then attempt calls.resize else pure ()
        attempt calls.barrier
        modify fun session => { session with abandonedTailBytes := 0 })
      fun raised => do
        modify fun session => session.failStop .closePersistenceFailed
        throw raised

/-- The session behind `shutdownSession` (`database.hpp:2543-2567`). -/
def Session.shutDown (session : Session) : Session :=
  { session with
    invalidated := true
    liveTransactions := 0
    activeReaders := []
    waitingWriters := 0
    writerActive := false
    maintenanceActive := false
    state := .closed }

def shutdownSession : SessionProgram Unit := modify Session.shutDown

/-- The state when the queued writers have left (`database.hpp:1900-1907`). -/
def Session.settle (session : Session) (settled : Settled) : Session :=
  { session with
    waitingWriters := 0
    activeReaders := settled.activeReaders
    writerActive := settled.writerActive
    liveTransactions := settled.liveTransactions
    servingWriterTicket := session.nextWriterTicket - (if settled.writerActive then 1 else 0) }

/-- `close()` behind the wait for a pending corruption. -/
def close (calls : CloseCalls) : SessionProgram Unit := do
  let session ← get
  let expected := session.state
  demand (.error (contractError .invalidState "database is not open"))
    (expected = .opened ∨ expected = .recoveryRequired)
  modify fun session => { session with state := .closing }
  modify fun session => session.settle calls.settled
  if calls.settled.liveTransactions ≠ 0 then
    modify fun session => { session with state := expected }
    throw (.error (contractError .liveChildren "database has live transactions"))
  else
    let session ← get
    if expected = .opened ∨ session.recoveryCause ≠ .confirmedCorruption then
      tryCatch (resolveForClose calls expected) (restoreForClose expected)
      consolidateAbandonedTailForClose calls expected
    else pure ()
    shutdownSession

end Miare
