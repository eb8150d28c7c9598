import Miare.Format.Publication
import Miare.Misc.Program

/-!
# Sessions

The control part of a session (`DatabaseSession`, `include/miare/detail/exact_store.hpp:168-257`)
and the exceptions of its operations.  A call of a session into the file, the providers or the
allocator may throw anything; the operations are programs over the session that are given the
outcomes of these calls.
-/

namespace Miare

open Misc

/-- An exception: a `DatabaseError` or a `ContractError`, or one of another class such as
`std::bad_alloc`. -/
inductive Raised where
  | error (error : DatabaseError)
  | other
deriving DecidableEq, Repr

/-- A handler for `const DatabaseError&` catches the exception. -/
def Raised.IsDatabaseError : Raised → Prop
  | .error thrown => thrown.contract = false
  | .other => False

instance decidableIsDatabaseError : (raised : Raised) → Decidable raised.IsDatabaseError
  | .error thrown => inferInstanceAs (Decidable (thrown.contract = false))
  | .other => inferInstanceAs (Decidable False)

/-- `error.code()`. -/
def Raised.code : Raised → Option Errc
  | .error thrown => some thrown.code
  | .other => none

/-- `DatabaseState` (`include/miare/types.hpp:51-60`); `opened` is `Open`. -/
inductive DatabaseState where
  | opened
  | closing
  | recoveryRequired
  | closed
deriving DecidableEq, Repr

/-- `RecoveryCause` (`types.hpp:63-76`). -/
inductive RecoveryCause where
  | none
  | commitKnownUnpublished
  | commitOutcomeUnknown
  | maintenancePersistenceFailed
  | closePersistenceFailed
  | confirmedCorruption
deriving DecidableEq, Repr

/-- Blocks retired at each generation. -/
abbrev RetirementCounts : Type := List (Nat × Nat)

/-- `AllocatorSnapshot`. -/
structure AllocatorSnapshot where
  liveBlocks : Nat
  retiredBlocksByGeneration : RetirementCounts
  blobRetiredBlocksByGeneration : RetirementCounts
deriving DecidableEq, Repr

/-- `DatabaseSession` without its contents. -/
structure Session where
  format : OpenedFormat
  rejectedInactivePublication : Bool := false
  abandonedTailBytes : Nat := 0
  valuesLoaded : Bool := false
  blobsLoaded : Bool := false
  allocatorSnapshotLoaded : Bool := false
  allocator : AllocatorSnapshot
  -- identity and generation
  activeReaders : List (Nat × Nat) := []
  nextWriterTicket : Nat := 0
  servingWriterTicket : Nat := 0
  waitingWriters : Nat := 0
  writerActive : Bool := false
  maintenanceActive : Bool := false
  liveTransactions : Nat := 0
  state : DatabaseState := .opened
  recoveryCause : RecoveryCause := .none
  confirmedCorruptionPending : Bool := false
  -- `ChildLifetime::invalidated`
  invalidated : Bool := false
deriving DecidableEq, Repr

/-- An operation of a session. -/
abbrev SessionProgram (α : Type) : Type := Program Raised Session α

/-- `requireOpen` (`include/miare/database.hpp:2048-2063`). -/
def requireOpen : SessionProgram Unit := do
  let session ← get
  demand (.error (databaseError .recoveryRequired "database requires recovery"))
    (session.confirmedCorruptionPending = false)
  demand (.error (databaseError .recoveryRequired "database requires recovery"))
    (session.state ≠ .recoveryRequired)
  demand (.error (contractError .invalidState "database is not open")) (session.state = .opened)

/-- The session behind a failure that needs recovery. -/
def Session.failStop (session : Session) (cause : RecoveryCause) : Session :=
  { session with recoveryCause := cause, state := .recoveryRequired }

/-! ## Lazy loading -/

/-- `ensureValuesLoaded` (`database.hpp:2163-2176`). -/
def ensureValuesLoaded (loadExactValues : Except Raised Unit) : SessionProgram Unit := do
  let session ← get
  if session.valuesLoaded then pure ()
  else
    attempt loadExactValues
    modify fun session => { session with valuesLoaded := true }

/-- `ensureBlobsLoaded` (`database.hpp:2178-2188`). -/
def ensureBlobsLoaded (loadBlobCatalog : Except Raised Unit) : SessionProgram Unit := do
  let session ← get
  if session.blobsLoaded then pure ()
  else
    attempt loadBlobCatalog
    modify fun session => { session with blobsLoaded := true }

/-- `ensureAllocatorSnapshotLoaded` (`database.hpp:2190-2205`). -/
def ensureAllocatorSnapshotLoaded (loadAllocatorSnapshot : Except Raised AllocatorSnapshot) :
    SessionProgram Unit := do
  let session ← get
  if session.allocatorSnapshotLoaded then pure ()
  else
    let snapshot ← attempt loadAllocatorSnapshot
    modify fun session => { session with allocator := snapshot, allocatorSnapshotLoaded := true }

/-! ## Commit -/

/-- What `commitExact` has prepared when it begins to write. -/
structure PreparedCommit where
  highWaterBytes : Nat
  allocator : AllocatorSnapshot
deriving DecidableEq, Repr

/-- The outcomes of the calls of `commitExact`. -/
structure CommitCalls where
  -- copies, trees, extents, block allocation and the publication record, with their limits
  prepare : Except Raised PreparedCommit
  resize : Except Raised Unit
  writes : List (Except Raised Unit)
  extentBarrier : Except Raised Unit
  writeSlot : Except Raised Unit
  slotBarrier : Except Raised Unit
  -- `size()` in `recordAbandonedTail`
  size : Except Raised Nat

/-- The file operations of a commit (`exact_store.hpp:4352-4364`); a failure comes with
`publicationStarted`. -/
def CommitCalls.persist (calls : CommitCalls) : Except (Bool × Raised) Unit := do
  calls.resize.mapError (Prod.mk false)
  calls.writes.forM fun write => write.mapError (Prod.mk false)
  calls.extentBarrier.mapError (Prod.mk false)
  calls.writeSlot.mapError (Prod.mk true)
  calls.slotBarrier.mapError (Prod.mk true)

/-- `recordAbandonedTail` (`exact_store.hpp:4341-4351`). -/
def recordAbandonedTail (size : Except Raised Nat) (session : Session) : Session :=
  match size with
  | .ok physicalBytes =>
    { session with abandonedTailBytes := physicalBytes - session.format.highWaterBytes }
  | .error _ => session

/-- The session behind a commit (`exact_store.hpp:4400-4422`). -/
def Session.published (session : Session) (generation : Nat) (prepared : PreparedCommit) : Session :=
  { session with
    format := { generation, highWaterBytes := prepared.highWaterBytes }
    rejectedInactivePublication := false
    abandonedTailBytes := 0
    valuesLoaded := true
    blobsLoaded := true
    allocator := prepared.allocator
    allocatorSnapshotLoaded := true }

/-- The failure handlers of a commit (`exact_store.hpp:4365-4398`). -/
def failCommit (calls : CommitCalls) (persistenceFailureCause : Option RecoveryCause)
    (publicationStarted : Bool) (raised : Raised) : SessionProgram Unit := do
  modify (recordAbandonedTail calls.size)
  if raised.IsDatabaseError then
    match persistenceFailureCause with
    | some cause =>
      modify fun session => session.failStop cause
      throw raised
    | none =>
      modify fun session => session.failStop
        (if publicationStarted then .commitOutcomeUnknown else .commitKnownUnpublished)
      throw (.error (if publicationStarted then
        databaseError .commitOutcomeUnknown "commit publication outcome is unknown"
      else databaseError .commitFailed "commit failed before publication"))
  else
    modify fun session => session.failStop (persistenceFailureCause.getD .commitOutcomeUnknown)
    throw raised

/-- `commitExact` (`exact_store.hpp:3513-4423`) as its caller sees it. -/
def commitExact (calls : CommitCalls) (persistenceFailureCause : Option RecoveryCause) :
    SessionProgram Unit := do
  let session ← get
  let generation := (session.format.generation + 1) % 2 ^ 64
  demand (.error (databaseError .resourceLimit "database generation is exhausted"))
    (generation ≠ 0)
  let prepared ← attempt calls.prepare
  match calls.persist with
  | .ok () => modify fun session => session.published generation prepared
  | .error (publicationStarted, raised) =>
    failCommit calls persistenceFailureCause publicationStarted raised

end Miare
