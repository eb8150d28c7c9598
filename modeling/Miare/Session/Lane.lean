import Miare.Session.Close
import Miare.Tree.Load

/-!
# The writer lane

Write transactions and maintenance operations are admitted one at a time, in the order of the
tickets they draw (`beginWrite`, `tryBeginWrite`, `releaseTransaction`, `acquireMaintenance` and
`releaseMaintenance`; `include/miare/database.hpp:1593-1701`, `2085-2105`, `2266-2303`).  A failing
commit stops the session, corruption that a read finds invalidates its transactions
(`enterRecoveryAfterCorruption`, `2116-2161`), and `close` empties the queue (`1870-1954`).

Threads are at the places of `LanePhase`; a step of the machine is one section of a thread under
`session.mutex`, or one access to `state` or `confirmedCorruptionPending` outside of it.
`operationMutex` is the set of its shared holders and its exclusive holder; who takes it only for
such a section has it within the step.

A thread that draws a ticket looks at the lane in the same section, and waits if it must.  Here
these are two steps, since `state` may change in between without the mutex.
-/

namespace Miare

open Misc

/-- One call of `put` or `erase`. -/
inductive KeyEdit where
  | put (key value : Bytes)
  | erase (key : Bytes)
deriving DecidableEq, Repr

/-- The map behind a call. -/
def KeyEdit.apply (values : OrderedKeyValues) : KeyEdit → OrderedKeyValues
  | .put key value => values.insertOrAssign (key, value)
  | .erase key => values.erase key

/-- Whether a call changes the transaction: `erase` of an absent key does not. -/
def KeyEdit.mutates (values : OrderedKeyValues) : KeyEdit → Bool
  | .put _ _ => true
  | .erase key => (values.find key).isSome

/-- The map of a write transaction with `changed_`, and the calls that made it from the
snapshot. -/
structure WriterView where
  values : OrderedKeyValues
  changed : Bool := false
  edits : List KeyEdit := []

/-- `put` and `erase` of a transaction (`database.hpp:900-937`). -/
def WriterView.edit (view : WriterView) (edit : KeyEdit) : WriterView where
  values := edit.apply view.values
  changed := view.changed || edit.mutates view.values
  edits := view.edits ++ [edit]

/-- What a thread that met corruption goes back to. -/
inductive Origin where
  | nothing
  | reader
  | writer (view : WriterView)

/-- Where a thread is. -/
inductive LanePhase where
  | idle
  /-- In `beginWrite`, with a ticket. -/
  | queued (ticket : Nat)
  /-- Owns a write transaction. -/
  | writing (view : WriterView)
  /-- In `commit`, in `commitExact`. -/
  | committing (view : WriterView)
  /-- In `commit`, before the transaction is released. -/
  | releasing
  /-- In `acquireMaintenance`, with a ticket. -/
  | maintenanceQueued (ticket : Nat)
  /-- Between `acquireMaintenance` and `releaseMaintenance`. -/
  | maintaining
  /-- Owns a read transaction. -/
  | reading
  /-- In `enterRecoveryAfterCorruption`, before it has the lock. -/
  | recovering (origin : Origin)
  /-- In `close`, waiting for that recovery. -/
  | closePending
  /-- In `close`, with `state` at `Closing`, before the mutex is taken; `recovery` says that
  `expected` is `RecoveryRequired`. -/
  | closing (recovery : Bool)
  /-- In `close`, waiting for the queue to be empty. -/
  | closeWaiting (recovery : Bool)
  /-- In `close`, without live children. -/
  | resolving (recovery : Bool)

def Origin.phase : Origin → LanePhase
  | .nothing => .idle
  | .reader => .reading
  | .writer view => .writing view

/-- What a thread has at its place: a ticket, the lane, the maintenance flag, a transaction,
`operationMutex` shared or alone from one step to the next, in `close` a queue to empty and whether
the session opens again when it fails, and the map of its transaction. -/
structure Profile where
  ticket : Option Nat := none
  inLane : Bool := false
  maintains : Bool := false
  live : Bool := false
  sharing : Bool := false
  excluding : Bool := false
  draining : Bool := false
  reopens : Bool := false
  view : Option WriterView := none

def LanePhase.profile : LanePhase → Profile
  | .idle | .closePending | .recovering .nothing => {}
  | .queued ticket => { ticket := some ticket }
  | .writing view | .recovering (.writer view) =>
    { inLane := true, live := true, view := some view }
  | .committing view => { inLane := true, live := true, sharing := true, view := some view }
  | .releasing => { inLane := true, live := true }
  | .maintenanceQueued ticket => { ticket := some ticket, sharing := true }
  | .maintaining => { inLane := true, maintains := true, sharing := true }
  | .reading | .recovering .reader => { live := true }
  | .closing recovery | .closeWaiting recovery =>
    { excluding := true, draining := true, reopens := !recovery }
  | .resolving recovery => { excluding := true, reopens := !recovery }

/-- `requireOpen` returns. -/
abbrev Session.Accepts (session : Session) : Prop :=
  session.confirmedCorruptionPending = false ∧ session.state = .opened

/-- The condition that a thread waits for on `writerAvailable`. -/
def LanePhase.waitOver (session : Session) : LanePhase → Bool
  | .queued ticket | .maintenanceQueued ticket =>
    decide (session.state ≠ .opened) ||
      (!session.writerActive && ticket == session.servingWriterTicket)
  | .closePending => decide (session.state ≠ .opened)
  | .closeWaiting _ => session.waitingWriters == 0
  | _ => false

/-- A session with its threads.  `sleeping` threads wait for `writerAvailable`.  `durable` is the map
of the publication in the file, which the session may not know after a failed commit.  The last two
fields are the history: the tickets in the order of their admission, and the calls of the
transactions that were published, in that order. -/
structure LaneMachine (Thread : Type) where
  session : Session
  values : OrderedKeyValues
  durable : OrderedKeyValues
  phase : Thread → LanePhase
  sleeping : Thread → Bool
  sharedHolders : Finset Thread
  exclusiveHolder : Option Thread
  admitted : List Nat
  committed : List (List KeyEdit)

/-- How `commitExact` ends: it returns, it throws before it writes, or a failure to write stops the
session; the publication may be in the file although its barrier failed. -/
inductive CommitOutcome where
  | published
  | refused
  | knownUnpublished
  | outcomeUnknown (published : Bool)
deriving DecidableEq, Repr

/-- How the rest of `close` ends: it returns, it throws and leaves `expected` or
`RecoveryRequired` behind, or an exception that is no `DatabaseError` leaves `Closing`. -/
inductive CloseOutcome where
  | closed
  | restored
  | persistenceFailed
  | corrupt
  | escaped
deriving DecidableEq, Repr

/-- What a thread may do next.  `constructs` says whether the transaction object could be made,
`blobs` whether the transaction changed Blobs and `reselects` whether the close of a stopped session
came to replace its map. -/
inductive LaneStep where
  | beginWrite
  | wake (constructs : Bool)
  | tryBeginWrite (constructs : Bool)
  | edit (edit : KeyEdit)
  | commit (blobs : Bool)
  | persist (outcome : CommitOutcome)
  | endWrite
  | beginRead
  | endRead
  | acquireMaintenance
  | failMaintenance
  | releaseMaintenance
  | corrupt
  | recover
  | close
  | resolve (outcome : CloseOutcome) (reselects : Bool)
deriving DecidableEq, Repr

namespace LaneMachine

variable {Thread : Type} [DecidableEq Thread]

/-- A session that was just opened. -/
def start (format : OpenedFormat) (allocator : AllocatorSnapshot) (values : OrderedKeyValues) :
    LaneMachine Thread where
  session := { format := format, allocator := allocator }
  values := values
  durable := values
  phase := fun _ => .idle
  sleeping := fun _ => false
  sharedHolders := ∅
  exclusiveHolder := none
  admitted := []
  committed := []

/-- The thread goes on to another place. -/
def goTo (machine : LaneMachine Thread) (self : Thread) (phase : LanePhase) : LaneMachine Thread :=
  { machine with phase := Function.update machine.phase self phase }

/-- `writerAvailable.notify_all()`. -/
def notifyAll (machine : LaneMachine Thread) : LaneMachine Thread :=
  { machine with sleeping := fun _ => false }

/-- The thread blocks on `writerAvailable`. -/
def sleep (machine : LaneMachine Thread) (self : Thread) : LaneMachine Thread :=
  { machine with sleeping := Function.update machine.sleeping self true }

/-- `nextWriterTicket++` and `++waitingWriters`. -/
def draw (machine : LaneMachine Thread) (self : Thread) (phase : Nat → LanePhase) :
    LaneMachine Thread :=
  { machine.goTo self (phase machine.session.nextWriterTicket) with
    session := { machine.session with
      nextWriterTicket := machine.session.nextWriterTicket + 1
      waitingWriters := machine.session.waitingWriters + 1 }
    sleeping := Function.update machine.sleeping self false }

/-- A maintenance operation draws its ticket, under the shared lock of its caller
(`database.hpp:2266-2278`). -/
def joinMaintenance (machine : LaneMachine Thread) (self : Thread) : LaneMachine Thread :=
  { machine.draw self .maintenanceQueued with sharedHolders := insert self machine.sharedHolders }

/-- A waiting writer sees that the session is not open (`database.hpp:1621-1628`). -/
def cancelWait (machine : LaneMachine Thread) (self : Thread) (ticket : Nat) : LaneMachine Thread :=
  { machine.goTo self .idle with
    session := { machine.session with
      waitingWriters := machine.session.waitingWriters - 1
      servingWriterTicket :=
        if ticket = machine.session.servingWriterTicket then machine.session.servingWriterTicket + 1
        else machine.session.servingWriterTicket }
    sleeping := fun _ => false }

/-- The transaction object could not be made (`database.hpp:1644-1649`). -/
def abandonWait (machine : LaneMachine Thread) (self : Thread) : LaneMachine Thread :=
  { machine.goTo self .idle with
    session := { machine.session with
      waitingWriters := machine.session.waitingWriters - 1
      servingWriterTicket := machine.session.servingWriterTicket + 1 }
    sleeping := fun _ => false }

/-- The served writer gets its transaction, with a copy of the committed map
(`database.hpp:1629-1654`). -/
def admitWriter (machine : LaneMachine Thread) (self : Thread) : LaneMachine Thread :=
  { machine.goTo self (.writing { values := machine.values }) with
    session := { machine.session with
      waitingWriters := machine.session.waitingWriters - 1
      writerActive := true
      liveTransactions := machine.session.liveTransactions + 1 }
    admitted := machine.admitted ++ [machine.session.servingWriterTicket] }

/-- The served maintenance operation begins (`database.hpp:2285-2288`). -/
def admitMaintenance (machine : LaneMachine Thread) (self : Thread) : LaneMachine Thread :=
  { machine.goTo self .maintaining with
    session := { machine.session with
      waitingWriters := machine.session.waitingWriters - 1
      writerActive := true
      maintenanceActive := true }
    admitted := machine.admitted ++ [machine.session.servingWriterTicket] }

/-- A maintenance operation sees that the session needs recovery or is not open: its ticket is left
behind. -/
def cancelMaintenance (machine : LaneMachine Thread) (self : Thread) : LaneMachine Thread :=
  { machine.goTo self .idle with
    session := { machine.session with waitingWriters := machine.session.waitingWriters - 1 }
    sharedHolders := machine.sharedHolders.erase self }

/-- `tryBeginWrite` succeeds (`database.hpp:1683-1699`). -/
def passWriter (machine : LaneMachine Thread) (self : Thread) : LaneMachine Thread :=
  { machine.goTo self (.writing { values := machine.values }) with
    session := { machine.session with
      nextWriterTicket := machine.session.nextWriterTicket + 1
      writerActive := true
      liveTransactions := machine.session.liveTransactions + 1 }
    admitted := machine.admitted ++ [machine.session.nextWriterTicket] }

/-- The thread takes the lock of its commit (`database.hpp:982-985`). -/
def enterCommit (machine : LaneMachine Thread) (self : Thread) (view : WriterView) :
    LaneMachine Thread :=
  { machine.goTo self (.committing view) with sharedHolders := insert self machine.sharedHolders }

/-- The thread gives up the lock of its commit. -/
def leaveCommit (machine : LaneMachine Thread) (self : Thread) (phase : LanePhase) :
    LaneMachine Thread :=
  { machine.goTo self phase with sharedHolders := machine.sharedHolders.erase self }

/-- The map of the transaction is in the file. -/
def record (machine : LaneMachine Thread) (view : WriterView) : LaneMachine Thread :=
  { machine with durable := view.values, committed := machine.committed ++ [view.edits] }

/-- The persistence of a commit fails (`exact_store.hpp:4365-4398`). -/
def stop (machine : LaneMachine Thread) (cause : RecoveryCause) : LaneMachine Thread :=
  { machine with session := machine.session.failStop cause }

/-- `commitExact` ends. -/
def persist (machine : LaneMachine Thread) (self : Thread) (view : WriterView) :
    CommitOutcome → LaneMachine Thread
  | .published => { (machine.record view).leaveCommit self .releasing with values := view.values }
  | .refused => machine.leaveCommit self (.writing view)
  | .knownUnpublished => (machine.stop .commitKnownUnpublished).leaveCommit self .releasing
  | .outcomeUnknown published =>
    ((if published then machine.record view else machine).stop .commitOutcomeUnknown).leaveCommit
      self .releasing

/-- The end of a writer (`database.hpp:2085-2105`). -/
def leaveWriter (machine : LaneMachine Thread) (self : Thread) : LaneMachine Thread :=
  { machine.goTo self .idle with
    session := { machine.session with
      liveTransactions := machine.session.liveTransactions - 1
      writerActive := false
      servingWriterTicket := machine.session.servingWriterTicket + 1 }
    sleeping := fun _ => false }

/-- The end of a reader. -/
def leaveRead (machine : LaneMachine Thread) (self : Thread) : LaneMachine Thread :=
  { machine.goTo self .idle with
    session := { machine.session with
      liveTransactions := machine.session.liveTransactions - 1 } }

/-- `releaseTransaction`: one that was invalidated is not counted any more. -/
def releaseTransaction (machine : LaneMachine Thread) (self : Thread) (writer : Bool) :
    LaneMachine Thread :=
  if machine.session.invalidated then machine.goTo self .idle
  else if writer then machine.leaveWriter self
  else machine.leaveRead self

/-- `releaseMaintenance` (`database.hpp:2291-2303`). -/
def leaveMaintenance (machine : LaneMachine Thread) (self : Thread) : LaneMachine Thread :=
  { machine.goTo self .idle with
    session := { machine.session with
      maintenanceActive := false
      writerActive := false
      servingWriterTicket := machine.session.servingWriterTicket + 1 }
    sleeping := fun _ => false
    sharedHolders := machine.sharedHolders.erase self }

/-- `releaseMaintenance` finds no maintenance operation. -/
def dropMaintenance (machine : LaneMachine Thread) (self : Thread) : LaneMachine Thread :=
  { machine.goTo self .idle with sharedHolders := machine.sharedHolders.erase self }

/-- `beginRead` returns its transaction (`database.hpp:1545-1590`). -/
def enterRead (machine : LaneMachine Thread) (self : Thread) : LaneMachine Thread :=
  { machine.goTo self .reading with
    session := { machine.session with
      liveTransactions := machine.session.liveTransactions + 1 } }

/-- `enterRecoveryAfterCorruption` stores its flag (`database.hpp:2140-2141`).  The read that found
the corruption has changed nothing, so that it may have begun at any time before. -/
def meetCorruption (machine : LaneMachine Thread) (self : Thread) (origin : Origin) :
    LaneMachine Thread :=
  { machine.goTo self (.recovering origin) with
    session := { machine.session with confirmedCorruptionPending := true } }

/-- The session behind `enterRecoveryAfterCorruptionLocked` (`database.hpp:2124-2133`). -/
def recoverSession (session : Session) : Session :=
  { session with
    recoveryCause := .confirmedCorruption
    state := .recoveryRequired
    liveTransactions := 0
    activeReaders := []
    writerActive := false
    invalidated := true }

/-- `enterRecoveryAfterCorruption` has the lock. -/
def enterRecovery (machine : LaneMachine Thread) (self : Thread) (origin : Origin) :
    LaneMachine Thread :=
  if machine.session.state = .opened ∨ machine.session.state = .recoveryRequired then
    { machine.goTo self origin.phase with
      session := recoverSession machine.session
      sleeping := fun _ => false }
  else machine.goTo self origin.phase

/-- Nobody has `operationMutex`. -/
abbrev LockFree (machine : LaneMachine Thread) : Prop :=
  machine.exclusiveHolder = none ∧ machine.sharedHolders = ∅

/-- `close` gives up the lock and waits for a recovery (`database.hpp:1873-1881`). -/
def awaitRecovery (machine : LaneMachine Thread) (self : Thread) : LaneMachine Thread :=
  { machine.goTo self .closePending with sleeping := Function.update machine.sleeping self false }

/-- `close` sets `state` from the expected one. -/
def beginClose (machine : LaneMachine Thread) (self : Thread) (recovery : Bool) :
    LaneMachine Thread :=
  { machine.goTo self (.closing recovery) with
    session := { machine.session with state := .closing }
    exclusiveHolder := some self }

/-- `close` has the lock (`database.hpp:1886-1899`). -/
def enterClose (machine : LaneMachine Thread) (self : Thread) : LaneMachine Thread :=
  match machine.session.state with
  | .opened => machine.beginClose self false
  | .recoveryRequired => machine.beginClose self true
  | _ => machine.goTo self .idle

/-- `close` notifies the queue and waits for it. -/
def drain (machine : LaneMachine Thread) (self : Thread) (recovery : Bool) : LaneMachine Thread :=
  (machine.notifyAll.goTo self (.closeWaiting recovery)).sleep self

def expectedState : Bool → DatabaseState
  | true => .recoveryRequired
  | false => .opened

/-- `close` aligns the counters. -/
def alignTickets (session : Session) : Session :=
  { session with
    servingWriterTicket := session.nextWriterTicket - session.writerActive.toNat }

/-- An attempt to close ends with an exception. -/
def abortClose (machine : LaneMachine Thread) (self : Thread) (session : Session) :
    LaneMachine Thread :=
  { machine.goTo self .idle with session := session, exclusiveHolder := none }

/-- The queue of `close` is empty (`database.hpp:1906-1918`). -/
def closeAligned (machine : LaneMachine Thread) (self : Thread) (recovery : Bool) :
    LaneMachine Thread :=
  if machine.session.liveTransactions ≠ 0 then
    machine.abortClose self { alignTickets machine.session with state := expectedState recovery }
  else { machine.goTo self (.resolving recovery) with session := alignTickets machine.session }

/-- `close` returns.  Between the locks of `close` and `shutdownSession` nobody can change a session
whose state is `Closing`. -/
def shutdown (machine : LaneMachine Thread) (self : Thread) : LaneMachine Thread :=
  { machine.abortClose self machine.session.shutDown with sleeping := fun _ => false }

/-- `reselectSessionForClose` drops the map of the session, and the one in the file is loaded. -/
def reselect (machine : LaneMachine Thread) : LaneMachine Thread :=
  { machine with values := machine.durable }

/-- The rest of `close` (`database.hpp:1920-1953`). -/
def leaveClose (machine : LaneMachine Thread) (self : Thread) (recovery : Bool) :
    CloseOutcome → LaneMachine Thread
  | .closed => machine.shutdown self
  | .restored => machine.abortClose self { machine.session with state := expectedState recovery }
  | .persistenceFailed => machine.abortClose self (machine.session.failStop .closePersistenceFailed)
  | .corrupt => machine.abortClose self (machine.session.failStop .confirmedCorruption)
  | .escaped => machine.abortClose self machine.session

/-- One step of a thread; where the thread cannot take it, or an exception leaves the call without
a change, nothing happens.  A thread that sleeps may wake up without being notified. -/
def step (machine : LaneMachine Thread) (self : Thread) (step : LaneStep) : LaneMachine Thread :=
  match step, machine.phase self with
  | .beginWrite, .idle =>
    if machine.session.Accepts ∧ machine.session.nextWriterTicket ≠ uint64Max then
      machine.draw self .queued
    else machine
  | .acquireMaintenance, .idle =>
    if machine.exclusiveHolder = none ∧ machine.session.Accepts ∧
        machine.session.nextWriterTicket ≠ uint64Max then machine.joinMaintenance self
    else machine
  | .wake constructs, .queued ticket =>
    if LanePhase.waitOver machine.session (.queued ticket) then
      if machine.session.state ≠ .opened then machine.cancelWait self ticket
      else if constructs then machine.admitWriter self
      else machine.abandonWait self
    else machine.sleep self
  | .wake _, .maintenanceQueued ticket =>
    if LanePhase.waitOver machine.session (.maintenanceQueued ticket) then
      if machine.session.Accepts then machine.admitMaintenance self
      else machine.cancelMaintenance self
    else machine.sleep self
  | .tryBeginWrite constructs, .idle =>
    if machine.session.Accepts ∧ machine.session.writerActive = false ∧
        machine.session.waitingWriters = 0 ∧ machine.session.nextWriterTicket ≠ uint64Max ∧
        constructs then machine.passWriter self
    else machine
  | .edit edit, .writing view =>
    if machine.session.Accepts then machine.goTo self (.writing (view.edit edit)) else machine
  | .commit blobs, .writing view =>
    if ¬ machine.session.Accepts then machine
    else if view.changed = false ∧ blobs = false then machine.releaseTransaction self true
    else if machine.exclusiveHolder = none then machine.enterCommit self view
    else machine
  | .persist outcome, .committing view => machine.persist self view outcome
  | .endWrite, .writing _ => machine.releaseTransaction self true
  | .endWrite, .releasing => machine.releaseTransaction self true
  | .beginRead, .idle => if machine.session.Accepts then machine.enterRead self else machine
  | .endRead, .reading => machine.releaseTransaction self false
  | .failMaintenance, .maintaining => machine.stop .maintenancePersistenceFailed
  | .releaseMaintenance, .maintaining =>
    if machine.session.maintenanceActive then machine.leaveMaintenance self
    else machine.dropMaintenance self
  | .corrupt, .idle => machine.meetCorruption self .nothing
  | .corrupt, .reading => machine.meetCorruption self .reader
  | .corrupt, .writing view => machine.meetCorruption self (.writer view)
  | .recover, .recovering origin =>
    if machine.LockFree then machine.enterRecovery self origin else machine
  | .close, .idle =>
    if machine.LockFree then
      if machine.session.confirmedCorruptionPending ∧ machine.session.state = .opened then
        machine.awaitRecovery self
      else machine.enterClose self
    else machine
  | .wake _, .closePending =>
    if LanePhase.waitOver machine.session .closePending then
      if machine.LockFree then machine.enterClose self else machine
    else machine.sleep self
  | .wake _, .closing recovery =>
    if machine.session.waitingWriters = 0 then machine.notifyAll.closeAligned self recovery
    else machine.drain self recovery
  | .wake _, .closeWaiting recovery =>
    if LanePhase.waitOver machine.session (.closeWaiting recovery) then
      machine.closeAligned self recovery
    else machine.sleep self
  | .resolve outcome reselects, .resolving recovery =>
    if recovery ∧ machine.session.recoveryCause = .confirmedCorruption then machine.shutdown self
    else (if recovery ∧ reselects then machine.reselect else machine).leaveClose self recovery outcome
  | _, _ => machine

/-- A run: any threads, in any order. -/
def run (machine : LaneMachine Thread) (steps : List (Thread × LaneStep)) : LaneMachine Thread :=
  steps.foldl (fun machine next => machine.step next.1 next.2) machine

end LaneMachine

end Miare
