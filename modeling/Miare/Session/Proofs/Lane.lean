import Miare.Session.Lane
import Miare.Misc.Tickets

/-!
# Steps of the writer lane

`Effect` lists what a step of a thread can do.  The invariants of the following modules are kept by
each effect, and so by every run.  Here it is the operation mutex, which is held as the places of
the threads say.
-/

namespace Miare

theorem Origin.profile_phase (origin : Origin) :
    origin.phase.profile = (LanePhase.recovering origin).profile := by
  cases origin <;> rfl

theorem Origin.waitOver_phase (origin : Origin) (session : Session) :
    origin.phase.waitOver session = false := by
  cases origin <;> rfl

/-- `Closing` or `Closed`. -/
def DatabaseState.shut : DatabaseState → Bool
  | .closing | .closed => true
  | _ => false

namespace LaneMachine

open Misc

variable {Thread : Type} [DecidableEq Thread] {machine after : LaneMachine Thread} {self : Thread}

/-! ## Effects -/

/-- What one step of a thread does to the machine, with what it has checked. -/
inductive Effect (machine : LaneMachine Thread) (self : Thread) : LaneMachine Thread → Prop
  | nothing : Effect machine self machine
  | sleep (early : (machine.phase self).waitOver machine.session = false) :
      Effect machine self (machine.sleep self)
  -- the thread has at its new place what it had before
  | move {phase : LanePhase} (pending : Bool)
      (alike : phase.profile = (machine.phase self).profile)
      (still : ∀ session, phase.waitOver session = false)
      (outside : (machine.phase self).profile.excluding = false)
      (found : machine.session.confirmedCorruptionPending = true → pending = true) :
      Effect machine self { machine.goTo self phase with
        session := { machine.session with confirmedCorruptionPending := pending } }
  | drawWriter (idle : machine.phase self = .idle) (accepts : machine.session.Accepts)
      (room : machine.session.nextWriterTicket ≠ uint64Max) :
      Effect machine self (machine.draw self .queued)
  | drawMaintenance (idle : machine.phase self = .idle) (shared : machine.exclusiveHolder = none)
      (accepts : machine.session.Accepts)
      (room : machine.session.nextWriterTicket ≠ uint64Max) :
      Effect machine self (machine.joinMaintenance self)
  | cancelWait {ticket : Nat} (queued : machine.phase self = .queued ticket)
      (stopped : machine.session.state ≠ .opened) :
      Effect machine self (machine.cancelWait self ticket)
  | admitWriter (queued : machine.phase self = .queued machine.session.servingWriterTicket)
      (opened : machine.session.state = .opened) (free : machine.session.writerActive = false) :
      Effect machine self (machine.admitWriter self)
  | abandonWait (queued : machine.phase self = .queued machine.session.servingWriterTicket)
      (opened : machine.session.state = .opened) (free : machine.session.writerActive = false) :
      Effect machine self (machine.abandonWait self)
  | admitMaintenance
      (queued : machine.phase self = .maintenanceQueued machine.session.servingWriterTicket)
      (accepts : machine.session.Accepts) (free : machine.session.writerActive = false) :
      Effect machine self (machine.admitMaintenance self)
  | cancelMaintenance {ticket : Nat} (queued : machine.phase self = .maintenanceQueued ticket)
      (ready : (machine.phase self).waitOver machine.session = true)
      (refused : ¬ machine.session.Accepts) : Effect machine self (machine.cancelMaintenance self)
  | passWriter (idle : machine.phase self = .idle) (accepts : machine.session.Accepts)
      (free : machine.session.writerActive = false) (alone : machine.session.waitingWriters = 0)
      (room : machine.session.nextWriterTicket ≠ uint64Max) :
      Effect machine self (machine.passWriter self)
  | edit {view : WriterView} (edit : KeyEdit) (writing : machine.phase self = .writing view)
      (accepts : machine.session.Accepts) :
      Effect machine self (machine.goTo self (.writing (view.edit edit)))
  | enterCommit {view : WriterView} (writing : machine.phase self = .writing view)
      (shared : machine.exclusiveHolder = none) (accepts : machine.session.Accepts) :
      Effect machine self (machine.enterCommit self view)
  | refuseCommit {view : WriterView} (committing : machine.phase self = .committing view) :
      Effect machine self (machine.leaveCommit self (.writing view))
  -- the map is in the file or not, and the session knows or stops
  | settleCommit {view : WriterView} (committing : machine.phase self = .committing view)
      (session : Session) (values durable : OrderedKeyValues) (committed : List (List KeyEdit))
      (known : session = machine.session ∧ values = durable ∨
        ∃ cause, cause ≠ .none ∧ session = machine.session.failStop cause)
      (records : durable = machine.durable ∧ committed = machine.committed ∨
        durable = view.values ∧ committed = machine.committed ++ [view.edits]) :
      Effect machine self { machine.leaveCommit self .releasing with
        session := session, values := values, durable := durable, committed := committed }
  | leaveWriter {view : Option WriterView}
      (owns : (machine.phase self).profile = { inLane := true, live := true, view := view })
      (alive : machine.session.invalidated = false) : Effect machine self (machine.leaveWriter self)
  | beginRead (idle : machine.phase self = .idle) (accepts : machine.session.Accepts) :
      Effect machine self (machine.enterRead self)
  | leaveRead (reading : machine.phase self = .reading)
      (alive : machine.session.invalidated = false) : Effect machine self (machine.leaveRead self)
  | forget {inLane : Bool} {view : Option WriterView}
      (owns : (machine.phase self).profile = { inLane := inLane, live := true, view := view })
      (gone : machine.session.invalidated = true) : Effect machine self (machine.goTo self .idle)
  | failMaintenance (maintaining : machine.phase self = .maintaining) :
      Effect machine self (machine.stop .maintenancePersistenceFailed)
  | leaveMaintenance (maintaining : machine.phase self = .maintaining) :
      Effect machine self (machine.leaveMaintenance self)
  | dropMaintenance (maintaining : machine.phase self = .maintaining)
      (inactive : machine.session.maintenanceActive = false) :
      Effect machine self (machine.dropMaintenance self)
  | recover {origin : Origin} (recovering : machine.phase self = .recovering origin)
      (free : machine.LockFree) :
      Effect machine self { machine.goTo self origin.phase with
        session := recoverSession machine.session, sleeping := fun _ => false }
  | awaitRecovery (idle : machine.phase self = .idle) :
      Effect machine self (machine.awaitRecovery self)
  | beginClose (recovery : Bool) (outside : (machine.phase self).profile = {})
      (free : machine.LockFree) (expected : machine.session.state = expectedState recovery) :
      Effect machine self (machine.beginClose self recovery)
  | drain {recovery : Bool} (closing : machine.phase self = .closing recovery)
      (crowded : machine.session.waitingWriters ≠ 0) :
      Effect machine self (machine.drain self recovery)
  -- a thread that `close` has notified does not sleep when the queue is empty
  | refuse {recovery : Bool} (sleeping : Thread → Bool) (draining :
        machine.phase self = .closing recovery ∨ machine.phase self = .closeWaiting recovery)
      (asleep : ∀ thread, sleeping thread = true →
        machine.sleeping thread = true ∧ machine.phase self = .closeWaiting recovery)
      (drained : machine.session.waitingWriters = 0) :
      Effect machine self { machine.abortClose self
        { alignTickets machine.session with state := expectedState recovery } with
        sleeping := sleeping }
  | align {recovery : Bool} (sleeping : Thread → Bool) (draining :
        machine.phase self = .closing recovery ∨ machine.phase self = .closeWaiting recovery)
      (asleep : ∀ thread, sleeping thread = true →
        machine.sleeping thread = true ∧ machine.phase self = .closeWaiting recovery)
      (drained : machine.session.waitingWriters = 0)
      (childless : machine.session.liveTransactions = 0) :
      Effect machine self { machine.goTo self (.resolving recovery) with
        session := alignTickets machine.session, sleeping := sleeping }
  | abort {recovery : Bool} (resolving : machine.phase self = .resolving recovery)
      (session : Session) (values : OrderedKeyValues)
      (known : values = machine.values ∨ values = machine.durable)
      (ends : session = machine.session ∨
        session = { machine.session with state := expectedState recovery } ∨
        ¬ (recovery = true ∧ machine.session.recoveryCause = .confirmedCorruption) ∧
          ∃ cause, cause ≠ .none ∧ session = machine.session.failStop cause) :
      Effect machine self { machine.abortClose self session with values := values }
  | shutdown {recovery : Bool} (resolving : machine.phase self = .resolving recovery)
      (values : OrderedKeyValues) (known : values = machine.values ∨ values = machine.durable) :
      Effect machine self { machine.shutdown self with values := values }

namespace Effect

theorem released {inLane : Bool} {view : Option WriterView} (writer : Bool)
    (owns : (machine.phase self).profile = { inLane := inLane, live := true, view := view })
    (isWriter : writer = true → inLane = true)
    (isReader : writer = false → machine.phase self = .reading) :
    Effect machine self (machine.releaseTransaction self writer) := by
  unfold LaneMachine.releaseTransaction
  split
  next gone => exact .forget owns gone
  next alive =>
    have alive := Bool.eq_false_iff.2 alive
    cases writer with
    | true =>
      obtain rfl := isWriter rfl
      exact .leaveWriter owns alive
    | false => exact .leaveRead (isReader rfl) alive

theorem persisted {view : WriterView} (committing : machine.phase self = .committing view)
    (outcome : CommitOutcome) : Effect machine self (machine.persist self view outcome) := by
  cases outcome with
  | published =>
    exact .settleCommit committing machine.session _ _ _ (.inl ⟨rfl, rfl⟩) (.inr ⟨rfl, rfl⟩)
  | refused => exact .refuseCommit committing
  | knownUnpublished =>
    exact .settleCommit committing _ machine.values _ _
      (.inr ⟨.commitKnownUnpublished, nofun, rfl⟩) (.inl ⟨rfl, rfl⟩)
  | outcomeUnknown published =>
    have stops : ∃ cause, cause ≠ .none ∧
        machine.session.failStop .commitOutcomeUnknown = machine.session.failStop cause :=
      ⟨.commitOutcomeUnknown, nofun, rfl⟩
    cases published with
    | true =>
      exact .settleCommit committing _ machine.values _ _ (.inr stops) (.inr ⟨rfl, rfl⟩)
    | false =>
      exact .settleCommit committing _ machine.values _ _ (.inr stops) (.inl ⟨rfl, rfl⟩)

theorem met {origin : Origin} (here : machine.phase self = origin.phase) :
    Effect machine self (machine.meetCorruption self origin) := by
  refine .move true ?_ (fun _ => rfl) ?_ fun _ => rfl
  · rw [here, origin.profile_phase]
  · rw [here]
    cases origin <;> rfl

theorem recovered {origin : Origin} (here : machine.phase self = .recovering origin)
    (free : machine.LockFree) : Effect machine self (machine.enterRecovery self origin) := by
  unfold LaneMachine.enterRecovery
  split
  next => exact .recover here free
  next =>
    refine .move machine.session.confirmedCorruptionPending ?_ origin.waitOver_phase ?_ id
    · rw [here, origin.profile_phase]
    · rw [here]
      cases origin <;> rfl

theorem closed (outside : (machine.phase self).profile = {}) (free : machine.LockFree) :
    Effect machine self (machine.enterClose self) := by
  unfold LaneMachine.enterClose
  split
  next opened => exact .beginClose false outside free opened
  next stopped => exact .beginClose true outside free stopped
  next =>
    exact .move machine.session.confirmedCorruptionPending outside.symm (fun _ => rfl)
      (congrArg Profile.excluding outside) id

theorem closeAligned {recovery : Bool} (sleeping : Thread → Bool) (draining :
      machine.phase self = .closing recovery ∨ machine.phase self = .closeWaiting recovery)
    (asleep : ∀ thread, sleeping thread = true →
      machine.sleeping thread = true ∧ machine.phase self = .closeWaiting recovery)
    (drained : machine.session.waitingWriters = 0) :
    Effect machine self
      (LaneMachine.closeAligned { machine with sleeping := sleeping } self recovery) := by
  unfold LaneMachine.closeAligned
  split
  next => exact .refuse sleeping draining asleep drained
  next childless => exact .align sleeping draining asleep drained (not_not.1 childless)

theorem resolved {recovery : Bool} (resolving : machine.phase self = .resolving recovery)
    (outcome : CloseOutcome) (values : OrderedKeyValues)
    (known : values = machine.values ∨ values = machine.durable)
    (mends : ¬ (recovery = true ∧ machine.session.recoveryCause = .confirmedCorruption)) :
    Effect machine self
      (LaneMachine.leaveClose { machine with values := values } self recovery outcome) := by
  cases outcome with
  | closed => exact .shutdown resolving values known
  | restored => exact .abort resolving _ values known (.inr (.inl rfl))
  | persistenceFailed =>
    exact .abort resolving _ values known (.inr (.inr ⟨mends, .closePersistenceFailed, nofun, rfl⟩))
  | corrupt =>
    exact .abort resolving _ values known (.inr (.inr ⟨mends, .confirmedCorruption, nofun, rfl⟩))
  | escaped => exact .abort resolving _ values known (.inl rfl)

end Effect

/-- The effects are all that a step can do. -/
theorem step_effect (machine : LaneMachine Thread) (self : Thread) (step : LaneStep) :
    Effect machine self (machine.step self step) := by
  have served : ∀ {ticket : Nat}, machine.session.state = .opened →
      (decide (machine.session.state ≠ .opened) || (!machine.session.writerActive &&
        ticket == machine.session.servingWriterTicket)) = true →
      machine.session.writerActive = false ∧ ticket = machine.session.servingWriterTicket := by
    intro ticket opened ready
    simpa [opened] using ready
  unfold LaneMachine.step
  split
  case h_1 idle =>
    split
    next may => exact .drawWriter idle may.1 may.2
    next => exact .nothing
  case h_2 idle =>
    split
    next may => exact .drawMaintenance idle may.1 may.2.1 may.2.2
    next => exact .nothing
  case h_3 constructs ticket queued =>
    split
    next ready =>
      split
      next stopped => exact .cancelWait queued stopped
      next notStopped =>
        have opened := not_not.1 notStopped
        obtain ⟨free, rfl⟩ := served opened ready
        split
        next => exact .admitWriter queued opened free
        next => exact .abandonWait queued opened free
    next early => exact .sleep (by rw [queued]; exact Bool.eq_false_iff.2 early)
  case h_4 ticket queued =>
    split
    next ready =>
      split
      next accepts =>
        obtain ⟨free, rfl⟩ := served accepts.2 ready
        exact .admitMaintenance queued accepts free
      next refused => exact .cancelMaintenance queued (by rw [queued]; exact ready) refused
    next early => exact .sleep (by rw [queued]; exact Bool.eq_false_iff.2 early)
  case h_5 idle =>
    split
    next may => exact .passWriter idle may.1 may.2.1 may.2.2.1 may.2.2.2.1
    next => exact .nothing
  case h_6 edit view writing =>
    split
    next accepts => exact .edit edit writing accepts
    next => exact .nothing
  case h_7 view writing =>
    split
    next => exact .nothing
    next accepts =>
      split
      next => exact .released true (congrArg LanePhase.profile writing) (fun _ => rfl) nofun
      next =>
        split
        next shared => exact .enterCommit writing shared (not_not.1 accepts)
        next => exact .nothing
  case h_8 outcome view committing => exact .persisted committing outcome
  case h_9 view writing =>
    exact .released true (congrArg LanePhase.profile writing) (fun _ => rfl) nofun
  case h_10 releasing =>
    exact .released true (congrArg LanePhase.profile releasing) (fun _ => rfl) nofun
  case h_11 idle =>
    split
    next accepts => exact .beginRead idle accepts
    next => exact .nothing
  case h_12 reading =>
    exact .released false (congrArg LanePhase.profile reading) nofun fun _ => reading
  case h_13 maintaining => exact .failMaintenance maintaining
  case h_14 maintaining =>
    split
    next => exact .leaveMaintenance maintaining
    next inactive => exact .dropMaintenance maintaining (Bool.eq_false_iff.2 inactive)
  case h_15 here => exact .met here
  case h_16 here => exact .met here
  case h_17 view here => exact .met here
  case h_18 origin recovering =>
    split
    next free => exact .recovered recovering free
    next => exact .nothing
  case h_19 idle =>
    split
    next free =>
      split
      next => exact .awaitRecovery idle
      next => exact .closed (congrArg LanePhase.profile idle) free
    next => exact .nothing
  case h_20 pending =>
    split
    next =>
      split
      next free => exact .closed (congrArg LanePhase.profile pending) free
      next => exact .nothing
    next early => exact .sleep (by rw [pending]; exact Bool.eq_false_iff.2 early)
  case h_21 recovery closing =>
    split
    next drained => exact .closeAligned (fun _ => false) (.inl closing) nofun drained
    next crowded => exact .drain closing crowded
  case h_22 recovery waits =>
    split
    next ready =>
      exact .closeAligned machine.sleeping (.inr waits) (fun _ asleep => ⟨asleep, waits⟩)
        (beq_iff_eq.1 ready)
    next early => exact .sleep (by rw [waits]; exact Bool.eq_false_iff.2 early)
  case h_23 outcome reselects recovery resolving =>
    split
    next => exact .shutdown resolving machine.values (.inl rfl)
    next mends =>
      split
      next => exact .resolved resolving outcome machine.durable (.inr rfl) mends
      next => exact .resolved resolving outcome machine.values (.inl rfl) mends
  case h_24 => exact .nothing

section Places

variable {place phase : LanePhase} {kind : Profile → Bool} {threads : Finset Thread}

theorem profile_update {α : Type} (view : Profile → α) :
    (fun thread => view (Function.update machine.phase self phase thread).profile) =
      Function.update (fun thread => view (machine.phase thread).profile) self
        (view phase.profile) :=
  funext fun thread =>
    Function.apply_update (fun _ phase => view phase.profile) machine.phase self phase thread

/-- What is read off a thread's place does not change when it goes to a place that reads the
same. -/
theorem comp_goTo {α : Type} (view : Profile → α) (here : machine.phase self = place)
    (same : view phase.profile = view place.profile) :
    (fun thread => view (Function.update machine.phase self phase thread).profile) =
      fun thread => view (machine.phase thread).profile := by
  rw [profile_update, same, ← here]
  exact Function.update_eq_self self _

omit [DecidableEq Thread] in
theorem profile_at {α : Type} (view : Profile → α) (here : machine.phase self = place) :
    view (machine.phase self).profile = view place.profile := by
  rw [here]

/-- The thread goes to a place of the same kind. -/
theorem stays {holds : Thread → Prop}
    (marks : ∀ thread, holds thread ↔ kind (machine.phase thread).profile = true)
    (here : machine.phase self = place) (same : kind phase.profile = kind place.profile)
    (thread : Thread) :
    holds thread ↔ kind (Function.update machine.phase self phase thread).profile = true := by
  rw [congrFun (comp_goTo kind here same) thread]
  exact marks thread

/-- The thread goes to a place of the kind. -/
theorem enters (marks : ∀ thread, thread ∈ threads ↔ kind (machine.phase thread).profile = true)
    (isKind : kind phase.profile = true) (thread : Thread) :
    thread ∈ insert self threads ↔
      kind (Function.update machine.phase self phase thread).profile = true := by
  rw [Finset.mem_insert, marks]
  by_cases here : thread = self
  · subst here
    rw [Function.update_self]
    exact iff_of_true (.inl rfl) isKind
  · rw [Function.update_of_ne here]
    exact or_iff_right here

/-- The thread goes to a place of another kind. -/
theorem leaves (marks : ∀ thread, thread ∈ threads ↔ kind (machine.phase thread).profile = true)
    (other : kind phase.profile = false) (thread : Thread) :
    thread ∈ threads.erase self ↔
      kind (Function.update machine.phase self phase thread).profile = true := by
  rw [Finset.mem_erase, marks]
  by_cases here : thread = self
  · subst here
    rw [Function.update_self, other]
    exact iff_of_false (fun both => both.1 rfl) Bool.false_ne_true
  · rw [Function.update_of_ne here]
    exact and_iff_right here

end Places

/-! ## The operation mutex -/

/-- `operationMutex` and `state` are as the places of the threads say. -/
structure Locks (machine : LaneMachine Thread) : Prop where
  sharing : ∀ thread,
    thread ∈ machine.sharedHolders ↔ (machine.phase thread).profile.sharing = true
  excluding : ∀ thread,
    machine.exclusiveHolder = some thread ↔ (machine.phase thread).profile.excluding = true
  held : machine.exclusiveHolder ≠ none → machine.session.state = .closing
  apart : machine.session.state.shut = true → machine.sharedHolders = ∅

namespace Locks

omit [DecidableEq Thread] in
theorem excluding_closing (locks : Locks machine)
    (excluding : (machine.phase self).profile.excluding = true) :
    machine.session.state = .closing :=
  locks.held (by rw [(locks.excluding self).2 excluding]; nofun)

omit [DecidableEq Thread] in
/-- Only one thread is in `close`. -/
theorem single (locks : Locks machine) {a b : Thread}
    (first : (machine.phase a).profile.excluding = true)
    (second : (machine.phase b).profile.excluding = true) : a = b :=
  Option.some.inj (((locks.excluding a).2 first).symm.trans ((locks.excluding b).2 second))

omit [DecidableEq Thread] in
/-- Nobody is in `close` while the lock is shared. -/
theorem sharing_free (locks : Locks machine) (shares : (machine.phase self).profile.sharing = true) :
    machine.exclusiveHolder = none ∧ machine.session.state.shut = false := by
  have open_ : machine.session.state.shut = false := by
    by_contra shut
    have member := (locks.sharing self).2 shares
    rw [locks.apart (Bool.not_eq_false _ ▸ shut)] at member
    exact Finset.notMem_empty self member
  refine ⟨?_, open_⟩
  by_contra held
  rw [locks.held held] at open_
  cases open_

omit [DecidableEq Thread] in
theorem not_excluding (locks : Locks machine) (free : machine.exclusiveHolder = none)
    (thread : Thread) : (machine.phase thread).profile.excluding = false := by
  by_contra excluding
  have held := (locks.excluding thread).2 (Bool.not_eq_false _ ▸ excluding)
  rw [free] at held
  cases held

/-- The thread takes the lock alone. -/
theorem exclude (locks : Locks machine) {phase : LanePhase} (free : machine.exclusiveHolder = none)
    (excludes : phase.profile.excluding = true) (thread : Thread) :
    some self = some thread ↔
      (Function.update machine.phase self phase thread).profile.excluding = true := by
  by_cases here : thread = self
  · subst here
    rw [Function.update_self]
    exact iff_of_true rfl excludes
  · rw [Function.update_of_ne here, locks.not_excluding free]
    exact iff_of_false (fun same => here (Option.some.inj same).symm) Bool.false_ne_true

/-- The thread gives up the lock that it has alone. -/
theorem release (locks : Locks machine)
    (before : (machine.phase self).profile.excluding = true)
    (phases : after.phase = Function.update machine.phase self .idle)
    (holders : after.sharedHolders = machine.sharedHolders)
    (holder : after.exclusiveHolder = none) : Locks after := by
  have closing := locks.excluding_closing before
  have nobody : machine.sharedHolders = ∅ := locks.apart (by rw [closing]; rfl)
  have apart : (machine.phase self).profile.sharing = false := by
    by_contra shares
    have open_ := (locks.sharing_free (Bool.not_eq_false _ ▸ shares)).2
    rw [closing] at open_
    cases open_
  constructor
  · rw [holders, phases]
    exact stays locks.sharing rfl apart.symm
  · intro thread
    rw [holder, phases]
    by_cases here : thread = self
    · rw [here, Function.update_self]
      exact iff_of_false nofun Bool.false_ne_true
    · rw [Function.update_of_ne here]
      exact iff_of_false nofun fun other => here (locks.single other before)
  · rw [holder]
    exact fun none => absurd rfl none
  · rw [holders]
    exact fun _ => nobody

end Locks

omit [DecidableEq Thread] in
/-- The places of `close` before the queue is empty. -/
theorem profile_of_draining {recovery : Bool} (draining :
      machine.phase self = .closing recovery ∨ machine.phase self = .closeWaiting recovery) :
    (machine.phase self).profile =
      { excluding := true, draining := true, reopens := !recovery } := by
  obtain here | here := draining <;> rw [here] <;> rfl

/-- Every effect keeps the locks. -/
theorem Effect.locks (effect : Effect machine self after) (locks : Locks machine) :
    Locks after := by
  have keeps : machine.session.state.shut = true → machine.sharedHolders.erase self = ∅ := by
    intro shut
    rw [locks.apart shut]
    rfl
  cases effect with
  | nothing => exact locks
  | sleep => exact ⟨locks.sharing, locks.excluding, locks.held, locks.apart⟩
  | move _ alike =>
    exact ⟨stays locks.sharing rfl (congrArg Profile.sharing alike),
      stays locks.excluding rfl (congrArg Profile.excluding alike), locks.held, locks.apart⟩
  | drawWriter here | cancelWait here | admitWriter here | abandonWait here | admitMaintenance here
  | passWriter here | edit _ here | beginRead here | leaveRead here | awaitRecovery here
  | drain here =>
    exact ⟨stays locks.sharing here rfl, stays locks.excluding here rfl, locks.held, locks.apart⟩
  | leaveWriter owns | forget owns =>
    exact ⟨stays locks.sharing rfl (congrArg Profile.sharing owns).symm,
      stays locks.excluding rfl (congrArg Profile.excluding owns).symm, locks.held, locks.apart⟩
  | drawMaintenance here shared accepts | enterCommit here shared accepts =>
    refine ⟨enters locks.sharing rfl, stays locks.excluding here rfl, locks.held, fun shut => ?_⟩
    change machine.session.state.shut = true at shut
    rw [accepts.2] at shut
    cases shut
  | cancelMaintenance here | leaveMaintenance here | dropMaintenance here | refuseCommit here =>
    exact ⟨leaves locks.sharing rfl, stays locks.excluding here rfl, locks.held, keeps⟩
  | settleCommit here session _ _ _ known =>
    refine ⟨leaves locks.sharing rfl, stays locks.excluding here rfl, fun held => ?_, ?_⟩
    · exact absurd (locks.sharing_free (profile_at Profile.sharing here)).1 held
    · obtain ⟨rfl, -⟩ | ⟨cause, -, rfl⟩ := known
      · exact keeps
      · nofun
  | failMaintenance here =>
    refine ⟨locks.sharing, locks.excluding, fun held => ?_, nofun⟩
    exact absurd (locks.sharing_free (profile_at Profile.sharing here)).1 held
  | @recover origin here free =>
    have alike := origin.profile_phase
    exact ⟨stays locks.sharing here (congrArg Profile.sharing alike),
      stays locks.excluding here (congrArg Profile.excluding alike),
      fun held => absurd free.1 held, nofun⟩
  | beginClose recovery outside free =>
    exact ⟨stays locks.sharing rfl (congrArg Profile.sharing outside).symm,
      locks.exclude free.1 rfl, fun _ => rfl, fun _ => free.2⟩
  | refuse sleeping draining =>
    exact locks.release (congrArg Profile.excluding (profile_of_draining draining)) rfl rfl rfl
  | align sleeping draining =>
    have alike := profile_of_draining draining
    exact ⟨stays locks.sharing rfl (congrArg Profile.sharing alike).symm,
      stays locks.excluding rfl (congrArg Profile.excluding alike).symm, locks.held, locks.apart⟩
  | abort here | shutdown here =>
    exact locks.release (profile_at Profile.excluding here) rfl rfl rfl

end LaneMachine

end Miare
