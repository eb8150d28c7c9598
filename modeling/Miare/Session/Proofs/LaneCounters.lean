import Miare.Session.Proofs.Lane

/-!
# The counters of the writer lane

The cause of a recovery, `liveTransactions` and the flags of the lane are, in every run, as the
places of the threads say.
-/

namespace Miare.LaneMachine

open Misc

variable {Thread : Type} {machine after : LaneMachine Thread} {self : Thread}
  {live : Finset Thread} {place phase : LanePhase}

/-- Nobody empties the queue when nobody did before. -/
theorem settled_before [DecidableEq Thread]
    (settled : ∀ thread, (Function.update machine.phase self phase thread).profile.draining = false)
    (here : machine.phase self = place)
    (before : phase.profile.draining = false → place.profile.draining = false) (thread : Thread) :
    (machine.phase thread).profile.draining = false := by
  have there := settled thread
  by_cases mine : thread = self
  · rw [mine, Function.update_self] at there
    rw [mine, here]
    exact before there
  · rwa [Function.update_of_ne mine] at there

/-- What a thread has now it has from this step or had before. -/
theorem profile_before [DecidableEq Thread] {kind : Profile → Bool} {thread : Thread}
    (has : kind (Function.update machine.phase self phase thread).profile = true) :
    (thread = self ∧ kind phase.profile = true) ∨ kind (machine.phase thread).profile = true := by
  by_cases mine : thread = self
  · rw [mine, Function.update_self] at has
    exact .inl ⟨mine, has⟩
  · rw [Function.update_of_ne mine] at has
    exact .inr has

theorem LanePhase.excluding_of_draining {phase : LanePhase}
    (draining : phase.profile.draining = true) : phase.profile.excluding = true := by
  obtain _ | _ | _ | _ | _ | _ | _ | _ | (_ | _ | _) | _ | _ | _ | _ := phase <;>
    first | rfl | cases draining

theorem LanePhase.excluding_of_reopens {phase : LanePhase}
    (reopens : phase.profile.reopens = true) : phase.profile.excluding = true := by
  obtain _ | _ | _ | _ | _ | _ | _ | _ | (_ | _ | _) | _ | _ | _ | _ := phase <;>
    first | rfl | cases reopens

theorem Locks.settled (locks : Locks machine) (free : machine.exclusiveHolder = none)
    (thread : Thread) : (machine.phase thread).profile.draining = false := by
  by_contra draining
  have excluding := LanePhase.excluding_of_draining (Bool.not_eq_false _ ▸ draining)
  rw [locks.not_excluding free] at excluding
  cases excluding

/-- Once the queue is empty, the thread in `close` is the only one there. -/
theorem Locks.resolving_settled {recovery : Bool} (locks : Locks machine)
    (resolving : machine.phase self = .resolving recovery) (thread : Thread) :
    (machine.phase thread).profile.draining = false := by
  by_contra draining
  have excluding := LanePhase.excluding_of_draining (Bool.not_eq_false _ ▸ draining)
  rw [locks.single excluding (profile_at Profile.excluding resolving), resolving] at draining
  exact draining rfl

theorem Locks.resolving_shut {recovery : Bool} (locks : Locks machine)
    (resolving : machine.phase self = .resolving recovery) :
    machine.session.state.shut = true := by
  rw [locks.excluding_closing (profile_at Profile.excluding resolving)]
  rfl

theorem expectedState_open (recovery : Bool) : (expectedState recovery).shut ≠ true := by
  cases recovery <;> nofun

/-! ## The cause of a recovery -/

/-- `recoveryCause` and `invalidated` are as `state` and the places of the threads say. -/
structure Causes (machine : LaneMachine Thread) : Prop where
  opened : machine.session.state = .opened →
    machine.session.recoveryCause = .none ∧ machine.session.invalidated = false
  reopens : ∀ thread, (machine.phase thread).profile.reopens = true →
    machine.session.recoveryCause = .none ∧ machine.session.invalidated = false
  closed : machine.session.state = .closed → machine.session.invalidated = true
  unshared : machine.session.invalidated = true → machine.sharedHolders = ∅
  stale : machine.session.invalidated = true →
    ∀ thread, (machine.phase thread).profile.live = true →
      machine.session.recoveryCause = .confirmedCorruption

namespace Causes

/-- Nothing went wrong yet. -/
theorem of_calm (calm : after.session.recoveryCause = .none ∧ after.session.invalidated = false)
    (notClosed : after.session.state ≠ .closed) : Causes after where
  opened := fun _ => calm
  reopens := fun _ _ => calm
  closed := fun closed => absurd closed notClosed
  unshared := fun gone => absurd (gone.symm.trans calm.2) nofun
  stale := fun gone => absurd (gone.symm.trans calm.2) nofun

theorem of_opened (causes : Causes machine) (opened : machine.session.state = .opened)
    (state : after.session.state = machine.session.state)
    (cause : after.session.recoveryCause = machine.session.recoveryCause)
    (gone : after.session.invalidated = machine.session.invalidated) : Causes after :=
  of_calm (by rw [cause, gone]; exact causes.opened opened) (by rw [state, opened]; nofun)

/-- A session is stopped when nobody is in `close`. -/
theorem of_stopped (locks : Locks after) (free : after.exclusiveHolder = none)
    (state : after.session.state ≠ .opened)
    (closed : after.session.state = .closed → after.session.invalidated = true)
    (unshared : after.session.invalidated = true → after.sharedHolders = ∅)
    (stale : after.session.invalidated = true →
      ∀ thread, (after.phase thread).profile.live = true →
        after.session.recoveryCause = .confirmedCorruption) : Causes after where
  opened := fun opened => absurd opened state
  reopens := fun thread reopens => by
    have excluding := LanePhase.excluding_of_reopens reopens
    rw [locks.not_excluding free] at excluding
    cases excluding
  closed := closed
  unshared := unshared
  stale := stale

theorem reopened (causes : Causes machine) {recovery : Bool}
    (reopens : (machine.phase self).profile.reopens = !recovery)
    (opened : expectedState recovery = .opened) :
    machine.session.recoveryCause = .none ∧ machine.session.invalidated = false := by
  cases recovery with
  | true => cases opened
  | false => exact causes.reopens self reopens

theorem alive_of_sharing (causes : Causes machine) (locks : Locks machine)
    (shares : (machine.phase self).profile.sharing = true) : machine.session.invalidated = false := by
  by_contra gone
  have member := (locks.sharing self).2 shares
  rw [causes.unshared (Bool.not_eq_false _ ▸ gone)] at member
  exact Finset.notMem_empty self member

/-- The thread goes on and begins neither a transaction nor a `close`. -/
theorem keep [DecidableEq Thread] (causes : Causes machine)
    (phases : after.phase = Function.update machine.phase self phase)
    (reopens : phase.profile.reopens = true → (machine.phase self).profile.reopens = true)
    (live : phase.profile.live = true → (machine.phase self).profile.live = true)
    (holders : after.sharedHolders ⊆ machine.sharedHolders)
    (cause : after.session.recoveryCause = machine.session.recoveryCause)
    (gone : after.session.invalidated = machine.session.invalidated)
    (opened : after.session.state = .opened →
      machine.session.recoveryCause = .none ∧ machine.session.invalidated = false)
    (closed : after.session.state = .closed → machine.session.invalidated = true) :
    Causes after := by
  have before : ∀ (kind : Profile → Bool) thread,
      (kind phase.profile = true → kind (machine.phase self).profile = true) →
      kind (after.phase thread).profile = true → kind (machine.phase thread).profile = true := by
    intro kind thread mine has
    rw [phases] at has
    obtain ⟨rfl, now⟩ | before := profile_before has
    · exact mine now
    · exact before
  constructor
  · rw [cause, gone]
    exact opened
  · rw [cause, gone]
    exact fun thread has => causes.reopens thread (before Profile.reopens thread reopens has)
  · rw [gone]
    exact closed
  · rw [gone]
    intro isGone
    rw [causes.unshared isGone] at holders
    exact Finset.subset_empty.1 holders
  · rw [gone, cause]
    exact fun isGone thread has => causes.stale isGone thread (before Profile.live thread live has)

end Causes

/-! ## Live transactions -/

/-- A transaction of the session that was not invalidated. -/
def owns (machine : LaneMachine Thread) (profile : Profile) : Bool :=
  !machine.session.invalidated && profile.live

theorem owns_of_gone (gone : machine.session.invalidated = true) (profile : Profile) :
    machine.owns profile = false := by
  rw [owns, gone]
  rfl

/-- `liveTransactions` counts the threads that own a transaction. -/
structure Children (machine : LaneMachine Thread) (live : Finset Thread) : Prop where
  members : ∀ thread, thread ∈ live ↔ machine.owns (machine.phase thread).profile = true
  count : machine.session.liveTransactions = live.card
  quiet : machine.session.state.shut = true →
    (∀ thread, (machine.phase thread).profile.draining = false) → live = ∅

namespace Children

/-- No transaction counts any more. -/
theorem of_gone (gone : after.session.invalidated = true)
    (none : after.session.liveTransactions = 0) : Children after ∅ := by
  refine ⟨fun thread => iff_of_false (Finset.notMem_empty _) ?_, none, fun _ _ => rfl⟩
  rw [owns_of_gone gone]
  exact Bool.false_ne_true

theorem keep [DecidableEq Thread] (children : Children machine live)
    (here : machine.phase self = place)
    (phases : after.phase = Function.update machine.phase self phase)
    (gone : after.session.invalidated = machine.session.invalidated)
    (same : phase.profile.live = place.profile.live)
    (count : after.session.liveTransactions = machine.session.liveTransactions)
    (quiet : after.session.state.shut = true → phase.profile.draining = false →
      machine.session.state.shut = true ∧ place.profile.draining = false) :
    Children after live := by
  have alike : after.owns = machine.owns := by
    funext profile
    rw [owns, owns, gone]
  constructor
  · rw [alike, phases]
    exact stays children.members here (congrArg (!machine.session.invalidated && ·) same)
  · rw [count]
    exact children.count
  · intro shut settled
    have mine : (after.phase self).profile.draining = false := settled self
    rw [phases, Function.update_self] at mine
    rw [phases] at settled
    exact children.quiet (quiet shut mine).1 (settled_before settled here fun _ => (quiet shut mine).2)

theorem begin [DecidableEq Thread] (children : Children machine live)
    (here : machine.phase self = .idle ∨ ∃ ticket, machine.phase self = .queued ticket)
    (alive : machine.session.invalidated = false)
    (phases : after.phase = Function.update machine.phase self phase)
    (gone : after.session.invalidated = machine.session.invalidated)
    (owns_ : phase.profile.live = true)
    (count : after.session.liveTransactions = machine.session.liveTransactions + 1)
    (opened : after.session.state = .opened) : Children after (insert self live) := by
  have alike : after.owns = machine.owns := by
    funext profile
    rw [owns, owns, gone]
  have fresh : self ∉ live := by
    rw [children.members]
    obtain here | ⟨ticket, here⟩ := here <;> rw [here, owns, alive] <;> exact Bool.false_ne_true
  constructor
  · rw [alike, phases]
    exact enters children.members (by rw [owns, alive, owns_]; rfl)
  · rw [count, children.count, Finset.card_insert_of_notMem fresh]
  · rw [opened]
    nofun

theorem finish [DecidableEq Thread] (children : Children machine live)
    (owned : (machine.phase self).profile.live = true)
    (outside : (machine.phase self).profile.draining = false)
    (alive : machine.session.invalidated = false)
    (phases : after.phase = Function.update machine.phase self .idle)
    (gone : after.session.invalidated = machine.session.invalidated)
    (count : after.session.liveTransactions = machine.session.liveTransactions - 1)
    (state : after.session.state = machine.session.state) : Children after (live.erase self) := by
  have alike : after.owns = machine.owns := by
    funext profile
    rw [owns, owns, gone]
  have member : self ∈ live := by
    rw [children.members, owns, alive, owned]
    rfl
  constructor
  · rw [alike, phases]
    exact leaves children.members (Bool.and_false _)
  · rw [count, children.count, Finset.card_erase_of_mem member]
  · rw [state]
    intro shut settled
    rw [phases] at settled
    rw [children.quiet shut (settled_before settled rfl fun _ => outside)]
    rfl

end Children

/-- Every effect keeps the count of the transactions. -/
theorem Effect.children [DecidableEq Thread] (effect : Effect machine self after)
    (locks : Locks machine) (causes : Causes machine) (children : Children machine live) :
    ∃ live, Children after live := by
  cases effect with
  | nothing => exact ⟨live, children⟩
  | sleep => exact ⟨live, children.members, children.count, children.quiet⟩
  | move _ alike =>
    exact ⟨live, children.keep rfl rfl rfl (congrArg Profile.live alike) rfl fun shut not =>
      ⟨shut, (congrArg Profile.draining alike).symm.trans not⟩⟩
  | drawWriter here | drawMaintenance here | cancelWait here | abandonWait here
  | admitMaintenance here | cancelMaintenance here | edit _ here | enterCommit here
  | refuseCommit here | leaveMaintenance here | dropMaintenance here | awaitRecovery here
  | drain here =>
    exact ⟨live, children.keep here rfl rfl rfl rfl fun shut not => ⟨shut, not⟩⟩
  | admitWriter here opened =>
    exact ⟨_, children.begin (.inr ⟨_, here⟩) (causes.opened opened).2 rfl rfl rfl rfl opened⟩
  | passWriter here accepts | beginRead here accepts =>
    exact ⟨_, children.begin (.inl here) (causes.opened accepts.2).2 rfl rfl rfl rfl accepts.2⟩
  | settleCommit here session _ _ _ known =>
    obtain ⟨rfl, -⟩ | ⟨cause, -, rfl⟩ := known
    · exact ⟨live, children.keep here rfl rfl rfl rfl fun shut not => ⟨shut, not⟩⟩
    · exact ⟨live, children.keep here rfl rfl rfl rfl nofun⟩
  | leaveWriter owns alive =>
    exact ⟨_, children.finish (congrArg Profile.live owns) (congrArg Profile.draining owns) alive
      rfl rfl rfl rfl⟩
  | leaveRead here alive =>
    exact ⟨_, children.finish (profile_at Profile.live here) (profile_at Profile.draining here)
      alive rfl rfl rfl rfl⟩
  | forget owned gone =>
    refine ⟨live, stays children.members rfl ?_, children.count, fun shut settled =>
      children.quiet shut (settled_before settled rfl fun _ => congrArg Profile.draining owned)⟩
    exact (owns_of_gone gone _).trans (owns_of_gone gone _).symm
  | failMaintenance => exact ⟨live, children.members, children.count, nofun⟩
  | recover => exact ⟨∅, .of_gone rfl rfl⟩
  | beginClose recovery outside =>
    exact ⟨live, children.keep rfl rfl rfl (congrArg Profile.live outside).symm rfl nofun⟩
  | @refuse recovery sleeping draining =>
    exact ⟨live, children.keep rfl rfl rfl
      (congrArg Profile.live (profile_of_draining draining)).symm rfl fun shut =>
        absurd shut (expectedState_open recovery)⟩
  | align sleeping draining asleep drained childless =>
    refine ⟨live, stays children.members rfl ?_, children.count, fun _ _ => ?_⟩
    · exact congrArg (!machine.session.invalidated && ·)
        (congrArg Profile.live (profile_of_draining draining)).symm
    · rw [← Finset.card_eq_zero, ← children.count, childless]
  | abort here session values _ ends =>
    have same : session.liveTransactions = machine.session.liveTransactions ∧
        session.invalidated = machine.session.invalidated := by
      obtain rfl | rfl | ⟨-, cause, -, rfl⟩ := ends <;> exact ⟨rfl, rfl⟩
    exact ⟨live, children.keep here rfl same.2 rfl same.1 fun _ not =>
      ⟨locks.resolving_shut here, not⟩⟩
  | shutdown here => exact ⟨∅, .of_gone rfl rfl⟩

/-- Every effect keeps the cause. -/
theorem Effect.causes [DecidableEq Thread] (effect : Effect machine self after)
    (locks : Locks machine) (children : Children machine live) (causes : Causes machine) :
    Causes after := by
  have locksAfter := effect.locks locks
  cases effect with
  | nothing => exact causes
  | sleep => exact ⟨causes.opened, causes.reopens, causes.closed, causes.unshared, causes.stale⟩
  | move _ alike =>
    exact causes.keep rfl (congrArg Profile.reopens alike).symm.trans
      (congrArg Profile.live alike).symm.trans subset_rfl rfl rfl causes.opened causes.closed
  | drawWriter _ accepts | drawMaintenance _ _ accepts | admitMaintenance _ accepts
  | passWriter _ accepts | edit _ _ accepts | enterCommit _ _ accepts | beginRead _ accepts =>
    exact causes.of_opened accepts.2 rfl rfl rfl
  | admitWriter _ opened | abandonWait _ opened => exact causes.of_opened opened rfl rfl rfl
  | cancelWait | leaveWriter | leaveRead | forget | awaitRecovery =>
    exact causes.keep rfl nofun nofun subset_rfl rfl rfl causes.opened causes.closed
  | cancelMaintenance | leaveMaintenance | dropMaintenance =>
    exact causes.keep rfl nofun nofun (Finset.erase_subset _ _) rfl rfl causes.opened causes.closed
  | refuseCommit here =>
    exact causes.keep rfl nofun (fun _ => profile_at Profile.live here) (Finset.erase_subset _ _)
      rfl rfl causes.opened causes.closed
  | settleCommit here session _ _ _ known =>
    have shares := profile_at Profile.sharing here
    have alive := causes.alive_of_sharing locks shares
    obtain ⟨rfl, -⟩ | ⟨cause, -, rfl⟩ := known
    · exact causes.keep rfl nofun (fun _ => profile_at Profile.live here) (Finset.erase_subset _ _)
        rfl rfl causes.opened causes.closed
    · exact .of_stopped locksAfter (locks.sharing_free shares).1 nofun nofun
        (fun gone => nomatch alive.symm.trans gone) (fun gone => nomatch alive.symm.trans gone)
  | failMaintenance here =>
    have shares := profile_at Profile.sharing here
    have alive := causes.alive_of_sharing locks shares
    exact .of_stopped locksAfter (locks.sharing_free shares).1 nofun nofun
      (fun gone => nomatch alive.symm.trans gone) (fun gone => nomatch alive.symm.trans gone)
  | recover here free =>
    exact .of_stopped locksAfter free.1 nofun nofun (fun _ => free.2) (fun _ _ _ => rfl)
  | beginClose recovery outside free expected =>
    cases recovery with
    | false => exact .of_calm (causes.opened expected) nofun
    | true => exact causes.keep rfl nofun nofun subset_rfl rfl rfl nofun nofun
  | drain here =>
    exact causes.keep rfl (profile_at Profile.reopens here).trans nofun subset_rfl rfl rfl
      causes.opened causes.closed
  | @refuse recovery sleeping draining =>
    refine causes.keep rfl nofun nofun subset_rfl rfl rfl
      (causes.reopened (congrArg Profile.reopens (profile_of_draining draining))) ?_
    cases recovery <;> nofun
  | align sleeping draining =>
    exact causes.keep rfl (congrArg Profile.reopens (profile_of_draining draining)).trans nofun
      subset_rfl rfl rfl causes.opened causes.closed
  | @abort recovery here session values _ ends =>
    have reopens := profile_at Profile.reopens here
    obtain rfl | rfl | ⟨mends, cause, -, rfl⟩ := ends
    · exact causes.keep rfl nofun nofun subset_rfl rfl rfl causes.opened causes.closed
    · refine causes.keep rfl nofun nofun subset_rfl rfl rfl (causes.reopened reopens) ?_
      cases recovery <;> nofun
    · -- a session that was invalidated is not resolved
      refine .of_stopped locksAfter rfl nofun nofun causes.unshared fun gone thread owned => ?_
      have owned := (profile_before owned).resolve_left fun mine => nomatch mine.2
      cases recovery with
      | true => exact absurd ⟨rfl, causes.stale gone thread owned⟩ mends
      | false => exact absurd ((causes.reopens self reopens).2.symm.trans gone) nofun
  | shutdown here =>
    refine .of_stopped locksAfter rfl nofun (fun _ => rfl)
      (fun _ => locks.apart (locks.resolving_shut here)) fun _ thread owned => ?_
    have owned := (profile_before owned).resolve_left fun mine => nomatch mine.2
    by_cases gone : machine.session.invalidated = true
    · exact causes.stale gone thread owned
    · have member := (children.members thread).2 (by
        rw [owns, Bool.eq_false_iff.2 gone, owned]
        rfl)
      rw [children.quiet (locks.resolving_shut here) (locks.resolving_settled here)] at member
      exact absurd member (Finset.notMem_empty thread)

/-! ## The occupant of the lane -/

/-- The lane, for a transaction that was not invalidated or a maintenance operation. -/
def occupies (machine : LaneMachine Thread) (profile : Profile) : Bool :=
  !machine.session.invalidated && profile.inLane

/-- The flags of the lane are as the places of the threads say. -/
structure Occupant (machine : LaneMachine Thread) : Prop where
  lane : LaneOccupied (fun thread => machine.occupies (machine.phase thread).profile)
    machine.session.writerActive
  maintenance : LaneOccupied (fun thread => (machine.phase thread).profile.maintains)
    machine.session.maintenanceActive

section Occupied

variable {kind : Profile → Bool} {active : Bool}

section OccupiedShared

variable (occupied : LaneOccupied (fun thread => kind (machine.phase thread).profile) active)

include occupied

theorem occupied_stay [DecidableEq Thread] (here : machine.phase self = place)
    (same : kind phase.profile = kind place.profile) :
    LaneOccupied (fun thread => kind (Function.update machine.phase self phase thread).profile)
      active := by
  rw [comp_goTo kind here same]
  exact occupied

theorem occupied_enter [DecidableEq Thread] (free : active = false)
    (inside : kind phase.profile = true) :
    LaneOccupied (fun thread => kind (Function.update machine.phase self phase thread).profile)
      true := by
  rw [free] at occupied
  rw [profile_update, inside]
  exact occupied.enter self

theorem occupied_leave [DecidableEq Thread] (inside : kind (machine.phase self).profile = true)
    (outside : kind phase.profile = false) :
    LaneOccupied (fun thread => kind (Function.update machine.phase self phase thread).profile)
      false := by
  rw [profile_update, outside]
  exact occupied.leave inside

end OccupiedShared

end Occupied

theorem occupies_of (alive : machine.session.invalidated = false) {profile : Profile}
    (inside : profile.inLane = true) : machine.occupies profile = true := by
  rw [occupies, alive, inside]
  rfl

theorem occupies_of_gone (gone : machine.session.invalidated = true) (profile : Profile) :
    machine.occupies profile = false := by
  rw [occupies, gone]
  rfl

theorem LanePhase.sharing_of_maintains {phase : LanePhase}
    (maintains : phase.profile.maintains = true) :
    phase.profile.sharing = true ∧ phase.profile.inLane = true := by
  obtain _ | _ | _ | _ | _ | _ | _ | _ | (_ | _ | _) | _ | _ | _ | _ := phase <;>
    first | exact ⟨rfl, rfl⟩ | cases maintains

theorem LanePhase.inLane_of_view {phase : LanePhase} {view : WriterView}
    (has : phase.profile.view = some view) : phase.profile.inLane = true := by
  obtain _ | _ | _ | _ | _ | _ | _ | _ | (_ | _ | _) | _ | _ | _ | _ := phase <;>
    first | rfl | cases has

namespace Occupant

theorem held (occupant : Occupant machine) (alive : machine.session.invalidated = false)
    (inside : (machine.phase self).profile.inLane = true) : machine.session.writerActive = true :=
  occupant.lane.active_iff.2 ⟨self, occupies_of alive inside⟩

theorem free_maintenance (occupant : Occupant machine) (locks : Locks machine)
    (causes : Causes machine) (free : machine.session.writerActive = false) :
    machine.session.maintenanceActive = false := by
  by_contra active
  obtain ⟨thread, maintains⟩ := occupant.maintenance.active_iff.1 (Bool.not_eq_false _ ▸ active)
  obtain ⟨shares, inside⟩ := LanePhase.sharing_of_maintains maintains
  have held := occupant.held (causes.alive_of_sharing locks shares) inside
  rw [free] at held
  cases held

/-- Without live children nobody is in the lane of a session that closes. -/
theorem resolving_free (occupant : Occupant machine) (locks : Locks machine)
    (children : Children machine live) {recovery : Bool}
    (resolving : machine.phase self = .resolving recovery) :
    machine.session.writerActive = false := by
  have shut := locks.resolving_shut resolving
  by_contra active
  obtain ⟨thread, inside⟩ := occupant.lane.active_iff.1 (Bool.not_eq_false _ ▸ active)
  obtain ⟨alive, inLane⟩ := (Bool.and_eq_true _ _).mp inside
  have none := children.quiet shut (locks.resolving_settled resolving)
  have away := (children.members thread).not.1 (by rw [none]; exact Finset.notMem_empty thread)
  have apart := (locks.sharing thread).not.1
    (by rw [locks.apart shut]; exact Finset.notMem_empty thread)
  rw [owns, alive, Bool.true_and] at away
  revert inLane away apart
  obtain _ | _ | _ | _ | _ | _ | _ | _ | (_ | _ | _) | _ | _ | _ | _ := machine.phase thread <;>
    simp [LanePhase.profile]

end Occupant

/-- Every effect keeps the lane. -/
theorem Effect.occupant [DecidableEq Thread] (effect : Effect machine self after)
    (locks : Locks machine) (causes : Causes machine) (occupant : Occupant machine) : Occupant after := by
  cases effect with
  | nothing => exact occupant
  | sleep | failMaintenance => exact ⟨occupant.lane, occupant.maintenance⟩
  | move _ alike =>
    exact ⟨occupied_stay occupant.lane rfl (congrArg machine.occupies alike),
      occupied_stay occupant.maintenance rfl (congrArg Profile.maintains alike)⟩
  | drawWriter here | drawMaintenance here | cancelWait here | abandonWait here
  | cancelMaintenance here | edit _ here | enterCommit here | refuseCommit here | beginRead here
  | leaveRead here | awaitRecovery here | drain here =>
    exact ⟨occupied_stay occupant.lane here rfl, occupied_stay occupant.maintenance here rfl⟩
  | settleCommit here session _ _ _ known =>
    obtain ⟨rfl, -⟩ | ⟨cause, -, rfl⟩ := known <;>
      exact ⟨occupied_stay occupant.lane here rfl, occupied_stay occupant.maintenance here rfl⟩
  | admitWriter here opened free =>
    exact ⟨occupied_enter occupant.lane free (occupies_of (causes.opened opened).2 rfl),
      occupied_stay occupant.maintenance here rfl⟩
  | passWriter here accepts free =>
    exact ⟨occupied_enter occupant.lane free (occupies_of (causes.opened accepts.2).2 rfl),
      occupied_stay occupant.maintenance here rfl⟩
  | admitMaintenance here accepts free =>
    exact ⟨occupied_enter occupant.lane free (occupies_of (causes.opened accepts.2).2 rfl),
      occupied_enter occupant.maintenance (occupant.free_maintenance locks causes free) rfl⟩
  | leaveWriter owns alive =>
    exact ⟨occupied_leave occupant.lane (occupies_of alive (congrArg Profile.inLane owns))
      (Bool.and_false _), occupied_stay occupant.maintenance rfl (congrArg Profile.maintains owns).symm⟩
  | forget owned gone =>
    refine ⟨occupied_stay occupant.lane rfl ?_,
      occupied_stay occupant.maintenance rfl (congrArg Profile.maintains owned).symm⟩
    exact (occupies_of_gone gone _).trans (occupies_of_gone gone _).symm
  | leaveMaintenance here =>
    have alive := causes.alive_of_sharing locks (profile_at Profile.sharing here)
    exact ⟨occupied_leave occupant.lane (occupies_of alive (profile_at Profile.inLane here))
      (Bool.and_false _), occupied_leave occupant.maintenance (profile_at Profile.maintains here) rfl⟩
  | dropMaintenance here inactive =>
    -- the flag is set while the thread is there
    have active := occupant.maintenance.active_iff.2 ⟨self, profile_at Profile.maintains here⟩
    rw [inactive] at active
    cases active
  | @recover origin here =>
    exact ⟨.nobody fun _ => rfl,
      occupied_stay occupant.maintenance here (congrArg Profile.maintains origin.profile_phase)⟩
  | beginClose recovery outside =>
    exact ⟨occupied_stay occupant.lane rfl (congrArg machine.occupies outside).symm,
      occupied_stay occupant.maintenance rfl (congrArg Profile.maintains outside).symm⟩
  | refuse sleeping draining | align sleeping draining =>
    have alike := profile_of_draining draining
    exact ⟨occupied_stay occupant.lane rfl (congrArg machine.occupies alike).symm,
      occupied_stay occupant.maintenance rfl (congrArg Profile.maintains alike).symm⟩
  | abort here session values _ ends =>
    obtain rfl | rfl | ⟨-, cause, -, rfl⟩ := ends <;>
      exact ⟨occupied_stay occupant.lane here rfl, occupied_stay occupant.maintenance here rfl⟩
  | shutdown here =>
    refine ⟨.nobody fun _ => rfl, .nobody fun thread => Bool.eq_false_iff.2 fun maintains => ?_⟩
    have maintains := (profile_before maintains).resolve_left fun mine => nomatch mine.2
    have member := (locks.sharing thread).2 (LanePhase.sharing_of_maintains maintains).1
    rw [locks.apart (locks.resolving_shut here)] at member
    exact absurd member (Finset.notMem_empty thread)

end Miare.LaneMachine
