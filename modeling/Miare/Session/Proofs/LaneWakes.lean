import Miare.Session.Proofs.LaneQueue

/-!
# Wake-ups of the writer lane

A thread that sleeps although its wait is over is, in every run, about to be notified.
-/

namespace Miare.LaneMachine

open Misc

variable {Thread : Type} [DecidableEq Thread] {machine after : LaneMachine Thread} {self : Thread}
  {waiting : Finset Nat} {phase : LanePhase}

/-- A thread is about to notify all others: it leaves the lane of a stopped session, or it is in
`close`. -/
def Notifies (machine : LaneMachine Thread) : Prop :=
  (machine.session.state = .recoveryRequired ∧ machine.session.writerActive = true) ∨
    ∃ closer recovery, machine.phase closer = .closing recovery

/-- Nobody sleeps whose wait is over and who is not about to be notified. -/
def Wakeful (machine : LaneMachine Thread) : Prop :=
  ∀ thread, machine.sleeping thread = true →
    (machine.phase thread).waitOver machine.session = true → machine.Notifies

/-- Who waits in an open session waits for its ticket to be served. -/
theorem waitOver_of_opened {session : Session} (opened : session.state = .opened)
    (ready : phase.waitOver session = true) : phase.profile.excluding = true ∨
      (session.writerActive = false ∧ phase.profile.ticket = some session.servingWriterTicket) := by
  cases phase with
  | queued ticket | maintenanceQueued ticket =>
    simp only [LanePhase.waitOver, opened, ne_eq, not_true_eq_false, decide_false, Bool.false_or,
      Bool.and_eq_true, Bool.not_eq_true', beq_iff_eq] at ready
    exact .inr ⟨ready.1, congrArg some ready.2⟩
  | closePending => simp [LanePhase.waitOver, opened] at ready
  | closeWaiting => exact .inl rfl
  | _ => cases ready

/-- The wait of the served ticket is over when the lane is free. -/
theorem waitOver_of_served {session : Session} (free : session.writerActive = false)
    (serves : phase.profile.ticket = some session.servingWriterTicket) :
    phase.waitOver session = true := by
  obtain _ | _ | _ | _ | _ | _ | _ | _ | (_ | _ | _) | _ | _ | _ | _ := phase <;>
    cases serves <;> simp [LanePhase.waitOver, free]

namespace Wakeful

omit [DecidableEq Thread] in
/-- Everybody was notified. -/
theorem of_awake (awake : after.sleeping = fun _ => false) : Wakeful after := by
  intro thread asleep
  rw [awake] at asleep
  cases asleep

omit [DecidableEq Thread] in
/-- In an open session nobody sleeps whose wait is over. -/
theorem awake (wakeful : Wakeful machine) (locks : Locks machine)
    (opened : machine.session.state = .opened) {thread : Thread}
    (ready : (machine.phase thread).waitOver machine.session = true) :
    machine.sleeping thread = false := by
  by_contra asleep
  obtain ⟨stopped, -⟩ | ⟨closer, recovery, here⟩ :=
    wakeful thread (Bool.not_eq_false _ ▸ asleep) ready
  · rw [opened] at stopped
    cases stopped
  · have closing := locks.excluding_closing (profile_at Profile.excluding here)
    rw [opened] at closing
    cases closing

omit [DecidableEq Thread] in
/-- While the session is open only the queue matters. -/
theorem of_opened (locks : Locks after) (opened : after.session.state = .opened)
    (head : after.session.writerActive = false → ∀ thread,
      (after.phase thread).profile.ticket = some after.session.servingWriterTicket →
        after.sleeping thread = false) : Wakeful after := by
  intro thread asleep ready
  obtain excluding | ⟨free, serves⟩ := waitOver_of_opened opened ready
  · have closing := locks.excluding_closing excluding
    rw [opened] at closing
    cases closing
  · rw [head free thread serves] at asleep
    cases asleep

/-- The thread goes on and nobody's turn comes. -/
theorem keep (wakeful : Wakeful machine)
    (outside : (machine.phase self).profile.excluding = false)
    (phases : after.phase = Function.update machine.phase self phase)
    (mine : after.sleeping self = true → phase.waitOver after.session = false)
    (asleep : ∀ thread ≠ self, after.sleeping thread = true → machine.sleeping thread = true)
    (others : ∀ thread, (machine.phase thread).waitOver after.session = true →
      (machine.phase thread).waitOver machine.session = true)
    (state : after.session.state = machine.session.state)
    (active : after.session.writerActive = machine.session.writerActive) : Wakeful after := by
  intro thread sleeps ready
  rw [phases] at ready
  by_cases same : thread = self
  · rw [same] at sleeps
    rw [same, Function.update_self, mine sleeps] at ready
    cases ready
  · rw [Function.update_of_ne same] at ready
    obtain stopped | ⟨closer, recovery, here⟩ :=
      wakeful thread (asleep thread same sleeps) (others thread ready)
    · rw [← state, ← active] at stopped
      exact .inl stopped
    · refine .inr ⟨closer, recovery, ?_⟩
      rw [phases, Function.update_of_ne, here]
      rintro rfl
      rw [here] at outside
      cases outside

/-- A thread draws a ticket and looks at the lane next. -/
theorem draw (wakeful : Wakeful machine) (locks : Locks machine)
    (opened : machine.session.state = .opened) (free : machine.session.writerActive = false)
    (thread : Thread)
    (has : (Function.update machine.phase self phase thread).profile.ticket =
      some machine.session.servingWriterTicket) :
    Function.update machine.sleeping self false thread = false := by
  by_cases same : thread = self
  · rw [same, Function.update_self]
  · rw [Function.update_of_ne same] at has ⊢
    exact wakeful.awake locks opened (waitOver_of_served free has)

/-- The thread in `close` has found nobody in the queue. -/
theorem of_empty (wakeful : Wakeful machine) (locks : Locks machine) (queued : Queued machine ∅)
    (excluding : (machine.phase self).profile.excluding = true)
    (phases : after.phase = Function.update machine.phase self phase)
    (goes : ∀ session, phase.waitOver session = false)
    (asleep : ∀ thread, after.sleeping thread = true → machine.sleeping thread = true ∧
      ∀ recovery, machine.phase self ≠ .closing recovery) : Wakeful after := by
  intro thread sleeps ready
  obtain ⟨slept, begun⟩ := asleep thread sleeps
  have closing := locks.excluding_closing excluding
  have other : thread ≠ self := by
    rintro rfl
    rw [phases, Function.update_self, goes] at ready
    cases ready
  have same : after.phase thread = machine.phase thread := by
    rw [phases, Function.update_of_ne other]
  cases place : after.phase thread with
  | queued ticket | maintenanceQueued ticket =>
    have has := profile_at Profile.ticket (same.symm.trans place)
    exact absurd (queued.ticket_mem has) (Finset.notMem_empty _)
  | closeWaiting recovery =>
    exact absurd (locks.single (profile_at Profile.excluding (same.symm.trans place)) excluding) other
  | closePending =>
    obtain ⟨stopped, -⟩ | ⟨closer, recovery, here⟩ := wakeful thread slept (by
      rw [← same, place, LanePhase.waitOver, closing]
      rfl)
    · rw [closing] at stopped
      cases stopped
    · rw [locks.single (profile_at Profile.excluding here) excluding] at here
      exact absurd here (begun recovery)
  | _ =>
    rw [place] at ready
    cases ready

end Wakeful

/-- Every effect wakes whoever it lets go on. -/
theorem Effect.wakeful (effect : Effect machine self after) (locks : Locks machine)
    (causes : Causes machine) (occupant : Occupant machine) (queued : Queued machine waiting)
    (wakeful : Wakeful machine) : Wakeful after := by
  have locksAfter := effect.locks locks
  cases effect with
  | nothing => exact wakeful
  | sleep early =>
    intro thread asleep ready
    by_cases same : thread = self
    · rw [same] at ready
      exact absurd (early.symm.trans ready) nofun
    · have slept : Function.update machine.sleeping self true thread = true := asleep
      rw [Function.update_of_ne same] at slept
      exact wakeful thread slept ready
  | move _ alike still outside =>
    exact wakeful.keep outside rfl (fun _ => still _) (fun _ _ => id) (fun _ => id) rfl rfl
  | edit _ here | enterCommit here | refuseCommit here | beginRead here | leaveRead here
  | dropMaintenance here =>
    exact wakeful.keep (profile_at Profile.excluding here) rfl (fun _ => rfl) (fun _ _ => id)
      (fun _ => id) rfl rfl
  | forget owned =>
    exact wakeful.keep (congrArg Profile.excluding owned) rfl (fun _ => rfl) (fun _ _ => id)
      (fun _ => id) rfl rfl
  | awaitRecovery here =>
    refine wakeful.keep (profile_at Profile.excluding here) rfl (fun asleep => ?_)
      (fun thread other asleep => ?_) (fun _ => id) rfl rfl
    · have mine : Function.update machine.sleeping self false self = true := asleep
      rw [Function.update_self] at mine
      cases mine
    · have slept : Function.update machine.sleeping self false thread = true := asleep
      rwa [Function.update_of_ne other] at slept
  | cancelMaintenance here =>
    refine wakeful.keep (profile_at Profile.excluding here) rfl (fun _ => rfl) (fun _ _ => id)
      (fun thread ready => ?_) rfl rfl
    -- nobody is in `close` while the lock is shared
    have free := (locks.sharing_free (profile_at Profile.sharing here)).1
    have outside := locks.not_excluding free thread
    cases place : machine.phase thread with
    | closeWaiting =>
      rw [place] at outside
      cases outside
    | _ =>
      rw [place] at ready
      exact ready
  | settleCommit here session _ _ _ known =>
    obtain ⟨rfl, -⟩ | ⟨cause, -, rfl⟩ := known
    · exact wakeful.keep (profile_at Profile.excluding here) rfl (fun _ => rfl) (fun _ _ => id)
        (fun _ => id) rfl rfl
    · have alive := causes.alive_of_sharing locks (profile_at Profile.sharing here)
      exact fun _ _ _ => .inl ⟨rfl, occupant.held alive (profile_at Profile.inLane here)⟩
  | failMaintenance here =>
    have alive := causes.alive_of_sharing locks (profile_at Profile.sharing here)
    exact fun _ _ _ => .inl ⟨rfl, occupant.held alive (profile_at Profile.inLane here)⟩
  | cancelWait | abandonWait | leaveWriter | leaveMaintenance | recover | shutdown =>
    exact .of_awake rfl
  | admitWriter _ opened => exact .of_opened locksAfter opened nofun
  | admitMaintenance _ accepts | passWriter _ accepts => exact .of_opened locksAfter accepts.2 nofun
  | drawWriter idle accepts | drawMaintenance idle shared accepts =>
    exact .of_opened locksAfter accepts.2 (wakeful.draw locks accepts.2)
  | beginClose => exact fun _ _ _ => .inr ⟨self, _, Function.update_self self _ _⟩
  | drain here crowded =>
    intro thread asleep ready
    have slept : Function.update (fun _ => false) self true thread = true := asleep
    by_cases same : thread = self
    · have mine : (Function.update machine.phase self _ thread).waitOver machine.session = true :=
        ready
      rw [same, Function.update_self] at mine
      exact absurd (beq_iff_eq.1 mine) crowded
    · rw [Function.update_of_ne same] at slept
      cases slept
  | refuse sleeping draining asleep drained | align sleeping draining asleep drained =>
    have empty := Finset.card_eq_zero.1 (queued.count.symm.trans drained)
    have alike := profile_of_draining draining
    rw [empty] at queued
    refine wakeful.of_empty locks queued (congrArg Profile.excluding alike) rfl (fun _ => rfl)
      fun thread sleeps => ?_
    obtain ⟨slept, waits⟩ := asleep thread sleeps
    exact ⟨slept, by rw [waits]; nofun⟩
  | abort here session values known ends =>
    rw [(queued.quiet (locks.resolving_shut here) (locks.resolving_settled here)).1] at queued
    exact wakeful.of_empty locks queued (profile_at Profile.excluding here) rfl (fun _ => rfl)
      fun thread sleeps => ⟨sleeps, by rw [here]; nofun⟩

end Miare.LaneMachine
