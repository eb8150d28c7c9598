import Miare.Session.Proofs.LaneWakes

/-!
# Runs of the writer lane

What the lane promises over every run of every number of threads: one occupant, admission in the
order of the tickets, no thread that sleeps while it could go on, a published map that is the
sequential one, and no transaction that counts when the session closes.  A corruption that is found
while maintenance operations wait may leave them waiting for ever.
-/

namespace Miare.LaneMachine

open Misc

variable {Thread : Type} [DecidableEq Thread] {machine after : LaneMachine Thread} {self : Thread}
  {waiting : Finset Nat} {live : Finset Thread} {initial : OrderedKeyValues} {phase : LanePhase}

/-! ## The order of admission -/

/-- Tickets were admitted in their order, and none of them waits. -/
structure Admitted (machine : LaneMachine Thread) : Prop where
  increasing : machine.admitted.Pairwise (· < ·)
  below : machine.session.invalidated = false → ∀ ticket ∈ machine.admitted, ticket <
    machine.session.servingWriterTicket + machine.session.writerActive.toNat

namespace Admitted

omit [DecidableEq Thread] in
/-- Nobody is admitted. -/
theorem keep (admitted : Admitted machine) (same : after.admitted = machine.admitted)
    (gone : after.session.invalidated = machine.session.invalidated)
    (later : machine.session.servingWriterTicket + machine.session.writerActive.toNat ≤
      after.session.servingWriterTicket + after.session.writerActive.toNat) : Admitted after := by
  constructor
  · rw [same]
    exact admitted.increasing
  · rw [same, gone]
    intro alive ticket member
    exact lt_of_lt_of_le (admitted.below alive ticket member) later

omit [DecidableEq Thread] in
/-- The ticket at the front is admitted. -/
theorem append (admitted : Admitted machine) {ticket : Nat}
    (alive : machine.session.invalidated = false) (free : machine.session.writerActive = false)
    (front : machine.session.servingWriterTicket = ticket)
    (more : after.admitted = machine.admitted ++ [ticket])
    (served : after.session.servingWriterTicket = ticket)
    (active : after.session.writerActive = true) : Admitted after := by
  have below : ∀ earlier ∈ machine.admitted, earlier < ticket := by
    intro earlier member
    have before := admitted.below alive earlier member
    rw [free, front] at before
    exact before
  constructor
  · rw [more, List.pairwise_append]
    refine ⟨admitted.increasing, List.pairwise_singleton _ _, fun earlier member last here => ?_⟩
    rw [List.mem_singleton.1 here]
    exact below earlier member
  · rw [more, served, active]
    intro _ earlier member
    obtain member | here := List.mem_append.1 member
    · exact Nat.lt_succ_of_lt (below earlier member)
    · rw [List.mem_singleton.1 here]
      exact Nat.lt_succ_self ticket

end Admitted

omit [DecidableEq Thread] in
/-- A free lane that nobody waits for serves the next ticket. -/
theorem Queued.serves_next (queued : Queued machine waiting) (accepts : machine.session.Accepts)
    (free : machine.session.writerActive = false) (alone : machine.session.waitingWriters = 0) :
    machine.session.servingWriterTicket = machine.session.nextWriterTicket := by
  have count := (queued.inOrder accepts).count
  rw [show (machine.queue waiting).waiting = waiting from rfl, ← queued.count, alone,
    show (machine.queue waiting).active = machine.session.writerActive from rfl, free] at count
  exact count.symm

/-- Every effect admits the ticket at the front, or nobody. -/
theorem Effect.admitted (effect : Effect machine self after) (locks : Locks machine)
    (causes : Causes machine) (occupant : Occupant machine) (queued : Queued machine waiting)
    (admitted : Admitted machine) : Admitted after := by
  cases effect with
  | nothing => exact admitted
  | sleep | move | drawWriter | drawMaintenance | cancelMaintenance | edit | enterCommit
  | refuseCommit | beginRead | leaveRead | forget | failMaintenance | dropMaintenance | awaitRecovery
  | beginClose | drain => exact admitted.keep rfl rfl le_rfl
  | settleCommit here session _ _ _ known =>
    obtain ⟨rfl, -⟩ | ⟨cause, -, rfl⟩ := known <;> exact admitted.keep rfl rfl le_rfl
  | abort here session values _ ends =>
    obtain rfl | rfl | ⟨-, cause, -, rfl⟩ := ends <;> exact admitted.keep rfl rfl le_rfl
  | recover | shutdown => exact ⟨admitted.increasing, nofun⟩
  | @cancelWait ticket =>
    refine admitted.keep rfl rfl ?_
    change _ ≤ (if ticket = machine.session.servingWriterTicket then
      machine.session.servingWriterTicket + 1 else machine.session.servingWriterTicket) +
      machine.session.writerActive.toNat
    split <;> omega
  | admitWriter _ opened free =>
    exact admitted.append (causes.opened opened).2 free rfl rfl rfl rfl
  | admitMaintenance _ accepts free =>
    exact admitted.append (causes.opened accepts.2).2 free rfl rfl rfl rfl
  | abandonWait =>
    refine admitted.keep rfl rfl ?_
    change _ ≤ machine.session.servingWriterTicket + 1 + machine.session.writerActive.toNat
    omega
  | passWriter idle accepts free alone =>
    have next := queued.serves_next accepts free alone
    exact admitted.append (causes.opened accepts.2).2 free next rfl next rfl
  | leaveWriter owns alive =>
    refine admitted.keep rfl rfl ?_
    rw [occupant.held alive (congrArg Profile.inLane owns)]
    exact le_rfl
  | leaveMaintenance here =>
    refine admitted.keep rfl rfl ?_
    have alive := causes.alive_of_sharing locks (profile_at Profile.sharing here)
    rw [occupant.held alive (profile_at Profile.inLane here)]
    exact le_rfl
  | refuse | align => exact admitted.keep rfl rfl (TicketQueue.front_le_realign queued.sound)

/-! ## The published map -/

/-- The calls of a transaction, one after another. -/
def applyEdits (values : OrderedKeyValues) (edits : List KeyEdit) : OrderedKeyValues :=
  edits.foldl KeyEdit.apply values

/-- The transaction holds the map with its own calls applied. -/
def BuildsOn (values : OrderedKeyValues) (view : WriterView) : Prop :=
  view.values = applyEdits values view.edits ∧ (view.changed = false → view.values = values)

/-- The map in the file is made by the published transactions one after another, the session has it
unless it was stopped, and every transaction builds on it. -/
structure Sequential (initial : OrderedKeyValues) (machine : LaneMachine Thread) : Prop where
  durable : machine.durable = machine.committed.foldl applyEdits initial
  values : machine.session.recoveryCause = .none → machine.values = machine.durable
  views : ∀ thread view, (machine.phase thread).profile.view = some view →
    BuildsOn machine.durable view

/-- A call that does not count as a change leaves the map as it is. -/
theorem KeyEdit.apply_of_not_mutates {edit : KeyEdit} {values : OrderedKeyValues}
    (still : edit.mutates values = false) : edit.apply values = values := by
  cases edit with
  | put => cases still
  | erase key =>
    exact Keyed.erase_of_find_none (Option.not_isSome_iff_eq_none.1 (Bool.eq_false_iff.1 still))

theorem BuildsOn.edit {values : OrderedKeyValues} {view : WriterView} (builds : BuildsOn values view)
    (edit : KeyEdit) : BuildsOn values (view.edit edit) := by
  constructor
  · change edit.apply view.values = applyEdits values (view.edits ++ [edit])
    rw [applyEdits, List.foldl_concat, builds.1]
    rfl
  · intro still
    obtain ⟨before, now⟩ := Bool.or_eq_false_iff.1 still
    change edit.apply view.values = values
    rw [KeyEdit.apply_of_not_mutates now, builds.2 before]

namespace Sequential

/-- The thread goes on without a commit. -/
theorem move (sequential : Sequential initial machine)
    (phases : after.phase = Function.update machine.phase self phase)
    (durable : after.durable = machine.durable) (committed : after.committed = machine.committed)
    (values : after.session.recoveryCause = .none → after.values = machine.durable)
    (builds : ∀ view, phase.profile.view = some view → BuildsOn machine.durable view) :
    Sequential initial after := by
  constructor
  · rw [durable, committed]
    exact sequential.durable
  · rw [durable]
    exact values
  · rw [durable, phases]
    intro thread view has
    by_cases same : thread = self
    · rw [same, Function.update_self] at has
      exact builds view has
    · rw [Function.update_of_ne same] at has
      exact sequential.views thread view has

omit [DecidableEq Thread] in
/-- The thread gets a transaction with a copy of the committed map. -/
theorem fresh (sequential : Sequential initial machine) (causes : Causes machine)
    (opened : machine.session.state = .opened) :
    BuildsOn machine.durable { values := machine.values } := by
  rw [sequential.values (causes.opened opened).1]
  exact ⟨rfl, fun _ => rfl⟩

omit [DecidableEq Thread] in
/-- `close` may read the map again. -/
theorem reread (sequential : Sequential initial machine) {values : OrderedKeyValues}
    (known : values = machine.values ∨ values = machine.durable)
    (none : machine.session.recoveryCause = .none) : values = machine.durable := by
  obtain rfl | rfl := known
  · exact sequential.values none
  · rfl

end Sequential

/-- Every effect keeps the published map sequential. -/
theorem Effect.sequential (effect : Effect machine self after) (locks : Locks machine)
    (causes : Causes machine) (occupant : Occupant machine)
    (sequential : Sequential initial machine) : Sequential initial after := by
  have mine : ∀ view, (machine.phase self).profile.view = some view →
      BuildsOn machine.durable view := sequential.views self
  cases effect with
  | nothing => exact sequential
  | sleep => exact ⟨sequential.durable, sequential.values, sequential.views⟩
  | failMaintenance => exact ⟨sequential.durable, nofun, sequential.views⟩
  | drawWriter | drawMaintenance | cancelWait | abandonWait | admitMaintenance | cancelMaintenance
  | leaveWriter | beginRead | leaveRead | forget | leaveMaintenance | dropMaintenance | awaitRecovery
  | beginClose | drain | refuse | align =>
    exact sequential.move rfl rfl rfl sequential.values nofun
  | move _ alike =>
    refine sequential.move rfl rfl rfl sequential.values fun view has => mine view ?_
    rw [← alike]
    exact has
  | admitWriter _ opened =>
    refine sequential.move rfl rfl rfl sequential.values ?_
    rintro - ⟨⟩
    exact sequential.fresh causes opened
  | passWriter _ accepts =>
    refine sequential.move rfl rfl rfl sequential.values ?_
    rintro - ⟨⟩
    exact sequential.fresh causes accepts.2
  | edit edit here =>
    refine sequential.move rfl rfl rfl sequential.values ?_
    rintro - ⟨⟩
    exact (mine _ (profile_at Profile.view here)).edit edit
  | enterCommit here | refuseCommit here =>
    exact sequential.move rfl rfl rfl sequential.values fun view has =>
      mine view ((profile_at Profile.view here).trans has)
  | @settleCommit view here session values durable committed known records =>
    have alive := causes.alive_of_sharing locks (profile_at Profile.sharing here)
    -- nobody else is in the lane, so that no other transaction was built on the old map
    have alone : ∀ thread other,
        (Function.update machine.phase self .releasing thread).profile.view ≠ some other := by
      intro thread other has
      by_cases same : thread = self
      · rw [same, Function.update_self] at has
        cases has
      · rw [Function.update_of_ne same] at has
        refine same (occupant.lane.single (occupies_of alive (LanePhase.inLane_of_view has))
          (occupies_of alive (profile_at Profile.inLane here)))
    refine ⟨?_, fun none => ?_, fun thread other has => absurd has (alone thread other)⟩
    · obtain ⟨rfl, rfl⟩ | ⟨rfl, rfl⟩ := records
      · exact sequential.durable
      · change view.values = (machine.committed ++ [view.edits]).foldl applyEdits initial
        rw [List.foldl_concat, ← sequential.durable]
        exact (mine view (profile_at Profile.view here)).1
    · obtain ⟨-, same⟩ | ⟨cause, some, rfl⟩ := known
      · exact same
      · exact absurd none some
  | @recover origin here =>
    refine sequential.move rfl rfl rfl nofun fun view has => mine view ?_
    rw [here, ← origin.profile_phase]
    exact has
  | abort here session values known ends =>
    refine sequential.move rfl rfl rfl (fun none => sequential.reread known ?_) nofun
    obtain rfl | rfl | ⟨-, cause, some, rfl⟩ := ends
    · exact none
    · exact none
    · exact absurd none some
  | shutdown here values known =>
    exact sequential.move rfl rfl rfl (fun none => sequential.reread known none) nofun

/-! ## Runs -/

/-- Everything that the effects keep. -/
structure Invariant (initial : OrderedKeyValues) (machine : LaneMachine Thread)
    (waiting : Finset Nat) (live : Finset Thread) : Prop where
  locks : Locks machine
  causes : Causes machine
  children : Children machine live
  occupant : Occupant machine
  queued : Queued machine waiting
  wakeful : Wakeful machine
  admitted : Admitted machine
  sequential : Sequential initial machine

omit [DecidableEq Thread] in
theorem start_invariant (format : OpenedFormat) (allocator : AllocatorSnapshot)
    (values : OrderedKeyValues) :
    Invariant values (start format allocator values : LaneMachine Thread) ∅ ∅ where
  locks := ⟨fun _ => iff_of_false (Finset.notMem_empty _) Bool.false_ne_true,
    fun _ => iff_of_false nofun Bool.false_ne_true, fun none => absurd rfl none, nofun⟩
  causes := .of_calm ⟨rfl, rfl⟩ nofun
  children := ⟨fun _ => iff_of_false (Finset.notMem_empty _) Bool.false_ne_true, rfl, nofun⟩
  occupant := ⟨.nobody fun _ => rfl, .nobody fun _ => rfl⟩
  queued := .of_opened rfl ⟨fun _ => iff_of_false (Finset.notMem_empty _) nofun, nofun⟩ rfl
    (Nat.zero_le _) ⟨le_rfl, nofun⟩ fun _ => ⟨le_rfl, rfl⟩
  wakeful := .of_awake rfl
  admitted := ⟨.nil, nofun⟩
  sequential := ⟨rfl, fun _ => rfl, nofun⟩

theorem step_invariant (invariant : Invariant initial machine waiting live) (self : Thread)
    (step : LaneStep) :
    ∃ waiting live, Invariant initial (machine.step self step) waiting live := by
  have effect := step_effect machine self step
  obtain ⟨locks, causes, children, occupant, queued, wakeful, admitted, sequential⟩ := invariant
  obtain ⟨waiting, queuedAfter⟩ := effect.queued locks causes children occupant queued
  obtain ⟨live, childrenAfter⟩ := effect.children locks causes children
  exact ⟨waiting, live, effect.locks locks, effect.causes locks children causes, childrenAfter,
    effect.occupant locks causes occupant, queuedAfter,
    effect.wakeful locks causes occupant queued wakeful,
    effect.admitted locks causes occupant queued admitted,
    effect.sequential locks causes occupant sequential⟩

/-- What every step keeps where the invariant holds is kept by every run. -/
theorem run_induction (kept : LaneMachine Thread → Prop)
    (step : ∀ {machine waiting live}, Invariant initial machine waiting live → kept machine →
      ∀ self step, kept (machine.step self step))
    (invariant : ∃ waiting live, Invariant initial machine waiting live) (begins : kept machine)
    (steps : List (Thread × LaneStep)) :
    (∃ waiting live, Invariant initial (machine.run steps) waiting live) ∧
      kept (machine.run steps) := by
  induction steps generalizing machine with
  | nil => exact ⟨invariant, begins⟩
  | cons next steps ih =>
    obtain ⟨waiting, live, holds⟩ := invariant
    exact ih (step_invariant holds next.1 next.2) (step holds begins next.1 next.2)

/-- The invariant holds along every run. -/
theorem run_invariant (format : OpenedFormat) (allocator : AllocatorSnapshot)
    (values : OrderedKeyValues) (steps : List (Thread × LaneStep)) :
    ∃ waiting live, Invariant values ((start format allocator values).run steps) waiting live :=
  (run_induction (fun _ => True) (fun _ _ _ _ => trivial)
    ⟨∅, ∅, start_invariant format allocator values⟩ trivial steps).1

/-- `tryBeginWrite` admits a writer only when nobody waits. -/
theorem tryBeginWrite_alone (machine : LaneMachine Thread) (self : Thread) (constructs : Bool) :
    machine.step self (.tryBeginWrite constructs) = machine ∨
      machine.session.waitingWriters = 0 := by
  unfold LaneMachine.step
  split
  case h_5 =>
    split
    next may => exact Or.inr may.2.2.1
    next => exact Or.inl rfl
  case h_24 => exact Or.inl rfl
  all_goals contradiction

/-- In every run, while the session is open: one thread at most is in the lane, every ticket that
waits is behind it and has one holder, tickets are admitted in their order, and `tryBeginWrite`
overtakes nobody.  Unless a corruption is pending, all tickets behind the lane wait. -/
theorem laneRun_firstComeFirstServed (format : OpenedFormat) (allocator : AllocatorSnapshot)
    (values : OrderedKeyValues) (steps : List (Thread × LaneStep))
    (opened : ((start format allocator values).run steps).session.state = .opened) :
    let machine := (start format allocator values).run steps
    (machine.session.writerActive = true ↔
      ∃ thread, (machine.phase thread).profile.inLane = true) ∧
    (∀ a b, (machine.phase a).profile.inLane = true → (machine.phase b).profile.inLane = true →
      a = b) ∧
    (∀ thread ticket, (machine.phase thread).profile.ticket = some ticket →
      machine.session.servingWriterTicket + machine.session.writerActive.toNat ≤ ticket ∧
        ticket < machine.session.nextWriterTicket) ∧
    (∀ a b ticket, (machine.phase a).profile.ticket = some ticket →
      (machine.phase b).profile.ticket = some ticket → a = b) ∧
    (machine.session.confirmedCorruptionPending = false →
      machine.session.nextWriterTicket = machine.session.servingWriterTicket +
        machine.session.waitingWriters + machine.session.writerActive.toNat ∧
      ∀ ticket, machine.session.servingWriterTicket + machine.session.writerActive.toNat ≤ ticket →
        ticket < machine.session.nextWriterTicket →
        ∃ thread, (machine.phase thread).profile.ticket = some ticket) ∧
    machine.admitted.Pairwise (· < ·) ∧
    (∀ earlier ∈ machine.admitted, ∀ thread ticket,
      (machine.phase thread).profile.ticket = some ticket → earlier < ticket) ∧
    ∀ self constructs,
      (machine.step self (.tryBeginWrite constructs)).admitted ≠ machine.admitted →
        ∀ thread, (machine.phase thread).profile.ticket = none := by
  intro machine
  obtain ⟨waiting, live, invariant⟩ := run_invariant format allocator values steps
  have queued : Queued machine waiting := invariant.queued
  have alive : machine.session.invalidated = false := (invariant.causes.opened opened).2
  have lane : machine.occupies = Profile.inLane := by
    funext profile
    rw [occupies, alive]
    rfl
  have occupied : LaneOccupied (fun thread => machine.occupies (machine.phase thread).profile)
      machine.session.writerActive := invariant.occupant.lane
  rw [lane] at occupied
  have tickets : ∀ thread ticket, (machine.phase thread).profile.ticket = some ticket →
      machine.session.servingWriterTicket + machine.session.writerActive.toNat ≤ ticket ∧
        ticket < machine.session.nextWriterTicket :=
    fun thread ticket has => queued.sound.bounds ticket (queued.ticket_mem has)
  refine ⟨occupied.active_iff, fun a b => occupied.single, tickets,
    fun a b ticket => queued.holders.distinct, fun calm => ?_, invariant.admitted.increasing,
    fun earlier member thread ticket has => ?_, fun self constructs admits thread => ?_⟩
  · have inOrder := queued.inOrder ⟨calm, opened⟩
    refine ⟨queued.count ▸ inOrder.count, fun ticket above below => ?_⟩
    have all : waiting = Finset.Ico _ _ := inOrder.2
    exact (queued.holders.held ticket).1 (all ▸ Finset.mem_Ico.2 ⟨above, below⟩)
  · exact lt_of_lt_of_le (invariant.admitted.below alive earlier member) (tickets thread ticket has).1
  · obtain same | alone := tryBeginWrite_alone machine self constructs
    · rw [same] at admits
      exact absurd rfl admits
    · have empty := Finset.card_eq_zero.1 (queued.count.symm.trans alone)
      by_contra has
      obtain ⟨ticket, has⟩ := Option.ne_none_iff_exists'.1 has
      have member := queued.ticket_mem has
      rw [empty] at member
      exact Finset.notMem_empty ticket member

/-- An empty session of some threads. -/
def emptySession (Thread : Type) : LaneMachine Thread :=
  start { generation := 1, highWaterBytes := 0 } ⟨0, [], []⟩ ⟨[], .nil⟩

/-- One thread writes and the other one waits. -/
def twoWriters : List (Bool × LaneStep) :=
  [(true, .beginWrite), (true, .wake true), (false, .beginWrite), (false, .wake true)]

theorem laneRun_firstComeFirstServed_twoWriters :
    let machine := (emptySession Bool).run twoWriters
    machine.session.state = .opened ∧ machine.session.confirmedCorruptionPending = false ∧
      machine.session.nextWriterTicket = 2 ∧ machine.sleeping false = true ∧
      (∃ thread, (machine.phase thread).profile.ticket = some 1) ∧
      ∀ earlier ∈ machine.admitted, earlier < 1 := by
  have holds := laneRun_firstComeFirstServed { generation := 1, highWaterBytes := 0 } ⟨0, [], []⟩
    ⟨[], .nil⟩ twoWriters rfl
  obtain ⟨-, -, -, -, all, -, behind, -⟩ := holds
  exact ⟨rfl, rfl, rfl, rfl, (all rfl).2 1 (by decide) (by decide),
    fun earlier member => behind earlier member false 1 rfl⟩

/-! ## Threads that wait for ever -/

/-- A maintenance operation waits although the lane of the open session is free: a corruption is
pending, nobody has the ticket that is served, and the recovery cannot have the lock that the
operation shares. -/
structure Stranded (machine : LaneMachine Thread) (waiter : Thread) (ticket : Nat) : Prop where
  opened : machine.session.state = .opened
  pending : machine.session.confirmedCorruptionPending = true
  free : machine.session.writerActive = false
  unserved : ∀ thread,
    (machine.phase thread).profile.ticket ≠ some machine.session.servingWriterTicket
  waits : (machine.phase waiter).profile.ticket = some ticket
  shares : (machine.phase waiter).profile.sharing = true

namespace Stranded

variable {waiter : Thread} {ticket : Nat}

theorem keep (stranded : Stranded machine waiter ticket)
    (phases : after.phase = Function.update machine.phase self phase)
    (alike : phase.profile = (machine.phase self).profile ∨
      (machine.phase self).profile.sharing = false ∧ phase.profile.ticket = none)
    (state : after.session.state = machine.session.state)
    (pending : after.session.confirmedCorruptionPending = true)
    (active : after.session.writerActive = machine.session.writerActive)
    (serving : after.session.servingWriterTicket = machine.session.servingWriterTicket) :
    Stranded after waiter ticket := by
  have other : waiter = self → phase.profile = (machine.phase waiter).profile := by
    rintro rfl
    exact alike.resolve_right fun apart => absurd (stranded.shares.symm.trans apart.1) nofun
  have same : (after.phase waiter).profile = (machine.phase waiter).profile := by
    rw [phases]
    by_cases mine : waiter = self
    · rw [← other mine, mine, Function.update_self]
    · rw [Function.update_of_ne mine]
  refine ⟨state.trans stranded.opened, pending, active.trans stranded.free, fun thread => ?_,
    same ▸ stranded.waits, same ▸ stranded.shares⟩
  rw [serving, phases]
  by_cases mine : thread = self
  · rw [mine, Function.update_self]
    obtain alike | ⟨-, none⟩ := alike
    · rw [alike]
      exact stranded.unserved self
    · rw [none]
      nofun
  · rw [Function.update_of_ne mine]
    exact stranded.unserved thread

/-- No step of any thread gets it out. -/
theorem step (stranded : Stranded machine waiter ticket)
    (invariant : Invariant initial machine waiting live) (self : Thread) (step : LaneStep) :
    Stranded (machine.step self step) waiter ticket := by
  obtain ⟨locks, causes, -, occupant, -⟩ := invariant
  have refused : ¬ machine.session.Accepts :=
    fun accepts => absurd (accepts.1.symm.trans stranded.pending) nofun
  have outside : ∀ {thread}, (machine.phase thread).profile.inLane ≠ true := by
    intro thread inside
    have held := occupant.held (causes.opened stranded.opened).2 inside
    rw [stranded.free] at held
    cases held
  have apart : ∀ {thread}, (machine.phase thread).profile.excluding ≠ true := by
    intro thread excluding
    have closing := locks.excluding_closing excluding
    rw [stranded.opened] at closing
    cases closing
  have shared : ¬ machine.LockFree := by
    intro free
    have member := (locks.sharing waiter).2 stranded.shares
    rw [free.2] at member
    exact Finset.notMem_empty waiter member
  have effect := step_effect machine self step
  generalize machine.step self step = after at effect ⊢
  cases effect with
  | nothing => exact stranded
  | sleep => exact ⟨stranded.opened, stranded.pending, stranded.free, stranded.unserved,
      stranded.waits, stranded.shares⟩
  | move _ alike _ _ found =>
    exact stranded.keep rfl (.inl alike) rfl (found stranded.pending) rfl rfl
  | awaitRecovery here =>
    exact stranded.keep rfl (.inl (congrArg LanePhase.profile here).symm) rfl stranded.pending rfl rfl
  | leaveRead here =>
    exact stranded.keep rfl (.inr ⟨profile_at Profile.sharing here, rfl⟩) rfl stranded.pending rfl rfl
  | drawWriter _ accepts | drawMaintenance _ _ accepts | admitMaintenance _ accepts
  | passWriter _ accepts | edit _ _ accepts | enterCommit _ _ accepts | beginRead _ accepts =>
    exact absurd accepts refused
  | cancelWait _ stopped => exact absurd stranded.opened stopped
  | admitWriter here | abandonWait here =>
    exact absurd (profile_at Profile.ticket here) (stranded.unserved self)
  | cancelMaintenance here ready =>
    obtain excluding | ⟨-, serves⟩ := waitOver_of_opened stranded.opened ready
    · exact absurd excluding apart
    · exact absurd serves (stranded.unserved self)
  | refuseCommit here | settleCommit here | failMaintenance here | leaveMaintenance here
  | dropMaintenance here => exact absurd (profile_at Profile.inLane here) outside
  | leaveWriter owns => exact absurd (congrArg Profile.inLane owns) outside
  | forget _ gone => exact absurd ((causes.opened stranded.opened).2.symm.trans gone) nofun
  | recover _ free | beginClose _ _ free => exact absurd free shared
  | drain here | abort here | shutdown here =>
    exact absurd (profile_at Profile.excluding here) apart
  | refuse _ draining | align _ draining =>
    exact absurd (congrArg Profile.excluding (profile_of_draining draining)) apart

end Stranded

/-- In every run the map in the file is made by the published transactions one after another, with
those whose commit failed behind the publication; the open session has this map, every transaction
builds on it, and one that `commit` releases without a publication has not changed it. -/
theorem laneRun_sequential (format : OpenedFormat) (allocator : AllocatorSnapshot)
    (values : OrderedKeyValues) (steps : List (Thread × LaneStep)) :
    let machine := (start format allocator values).run steps
    machine.durable = machine.committed.foldl applyEdits values ∧
    (machine.session.recoveryCause = .none → machine.values = machine.durable) ∧
    (machine.session.state = .opened → machine.values = machine.durable) ∧
    ∀ thread view, (machine.phase thread).profile.view = some view →
      view.values = applyEdits machine.durable view.edits ∧
      (view.changed = false → view.values = machine.durable) := by
  intro machine
  obtain ⟨waiting, live, invariant⟩ := run_invariant format allocator values steps
  exact ⟨invariant.sequential.durable, invariant.sequential.values, fun opened =>
    invariant.sequential.values (invariant.causes.opened opened).1, invariant.sequential.views⟩

/-- In every run, a closed session has no transaction that counts, nobody in the lane and nobody in
the queue.  A thread that still owns a transaction owns one that a corruption has invalidated. -/
theorem laneRun_closed_childless (format : OpenedFormat) (allocator : AllocatorSnapshot)
    (values : OrderedKeyValues) (steps : List (Thread × LaneStep))
    (closed : ((start format allocator values).run steps).session.state = .closed) :
    let machine := (start format allocator values).run steps
    machine.session.liveTransactions = 0 ∧ machine.session.waitingWriters = 0 ∧
    machine.session.writerActive = false ∧
    machine.session.nextWriterTicket = machine.session.servingWriterTicket ∧
    machine.session.invalidated = true ∧
    ∀ thread, (machine.phase thread).profile.ticket = none ∧
      (machine.phase thread).profile.sharing = false ∧
      (machine.phase thread).profile.excluding = false ∧
      ((machine.phase thread).profile.live = true →
        machine.session.recoveryCause = .confirmedCorruption) := by
  intro machine
  obtain ⟨waiting, live, invariant⟩ := run_invariant format allocator values steps
  have locks : Locks machine := invariant.locks
  have queued : Queued machine waiting := invariant.queued
  have children : Children machine live := invariant.children
  have gone : machine.session.invalidated = true := invariant.causes.closed closed
  have shut : machine.session.state.shut = true := by
    rw [closed]
    rfl
  have released : machine.exclusiveHolder = none := by
    by_contra held
    have closing := locks.held held
    rw [closed] at closing
    cases closing
  obtain ⟨noTickets, inOrder⟩ := queued.quiet shut (locks.settled released)
  have free : machine.session.writerActive = false := by
    by_contra active
    obtain ⟨thread, inside⟩ := invariant.occupant.lane.active_iff.1 (Bool.not_eq_false _ ▸ active)
    rw [occupies_of_gone gone] at inside
    cases inside
  have count := inOrder.count
  rw [noTickets, show (machine.queue ∅).active = machine.session.writerActive from rfl, free] at count
  refine ⟨?_, ?_, free, count, gone, fun thread =>
    ⟨?_, Bool.eq_false_iff.2 fun shares => ?_, locks.not_excluding released thread,
      invariant.causes.stale gone thread⟩⟩
  · rw [children.count, children.quiet shut (locks.settled released)]
    rfl
  · rw [queued.count, noTickets]
    rfl
  · by_contra has
    obtain ⟨ticket, has⟩ := Option.ne_none_iff_exists'.1 has
    have member := queued.ticket_mem has
    rw [noTickets] at member
    exact Finset.notMem_empty _ member
  · have member := (locks.sharing thread).2 shares
    rw [locks.apart shut] at member
    exact Finset.notMem_empty thread member

/-- A writer publishes a value and begins another transaction; a reader meets corruption, recovers
and closes the session under it. -/
def closedUnderWriter : List (Bool × LaneStep) :=
  [(true, .beginWrite), (true, .wake true), (true, .edit (.put [1] [2])), (true, .commit false),
    (true, .persist .published), (true, .endWrite), (false, .beginRead), (true, .beginWrite),
    (true, .wake true), (false, .corrupt), (false, .recover), (false, .endRead), (false, .close),
    (false, .wake true), (false, .resolve .closed false)]

theorem laneRun_closed_childless_underWriter :
    let machine := (emptySession Bool).run closedUnderWriter
    machine.session.state = .closed ∧ machine.admitted = [0, 1] ∧ machine.committed.length = 1 ∧
      machine.session.liveTransactions = 0 ∧ machine.session.nextWriterTicket = 2 ∧
      (machine.phase true).profile.live = true ∧
      machine.session.recoveryCause = .confirmedCorruption := by
  have holds := laneRun_closed_childless { generation := 1, highWaterBytes := 0 } ⟨0, [], []⟩
    ⟨[], .nil⟩ closedUnderWriter rfl
  exact ⟨rfl, rfl, rfl, holds.1, rfl, rfl, (holds.2.2.2.2.2 true).2.2.2 rfl⟩

end Miare.LaneMachine
