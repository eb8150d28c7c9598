import Miare.Session.Proofs.LaneCounters

/-!
# The queue of the writer lane

The tickets that threads wait with are, in every run, the tickets between the one in the lane and
the next one to draw.  There are gaps once a corruption is pending, when a maintenance operation
leaves its ticket unserved, and while `close` empties the queue; it aligns the counters before the
session opens again.
-/

namespace Miare.LaneMachine

open Misc

variable {Thread : Type} [DecidableEq Thread] {machine after : LaneMachine Thread} {self : Thread}
  {waiting : Finset Nat} {live : Finset Thread} {ticket : Nat} {place phase : LanePhase}

/-- The lane as a ticket queue. -/
def queue (machine : LaneMachine Thread) (waiting : Finset Nat) : TicketQueue where
  next := machine.session.nextWriterTicket
  serving := machine.session.servingWriterTicket
  active := machine.session.writerActive
  waiting := waiting

/-- The counters are as the places of the threads say. -/
structure Queued (machine : LaneMachine Thread) (waiting : Finset Nat) : Prop where
  holders : TicketHolders (fun thread => (machine.phase thread).profile.ticket) waiting
  count : machine.session.waitingWriters = waiting.card
  room : machine.session.nextWriterTicket ≤ uint64Max
  sound : (machine.queue waiting).Sound
  inOrder : machine.session.Accepts → (machine.queue waiting).InOrder
  quiet : machine.session.state.shut = true →
    (∀ thread, (machine.phase thread).profile.draining = false) →
    waiting = ∅ ∧ (machine.queue waiting).InOrder

namespace Queued

omit [DecidableEq Thread] in
theorem of_opened (opened : after.session.state = .opened)
    (holders : TicketHolders (fun thread => (after.phase thread).profile.ticket) waiting)
    (count : after.session.waitingWriters = waiting.card)
    (room : after.session.nextWriterTicket ≤ uint64Max) (sound : (after.queue waiting).Sound)
    (inOrder : after.session.Accepts → (after.queue waiting).InOrder) : Queued after waiting where
  holders := holders
  count := count
  room := room
  sound := sound
  inOrder := inOrder
  quiet := by
    rw [opened]
    nofun

omit [DecidableEq Thread] in
theorem ticket_mem (queued : Queued machine waiting)
    (has : (machine.phase self).profile.ticket = some ticket) : ticket ∈ waiting :=
  (queued.holders.held ticket).2 ⟨self, has⟩

/-- The thread goes on without a ticket. -/
theorem holders_stay (queued : Queued machine waiting) (here : machine.phase self = place)
    (same : phase.profile.ticket = place.profile.ticket) :
    TicketHolders (fun thread => (Function.update machine.phase self phase thread).profile.ticket)
      waiting := by
  rw [comp_goTo Profile.ticket here same]
  exact queued.holders

/-- The thread leaves the queue. -/
theorem holders_lose (queued : Queued machine waiting)
    (has : (machine.phase self).profile.ticket = some ticket) (gone : phase.profile.ticket = none) :
    TicketHolders (fun thread => (Function.update machine.phase self phase thread).profile.ticket)
      (waiting.erase ticket) := by
  rw [profile_update Profile.ticket, gone]
  exact queued.holders.lose has

omit [DecidableEq Thread] in
theorem count_lose (queued : Queued machine waiting)
    (has : (machine.phase self).profile.ticket = some ticket) :
    machine.session.waitingWriters - 1 = (waiting.erase ticket).card := by
  rw [queued.count, Finset.card_erase_of_mem (queued.ticket_mem has)]

/-- The thread draws a ticket. -/
theorem draw (queued : Queued machine waiting) (idle : machine.phase self = .idle)
    (accepts : machine.session.Accepts) (room : machine.session.nextWriterTicket ≠ uint64Max)
    (phases : after.phase = Function.update machine.phase self phase)
    (drawn : phase.profile.ticket = some machine.session.nextWriterTicket)
    (count : after.session.waitingWriters = machine.session.waitingWriters + 1)
    (counters : after.queue (insert machine.session.nextWriterTicket waiting) =
      (machine.queue waiting).enqueue)
    (state : after.session.state = machine.session.state) :
    Queued after (insert machine.session.nextWriterTicket waiting) := by
  have fresh : machine.session.nextWriterTicket ∉ waiting :=
    fun member => lt_irrefl _ (queued.sound.bounds _ member).2
  have next : after.session.nextWriterTicket = machine.session.nextWriterTicket + 1 :=
    congrArg TicketQueue.next counters
  have inOrder : (after.queue (insert machine.session.nextWriterTicket waiting)).InOrder := by
    rw [counters]
    exact TicketQueue.enqueue_inOrder (queued.inOrder accepts)
  refine .of_opened (state.trans accepts.2) ?_ ?_ ?_ inOrder.sound fun _ => inOrder
  · rw [phases, profile_update Profile.ticket, drawn]
    exact queued.holders.gain (profile_at Profile.ticket idle) fresh
  · rw [count, queued.count, Finset.card_insert_of_notMem fresh]
  · rw [next]
    exact lt_of_le_of_ne queued.room room

/-- The thread with the served ticket leaves the queue of a free lane. -/
theorem serve (queued : Queued machine waiting)
    (has : (machine.phase self).profile.ticket = some machine.session.servingWriterTicket)
    (opened : machine.session.state = .opened) {later : TicketQueue}
    (phases : after.phase = Function.update machine.phase self phase)
    (without : phase.profile.ticket = none)
    (count : after.session.waitingWriters = machine.session.waitingWriters - 1)
    (counters : after.queue (waiting.erase machine.session.servingWriterTicket) = later)
    (next : later.next = machine.session.nextWriterTicket)
    (state : after.session.state = machine.session.state)
    (pending : after.session.confirmedCorruptionPending = machine.session.confirmedCorruptionPending)
    (sound : machine.session.servingWriterTicket ∈ waiting → later.Sound)
    (inOrder : (machine.queue waiting).InOrder →
      machine.session.servingWriterTicket ∈ waiting → later.InOrder) :
    Queued after (waiting.erase machine.session.servingWriterTicket) := by
  have member := queued.ticket_mem has
  have same : after.session.nextWriterTicket = later.next := congrArg TicketQueue.next counters
  refine .of_opened (state.trans opened) ?_ ?_ ?_ (counters ▸ sound member) fun accepts => ?_
  · rw [phases]
    exact queued.holders_lose has without
  · rw [count]
    exact queued.count_lose has
  · rw [same, next]
    exact queued.room
  · rw [counters]
    exact inOrder (queued.inOrder ⟨pending ▸ accepts.1, opened⟩) member

/-- The thread goes on and leaves the queue alone. -/
theorem keep (queued : Queued machine waiting) (here : machine.phase self = place)
    (phases : after.phase = Function.update machine.phase self phase)
    (same : phase.profile.ticket = place.profile.ticket)
    (count : after.session.waitingWriters = machine.session.waitingWriters)
    (counters : after.queue waiting = machine.queue waiting)
    (accepts : after.session.Accepts → machine.session.Accepts)
    (quiet : after.session.state.shut = true → phase.profile.draining = false →
      machine.session.state.shut = true ∧ place.profile.draining = false) :
    Queued after waiting := by
  have next : after.session.nextWriterTicket = machine.session.nextWriterTicket :=
    congrArg TicketQueue.next counters
  constructor
  · rw [phases]
    exact queued.holders_stay here same
  · rw [count]
    exact queued.count
  · rw [next]
    exact queued.room
  · rw [counters]
    exact queued.sound
  · rw [counters]
    exact fun now => queued.inOrder (accepts now)
  · rw [counters]
    intro shut settled
    have mine : (after.phase self).profile.draining = false := settled self
    rw [phases, Function.update_self] at mine
    rw [phases] at settled
    exact queued.quiet (quiet shut mine).1 (settled_before settled here fun _ => (quiet shut mine).2)

/-- The lane becomes free. -/
theorem leave (queued : Queued machine waiting) (held : machine.session.writerActive = true)
    (phases : after.phase = Function.update machine.phase self .idle)
    (none : (machine.phase self).profile.ticket = none)
    (outside : (machine.phase self).profile.draining = false)
    (count : after.session.waitingWriters = machine.session.waitingWriters)
    (counters : after.queue waiting = (machine.queue waiting).leave)
    (accepts : after.session.Accepts → machine.session.Accepts)
    (state : after.session.state = machine.session.state) : Queued after waiting := by
  have next : after.session.nextWriterTicket = machine.session.nextWriterTicket :=
    congrArg TicketQueue.next counters
  constructor
  · rw [phases]
    exact queued.holders_stay rfl none.symm
  · rw [count]
    exact queued.count
  · rw [next]
    exact queued.room
  · rw [counters]
    exact TicketQueue.leave_sound queued.sound held
  · rw [counters]
    exact fun now => TicketQueue.leave_inOrder (queued.inOrder (accepts now)) held
  · rw [state, counters, phases]
    intro shut settled
    obtain ⟨empty, inOrder⟩ := queued.quiet shut (settled_before settled rfl fun _ => outside)
    exact ⟨empty, TicketQueue.leave_inOrder inOrder held⟩

/-- The queue is empty and in order. -/
theorem of_empty (queued : Queued machine ∅) (here : machine.phase self = place)
    (phases : after.phase = Function.update machine.phase self phase)
    (same : phase.profile.ticket = place.profile.ticket)
    (count : after.session.waitingWriters = 0)
    (next : after.session.nextWriterTicket = machine.session.nextWriterTicket)
    (inOrder : (after.queue ∅).InOrder) : Queued after ∅ := by
  refine ⟨?_, count, ?_, inOrder.sound, fun _ => inOrder, fun _ _ => ⟨rfl, inOrder⟩⟩
  · rw [phases]
    exact queued.holders_stay here same
  · rw [next]
    exact queued.room

end Queued

/-- Every effect keeps the queue, with one ticket more or less in it. -/
theorem Effect.queued (effect : Effect machine self after) (locks : Locks machine)
    (causes : Causes machine) (children : Children machine live) (occupant : Occupant machine)
    (queued : Queued machine waiting) : ∃ waiting, Queued after waiting := by
  cases effect with
  | nothing => exact ⟨waiting, queued⟩
  | sleep =>
    exact ⟨waiting, queued.holders, queued.count, queued.room, queued.sound, queued.inOrder,
      queued.quiet⟩
  | move pending alike still outside found =>
    refine ⟨waiting, queued.keep rfl rfl (congrArg Profile.ticket alike) rfl rfl ?_ fun shut not =>
      ⟨shut, (congrArg Profile.draining alike).symm.trans not⟩⟩
    rintro ⟨calm, opened⟩
    refine ⟨Bool.eq_false_iff.2 fun was => ?_, opened⟩
    exact absurd (calm.symm.trans (found was)) nofun
  | edit _ here | enterCommit here | refuseCommit here | beginRead here | leaveRead here
  | dropMaintenance here | awaitRecovery here | drain here =>
    exact ⟨waiting, queued.keep here rfl rfl rfl rfl id fun shut not => ⟨shut, not⟩⟩
  | forget owned =>
    exact ⟨waiting, queued.keep rfl rfl (congrArg Profile.ticket owned).symm rfl rfl id
      fun shut _ => ⟨shut, congrArg Profile.draining owned⟩⟩
  | settleCommit here session _ _ _ known =>
    obtain ⟨rfl, -⟩ | ⟨cause, -, rfl⟩ := known
    · exact ⟨waiting, queued.keep here rfl rfl rfl rfl id fun shut not => ⟨shut, not⟩⟩
    · exact ⟨waiting, queued.keep here rfl rfl rfl rfl (fun now => nomatch now.2) nofun⟩
  | failMaintenance =>
    exact ⟨waiting, queued.holders, queued.count, queued.room, queued.sound,
      (fun now => nomatch now.2), nofun⟩
  | drawWriter idle accepts room =>
    exact ⟨_, queued.draw idle accepts room rfl rfl rfl rfl rfl⟩
  | drawMaintenance idle shared accepts room =>
    exact ⟨_, queued.draw idle accepts room rfl rfl rfl rfl rfl⟩
  | @cancelWait ticket here stopped =>
    have has : (machine.phase self).profile.ticket = some ticket := profile_at Profile.ticket here
    have member := queued.ticket_mem has
    refine ⟨_, queued.holders_lose has rfl, queued.count_lose has, queued.room,
      TicketQueue.cancel_sound queued.sound member, fun now => absurd now.2 stopped,
      fun shut settled => ?_⟩
    -- a queue that is not emptied has nobody left
    have empty := (queued.quiet shut (settled_before settled here id)).1
    rw [empty] at member
    exact absurd member (Finset.notMem_empty ticket)
  | admitWriter here opened free =>
    exact ⟨_, queued.serve (profile_at Profile.ticket here) opened rfl rfl rfl rfl rfl rfl rfl
      (TicketQueue.enter_sound queued.sound free) fun all => TicketQueue.enter_inOrder all free⟩
  | admitMaintenance here accepts free =>
    exact ⟨_, queued.serve (profile_at Profile.ticket here) accepts.2 rfl rfl rfl rfl rfl rfl rfl
      (TicketQueue.enter_sound queued.sound free) fun all => TicketQueue.enter_inOrder all free⟩
  | abandonWait here opened free =>
    exact ⟨_, queued.serve (profile_at Profile.ticket here) opened rfl rfl rfl rfl rfl rfl rfl
      (TicketQueue.abandon_sound queued.sound) fun all => TicketQueue.abandon_inOrder all free⟩
  | @cancelMaintenance ticket here ready refused =>
    have has : (machine.phase self).profile.ticket = some ticket := profile_at Profile.ticket here
    refine ⟨_, queued.holders_lose has rfl, queued.count_lose has, queued.room,
      queued.sound.relax le_rfl rfl (Finset.erase_subset _ _), fun now => absurd now refused,
      fun shut => ?_⟩
    exact absurd ((locks.sharing_free (profile_at Profile.sharing here)).2.symm.trans shut) nofun
  | passWriter idle accepts free alone room =>
    have empty : waiting = ∅ := by
      rw [← Finset.card_eq_zero, ← queued.count, alone]
    have inOrder := TicketQueue.pass_inOrder (queued.inOrder accepts) free empty
    exact ⟨waiting, .of_opened accepts.2 (queued.holders_stay idle rfl) queued.count
      (lt_of_le_of_ne queued.room room) inOrder.sound fun _ => inOrder⟩
  | leaveWriter owns alive =>
    exact ⟨waiting, queued.leave (occupant.held alive (congrArg Profile.inLane owns)) rfl
      (congrArg Profile.ticket owns) (congrArg Profile.draining owns) rfl rfl id rfl⟩
  | leaveMaintenance here =>
    have alive := causes.alive_of_sharing locks (profile_at Profile.sharing here)
    exact ⟨waiting, queued.leave (occupant.held alive (profile_at Profile.inLane here)) rfl
      (profile_at Profile.ticket here) (profile_at Profile.draining here) rfl rfl id rfl⟩
  | @recover origin here free =>
    refine ⟨waiting, queued.holders_stay here (congrArg Profile.ticket origin.profile_phase),
      queued.count, queued.room, ?_, (fun now => nomatch now.2), nofun⟩
    exact queued.sound.relax (Nat.le_add_right _ _) rfl subset_rfl
  | beginClose recovery outside =>
    exact ⟨waiting, queued.keep rfl rfl (congrArg Profile.ticket outside).symm rfl rfl
      (fun now => nomatch now.2) nofun⟩
  | refuse sleeping draining asleep drained | align sleeping draining asleep drained =>
    have empty : waiting = ∅ := by
      rw [← Finset.card_eq_zero, ← queued.count, drained]
    rw [empty] at queued
    exact ⟨∅, queued.of_empty rfl rfl (congrArg Profile.ticket (profile_of_draining draining)).symm
      drained rfl (TicketQueue.realign_inOrder queued.sound rfl)⟩
  | abort here session values _ ends =>
    obtain ⟨empty, inOrder⟩ := queued.quiet (locks.resolving_shut here)
      (locks.resolving_settled here)
    rw [empty] at queued inOrder
    obtain rfl | rfl | ⟨-, cause, -, rfl⟩ := ends <;>
      exact ⟨∅, queued.of_empty here rfl rfl queued.count rfl inOrder⟩
  | shutdown here =>
    obtain ⟨empty, inOrder⟩ := queued.quiet (locks.resolving_shut here)
      (locks.resolving_settled here)
    rw [empty] at queued inOrder
    refine ⟨∅, queued.of_empty here rfl rfl rfl rfl ?_⟩
    rwa [queue, occupant.resolving_free locks children here] at inOrder

end Miare.LaneMachine
