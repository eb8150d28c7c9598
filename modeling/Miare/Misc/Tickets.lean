import Mathlib.Order.Interval.Finset.Nat
import Mathlib.Tactic

/-!
# Ticket queues

A lane that one client at a time may use.  A client draws the next ticket and waits until the lane
is free and its ticket is the one that is served; whoever leaves the lane serves the next ticket.
The queue is in order when the tickets that wait are all tickets behind the one in the lane.
-/

namespace Miare.Misc

/-- The counters of a lane, whether it is in use, and the tickets that wait. -/
structure TicketQueue where
  next : Nat
  serving : Nat
  active : Bool
  waiting : Finset Nat

namespace TicketQueue

variable {queue : TicketQueue} {ticket : Nat}

/-- The first ticket that is neither in the lane nor was there before. -/
def front (queue : TicketQueue) : Nat := queue.serving + queue.active.toNat

theorem front_of_free (free : queue.active = false) : queue.front = queue.serving := by
  rw [front, free]
  rfl

/-- A ticket is drawn. -/
def enqueue (queue : TicketQueue) : TicketQueue :=
  { queue with next := queue.next + 1, waiting := insert queue.next queue.waiting }

/-- The served ticket enters the lane. -/
def enter (queue : TicketQueue) : TicketQueue :=
  { queue with active := true, waiting := queue.waiting.erase queue.serving }

/-- The served ticket is given up. -/
def abandon (queue : TicketQueue) : TicketQueue :=
  { queue with serving := queue.serving + 1, waiting := queue.waiting.erase queue.serving }

/-- Any ticket is given up; the counter only moves for the served one. -/
def cancel (queue : TicketQueue) (ticket : Nat) : TicketQueue :=
  { queue with
    serving := if ticket = queue.serving then queue.serving + 1 else queue.serving
    waiting := queue.waiting.erase ticket }

/-- A ticket is drawn and enters the lane at once. -/
def pass (queue : TicketQueue) : TicketQueue :=
  { queue with next := queue.next + 1, active := true }

/-- The lane becomes free. -/
def leave (queue : TicketQueue) : TicketQueue :=
  { queue with serving := queue.serving + 1, active := false }

/-- The counters are aligned anew. -/
def realign (queue : TicketQueue) : TicketQueue :=
  { queue with serving := queue.next - queue.active.toNat }

/-- The tickets that wait have been drawn and not been served. -/
structure Sound (queue : TicketQueue) : Prop where
  front_le : queue.front ≤ queue.next
  bounds : ∀ ticket ∈ queue.waiting, queue.front ≤ ticket ∧ ticket < queue.next

/-- All tickets behind the front wait. -/
def InOrder (queue : TicketQueue) : Prop :=
  queue.front ≤ queue.next ∧ queue.waiting = Finset.Ico queue.front queue.next

theorem InOrder.sound (inOrder : queue.InOrder) : queue.Sound := by
  refine ⟨inOrder.1, fun ticket member => ?_⟩
  rw [inOrder.2] at member
  exact Finset.mem_Ico.1 member

/-- Every ticket that was drawn is served, in the lane or waits. -/
theorem InOrder.count (inOrder : queue.InOrder) :
    queue.next = queue.serving + queue.waiting.card + queue.active.toNat := by
  have le := inOrder.1
  rw [inOrder.2, Nat.card_Ico]
  unfold front at *
  omega

theorem enqueue_inOrder (inOrder : queue.InOrder) : queue.enqueue.InOrder := by
  obtain ⟨le, all⟩ := inOrder
  refine ⟨le.trans (Nat.le_succ _), ?_⟩
  have same : queue.enqueue.front = queue.front := rfl
  rw [same, enqueue, all]
  ext ticket
  simp only [Finset.mem_insert, Finset.mem_Ico]
  omega

/-- The served ticket leaves the queue of a free lane. -/
theorem InOrder.serve {later : TicketQueue} (inOrder : queue.InOrder) (free : queue.active = false)
    (served : queue.serving ∈ queue.waiting) (behind : later.front = queue.serving + 1)
    (next : later.next = queue.next)
    (waiting : later.waiting = queue.waiting.erase queue.serving) : later.InOrder := by
  have below := (inOrder.sound.bounds _ served).2
  refine ⟨by rw [behind, next]; exact below, ?_⟩
  rw [behind, next, waiting, inOrder.2, front_of_free free]
  ext ticket
  simp only [Finset.mem_erase, Finset.mem_Ico]
  omega

theorem enter_inOrder (inOrder : queue.InOrder) (free : queue.active = false)
    (served : queue.serving ∈ queue.waiting) : queue.enter.InOrder :=
  inOrder.serve free served rfl rfl rfl

theorem abandon_inOrder (inOrder : queue.InOrder) (free : queue.active = false)
    (served : queue.serving ∈ queue.waiting) : queue.abandon.InOrder := by
  refine inOrder.serve free served ?_ rfl rfl
  rw [front, abandon, free]
  rfl

theorem cancel_sound (sound : queue.Sound) (member : ticket ∈ queue.waiting) :
    (queue.cancel ticket).Sound := by
  obtain ⟨le, bounds⟩ := sound
  have here := bounds ticket member
  unfold front at *
  refine ⟨?_, fun other rest => ?_⟩
  · unfold front cancel
    dsimp only
    split <;> omega
  · obtain ⟨differs, inside⟩ := Finset.mem_erase.1 rest
    have there := bounds other inside
    unfold front cancel
    dsimp only
    split <;> omega

theorem abandon_sound (sound : queue.Sound) (served : queue.serving ∈ queue.waiting) :
    queue.abandon.Sound := by
  have sound := cancel_sound sound served
  rwa [cancel, if_pos rfl] at sound

theorem enter_sound (sound : queue.Sound) (free : queue.active = false)
    (served : queue.serving ∈ queue.waiting) : queue.enter.Sound := by
  refine ⟨(sound.bounds _ served).2, fun other rest => ?_⟩
  obtain ⟨differs, inside⟩ := Finset.mem_erase.1 rest
  obtain ⟨above, below⟩ := sound.bounds other inside
  rw [front_of_free free] at above
  exact ⟨lt_of_le_of_ne above (Ne.symm differs), below⟩

/-- Tickets are given up or the front falls back. -/
theorem Sound.relax {later : TicketQueue} (sound : queue.Sound) (front : later.front ≤ queue.front)
    (next : later.next = queue.next) (waiting : later.waiting ⊆ queue.waiting) : later.Sound := by
  refine ⟨next ▸ front.trans sound.front_le, fun ticket member => ?_⟩
  obtain ⟨above, below⟩ := sound.bounds ticket (waiting member)
  exact ⟨front.trans above, next ▸ below⟩

theorem pass_inOrder (inOrder : queue.InOrder) (free : queue.active = false)
    (none : queue.waiting = ∅) : queue.pass.InOrder := by
  obtain ⟨le, all⟩ := inOrder
  rw [none] at all
  have past := Finset.Ico_eq_empty_iff.1 all.symm
  rw [front_of_free free] at le past
  have behind : queue.pass.front = queue.serving + 1 := rfl
  refine ⟨by rw [behind]; exact Nat.succ_le_succ le, ?_⟩
  rw [behind, pass, none]
  exact (Finset.Ico_eq_empty (by dsimp only; omega)).symm

theorem leave_front (held : queue.active = true) : queue.leave.front = queue.front := by
  rw [front, front, leave, held]
  rfl

theorem leave_sound (sound : queue.Sound) (held : queue.active = true) : queue.leave.Sound := by
  refine ⟨?_, fun ticket member => ?_⟩
  · rw [leave_front held]
    exact sound.front_le
  · rw [leave_front held]
    exact sound.bounds ticket member

theorem leave_inOrder (inOrder : queue.InOrder) (held : queue.active = true) :
    queue.leave.InOrder := by
  refine ⟨?_, ?_⟩
  · rw [leave_front held]
    exact inOrder.1
  · rw [leave_front held]
    exact inOrder.2

theorem front_le_realign (sound : queue.Sound) : queue.front ≤ queue.realign.front := by
  have le := sound.front_le
  unfold front realign at *
  dsimp only
  omega

/-- An empty queue is in order again once it is aligned. -/
theorem realign_inOrder (sound : queue.Sound) (none : queue.waiting = ∅) :
    queue.realign.InOrder := by
  have le := sound.front_le
  have isNext : queue.realign.front = queue.next := by
    unfold front realign at *
    dsimp only
    omega
  refine ⟨isNext.le, ?_⟩
  rw [isNext, realign, none]
  exact (Finset.Ico_self _).symm

end TicketQueue

section Clients

variable {Client : Type*} [DecidableEq Client]

/-- Every ticket that waits is held by one client. -/
structure TicketHolders (ticketOf : Client → Option Nat) (waiting : Finset Nat) : Prop where
  held : ∀ ticket, ticket ∈ waiting ↔ ∃ client, ticketOf client = some ticket
  distinct : ∀ {a b ticket}, ticketOf a = some ticket → ticketOf b = some ticket → a = b

variable {ticketOf : Client → Option Nat} {waiting : Finset Nat} {self : Client} {ticket : Nat}

theorem TicketHolders.gain (holders : TicketHolders ticketOf waiting) (none : ticketOf self = none)
    (fresh : ticket ∉ waiting) :
    TicketHolders (Function.update ticketOf self (some ticket)) (insert ticket waiting) := by
  have other : ∀ client, ticketOf client ≠ some ticket :=
    fun client has => fresh ((holders.held ticket).2 ⟨client, has⟩)
  refine ⟨fun drawn => ?_, fun {a b drawn} first second => ?_⟩
  · rw [Finset.mem_insert, holders.held]
    constructor
    · rintro (rfl | ⟨client, has⟩)
      · exact ⟨self, Function.update_self self _ ticketOf⟩
      · refine ⟨client, ?_⟩
        rw [Function.update_of_ne, has]
        rintro rfl
        rw [none] at has
        cases has
    · rintro ⟨client, has⟩
      by_cases here : client = self
      · subst here
        rw [Function.update_self] at has
        exact Or.inl (Option.some.inj has).symm
      · rw [Function.update_of_ne here] at has
        exact Or.inr ⟨client, has⟩
  · by_cases hereA : a = self <;> by_cases hereB : b = self
    · rw [hereA, hereB]
    · rw [hereA, Function.update_self] at first
      rw [Function.update_of_ne hereB, ← first] at second
      exact absurd second (other b)
    · rw [hereB, Function.update_self] at second
      rw [Function.update_of_ne hereA, ← second] at first
      exact absurd first (other a)
    · rw [Function.update_of_ne hereA] at first
      rw [Function.update_of_ne hereB] at second
      exact holders.distinct first second

theorem TicketHolders.lose (holders : TicketHolders ticketOf waiting)
    (has : ticketOf self = some ticket) :
    TicketHolders (Function.update ticketOf self none) (waiting.erase ticket) := by
  have kept : ∀ {client drawn}, Function.update ticketOf self none client = some drawn →
      client ≠ self ∧ ticketOf client = some drawn := by
    intro client drawn found
    by_cases here : client = self
    · rw [here, Function.update_self] at found
      cases found
    · rw [Function.update_of_ne here] at found
      exact ⟨here, found⟩
  refine ⟨fun drawn => ?_, fun first second => holders.distinct (kept first).2 (kept second).2⟩
  rw [Finset.mem_erase, holders.held]
  constructor
  · rintro ⟨differs, client, found⟩
    refine ⟨client, ?_⟩
    rw [Function.update_of_ne, found]
    rintro rfl
    rw [has] at found
    exact differs (Option.some.inj found).symm
  · rintro ⟨client, found⟩
    obtain ⟨elsewhere, found⟩ := kept found
    refine ⟨?_, client, found⟩
    rintro rfl
    exact elsewhere (holders.distinct found has)

/-- The flag says whether a client is in the lane, and no two are. -/
structure LaneOccupied (inLane : Client → Bool) (active : Bool) : Prop where
  active_iff : active = true ↔ ∃ client, inLane client = true
  single : ∀ {a b}, inLane a = true → inLane b = true → a = b

variable {inLane : Client → Bool} {active : Bool}

theorem LaneOccupied.enter (free : LaneOccupied inLane false) (self : Client) :
    LaneOccupied (Function.update inLane self true) true := by
  have nobody : ∀ client, inLane client ≠ true :=
    fun client here => Bool.false_ne_true (free.active_iff.2 ⟨client, here⟩)
  have only : ∀ {client}, Function.update inLane self true client = true → client = self := by
    intro client here
    by_contra elsewhere
    rw [Function.update_of_ne elsewhere] at here
    exact nobody client here
  refine ⟨iff_of_true rfl ⟨self, Function.update_self self true inLane⟩, fun first second => ?_⟩
  rw [only first, only second]

theorem LaneOccupied.leave (occupied : LaneOccupied inLane active) (here : inLane self = true) :
    LaneOccupied (Function.update inLane self false) false := by
  have nobody : ∀ client, Function.update inLane self false client ≠ true := by
    intro client still
    by_cases same : client = self
    · rw [same, Function.update_self] at still
      cases still
    · rw [Function.update_of_ne same] at still
      exact same (occupied.single still here)
  refine ⟨iff_of_false Bool.false_ne_true ?_, fun {a _} first => absurd first (nobody a)⟩
  rintro ⟨client, still⟩
  exact nobody client still

omit [DecidableEq Client] in
theorem LaneOccupied.nobody (none : ∀ client, inLane client = false) :
    LaneOccupied inLane false := by
  refine ⟨iff_of_false Bool.false_ne_true ?_, fun {a _} first => ?_⟩
  · rintro ⟨client, here⟩
    exact absurd here (Bool.eq_false_iff.1 (none client))
  · exact absurd first (Bool.eq_false_iff.1 (none a))

end Clients

end Miare.Misc
