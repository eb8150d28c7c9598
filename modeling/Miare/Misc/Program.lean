import Mathlib.Tactic

/-!
# Programs that throw

A program runs over a state and returns or throws; what it did before a throw stays.  `Ends` states
how a program ends, with a condition for each way, and has one rule for each construct.
-/

namespace Miare.Misc

/-- A program over a state. -/
abbrev Program (ε σ α : Type) : Type := EStateM ε σ α

variable {ε σ α β : Type}

/-- The program returns in a state as `returns` says or throws in one as `throws` says. -/
def Ends (program : Program ε σ α) (start : σ) (returns : α → σ → Prop) (throws : ε → σ → Prop) :
    Prop :=
  match program start with
  | .ok value after => returns value after
  | .error error after => throws error after

/-- A call outside the program. -/
def attempt (outcome : Except ε α) : Program ε σ α :=
  match outcome with
  | .ok value => pure value
  | .error error => throw error

/-- A check of the program. -/
def demand (error : ε) (condition : Prop) [Decidable condition] : Program ε σ Unit :=
  if condition then pure () else throw error

/-- A program goes on where its first part has returned. -/
theorem run_bind {program : Program ε σ α} {next : α → Program ε σ β} {start after : σ} {value : α}
    (ran : program start = .ok value after) : (program >>= next) start = next value after := by
  change EStateM.bind program next start = next value after
  unfold EStateM.bind
  rw [ran]

/-- A program ends where its first part has thrown. -/
theorem run_bind_error {program : Program ε σ α} {next : α → Program ε σ β} {start after : σ}
    {error : ε} (ran : program start = .error error after) :
    (program >>= next) start = .error error after := by
  change EStateM.bind program next start = .error error after
  unfold EStateM.bind
  rw [ran]

theorem run_demand {error : ε} {condition : Prop} [Decidable condition] {start : σ}
    (holds : condition) : (demand error condition : Program ε σ Unit) start = .ok () start := by
  unfold demand
  rw [if_pos holds]
  rfl

theorem run_attempt {outcome : Except ε α} {value : α} {start : σ} (gives : outcome = .ok value) :
    (attempt outcome : Program ε σ α) start = .ok value start := by
  rw [gives]
  rfl

theorem run_modify (change : σ → σ) (start : σ) :
    (modify change : Program ε σ Unit) start = .ok () (change start) := rfl

theorem run_get (start : σ) : (get : Program ε σ σ) start = .ok start start := rfl

section Rules

variable {program : Program ε σ α} {start : σ} {returns : α → σ → Prop} {throws : ε → σ → Prop}

theorem Ends.ok {value : α} {after : σ} (ends : Ends program start returns throws)
    (ran : program start = .ok value after) : returns value after := by
  unfold Ends at ends
  rw [ran] at ends
  exact ends

theorem Ends.error {error : ε} {after : σ} (ends : Ends program start returns throws)
    (ran : program start = .error error after) : throws error after := by
  unfold Ends at ends
  rw [ran] at ends
  exact ends

/-- How a program ends, from its result. -/
theorem Ends.of (ok : ∀ value after, program start = .ok value after → returns value after)
    (error : ∀ error after, program start = .error error after → throws error after) :
    Ends program start returns throws := by
  unfold Ends
  cases ran : program start with
  | ok value after => exact ok value after ran
  | error raised after => exact error raised after ran

theorem Ends.imp {returns' : α → σ → Prop} {throws' : ε → σ → Prop}
    (ends : Ends program start returns throws)
    (ok : ∀ value after, returns value after → returns' value after)
    (error : ∀ error after, throws error after → throws' error after) :
    Ends program start returns' throws' := by
  refine .of ?_ ?_
  · intro value after ran
    exact ok value after (ends.ok ran)
  · intro raised after ran
    exact error raised after (ends.error ran)

theorem ends_pure {value : α} (holds : returns value start) :
    Ends (pure value) start returns throws :=
  holds

theorem ends_throw {error : ε} (holds : throws error start) :
    Ends (throw error : Program ε σ α) start returns throws :=
  holds

theorem ends_bind {next : α → Program ε σ β} {last : β → σ → Prop}
    (first : Ends program start (fun value after => Ends (next value) after last throws) throws) :
    Ends (program >>= next) start last throws := by
  unfold Ends at first ⊢
  change match EStateM.bind program next start with
    | .ok value after => last value after
    | .error error after => throws error after
  unfold EStateM.bind
  cases ran : program start with
  | ok value after =>
    rw [ran] at first
    exact first
  | error raised after =>
    rw [ran] at first
    exact first

theorem ends_tryCatch {handler : ε → Program ε σ α}
    (body : Ends program start returns fun error after =>
      Ends (handler error) after returns throws) :
    Ends (tryCatch program handler) start returns throws := by
  unfold Ends at body ⊢
  change match EStateM.tryCatch program handler start with
    | .ok value after => returns value after
    | .error error after => throws error after
  unfold EStateM.tryCatch
  cases ran : program start with
  | ok value after =>
    rw [ran] at body
    exact body
  | error raised after =>
    rw [ran] at body
    exact body

theorem ends_get {returns : σ → σ → Prop} (holds : returns start start) :
    Ends (get : Program ε σ σ) start returns throws :=
  holds

theorem ends_modify {change : σ → σ} {returns : Unit → σ → Prop}
    (holds : returns () (change start)) :
    Ends (modify change : Program ε σ Unit) start returns throws :=
  holds

theorem ends_attempt {outcome : Except ε α}
    (ok : ∀ value, outcome = .ok value → returns value start)
    (error : ∀ raised, outcome = .error raised → throws raised start) :
    Ends (attempt outcome) start returns throws := by
  cases outcome with
  | ok value => exact ok value rfl
  | error raised => exact error raised rfl

theorem ends_demand {raised : ε} {condition : Prop} [Decidable condition]
    {returns : Unit → σ → Prop} (ok : condition → returns () start)
    (error : ¬condition → throws raised start) :
    Ends (demand raised condition) start returns throws := by
  unfold demand
  by_cases holds : condition
  · rw [if_pos holds]
    exact ok holds
  · rw [if_neg holds]
    exact error holds

theorem ends_ite {condition : Prop} [Decidable condition] {other : Program ε σ α}
    (yes : condition → Ends program start returns throws)
    (no : ¬condition → Ends other start returns throws) :
    Ends (if condition then program else other) start returns throws := by
  by_cases holds : condition
  · rw [if_pos holds]
    exact yes holds
  · rw [if_neg holds]
    exact no holds

end Rules

/-! ## What a program leaves alone -/

/-- However the program ends, the state behind it is related to the one before. -/
def Moves (R : σ → σ → Prop) (program : Program ε σ α) : Prop :=
  ∀ start, Ends program start (fun _ after => R start after) fun _ after => R start after

namespace Moves

variable {R : σ → σ → Prop}

theorem bind [IsTrans σ R] {program : Program ε σ α} {next : α → Program ε σ β}
    (first : Moves R program) (rest : ∀ value, Moves R (next value)) :
    Moves R (program >>= next) := by
  intro start
  apply ends_bind
  refine (first start).imp ?_ fun _ _ related => related
  intro value middle before
  refine (rest value middle).imp ?_ ?_
  · intro _ after later
    exact IsTrans.trans _ _ _ before later
  · intro _ after later
    exact IsTrans.trans _ _ _ before later

theorem modify {change : σ → σ} (related : ∀ state, R state (change state)) :
    Moves R (modify change : Program ε σ Unit) :=
  fun start => ends_modify (related start)

theorem ite {condition : Prop} [Decidable condition] {program other : Program ε σ α}
    (yes : Moves R program) (no : Moves R other) :
    Moves R (if condition then program else other) :=
  fun start => ends_ite (fun _ => yes start) fun _ => no start

section Steady

variable [Std.Refl R]

theorem pure (value : α) : Moves R (pure value : Program ε σ α) :=
  fun start => ends_pure (Std.Refl.refl start)

theorem throw (error : ε) : Moves R (throw error : Program ε σ α) :=
  fun start => ends_throw (Std.Refl.refl start)

theorem get : Moves R (get : Program ε σ σ) :=
  fun start => ends_get (Std.Refl.refl start)

theorem attempt (outcome : Except ε α) : Moves R (attempt outcome : Program ε σ α) :=
  fun start => ends_attempt (fun _ _ => Std.Refl.refl start) fun _ _ => Std.Refl.refl start

theorem demand (error : ε) (condition : Prop) [Decidable condition] :
    Moves R (demand error condition : Program ε σ Unit) :=
  fun start => ends_demand (fun _ => Std.Refl.refl start) fun _ => Std.Refl.refl start

end Steady

end Moves

/-! ## Programs that are stopped -/

/-- The program does what the other one does, or is stopped on the way. -/
def Interrupts (stop : ε) (program other : Program ε σ α) : Prop :=
  ∀ start, program start = other start ∨ ∃ after, program start = .error stop after

/-- The outcome is that of the other computation, or the stop. -/
def StoppedAt (stop : ε) (outcome other : Except ε α) : Prop :=
  outcome = other ∨ outcome = .error stop

theorem StoppedAt.refl {stop : ε} (outcome : Except ε α) : StoppedAt stop outcome outcome :=
  Or.inl rfl

theorem StoppedAt.bind {stop : ε} {outcome other : Except ε α} {next follow : α → Except ε β}
    (first : StoppedAt stop outcome other)
    (rest : ∀ value, StoppedAt stop (next value) (follow value)) :
    StoppedAt stop (outcome >>= next) (other >>= follow) := by
  rcases first with rfl | rfl
  · cases outcome with
    | ok value => exact rest value
    | error error => exact Or.inl rfl
  · exact Or.inr rfl

namespace Interrupts

variable {stop : ε}

theorem refl (program : Program ε σ α) : Interrupts stop program program :=
  fun _ => Or.inl rfl

theorem bind {program other : Program ε σ α} {next follow : α → Program ε σ β}
    (first : Interrupts stop program other) (rest : ∀ value, Interrupts stop (next value) (follow value)) :
    Interrupts stop (program >>= next) (other >>= follow) := by
  intro start
  change EStateM.bind program next start = EStateM.bind other follow start ∨
    ∃ after, EStateM.bind program next start = .error stop after
  unfold EStateM.bind
  rcases first start with same | ⟨after, stopped⟩
  · rw [same]
    cases other start with
    | ok value middle => exact rest value middle
    | error error after => exact Or.inl rfl
  · rw [stopped]
    exact Or.inr ⟨after, rfl⟩

theorem attempt {outcome other : Except ε α} (same : StoppedAt stop outcome other) :
    Interrupts stop (attempt outcome : Program ε σ α) (Misc.attempt other) := by
  intro start
  rcases same with rfl | rfl
  · exact Or.inl rfl
  · exact Or.inr ⟨start, rfl⟩

end Interrupts

end Miare.Misc
