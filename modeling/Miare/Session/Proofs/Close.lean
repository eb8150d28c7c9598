import Miare.Session.Close

/-!
# A failed close

`close()` moves the session to `Closing` and catches only `DatabaseError`s before its file
operations.  Any other exception there leaves the session in `Closing`, where no later `close()` is
admitted; with `DatabaseError`s alone a failed close can be tried again.
-/

namespace Miare

open Misc

/-- Both sessions are in the same state. -/
def SameState (session after : Session) : Prop := after.state = session.state

instance sameState_refl : Std.Refl SameState := ⟨fun _ => rfl⟩

instance sameState_trans : IsTrans Session SameState := ⟨fun _ _ _ first second => second.trans first⟩

/-! ## The part before the file operations -/

/-- `checkpointEligibleRetirements` up to the first file operation. -/
def prepareCheckpoint (makeWriteBlobState : Except Raised Unit) (commit : CommitCalls) :
    SessionProgram (Option (Nat × PreparedCommit)) := do
  let session ← get
  if session.eligibleRetirement then
    attempt makeWriteBlobState
    let session ← get
    let generation := (session.format.generation + 1) % 2 ^ 64
    demand (.error (databaseError .resourceLimit "database generation is exhausted"))
      (generation ≠ 0)
    let prepared ← attempt commit.prepare
    pure (some (generation, prepared))
  else pure none

/-- The rest of a checkpoint. -/
def persistCheckpoint (commit : CommitCalls) (cause : RecoveryCause) :
    Option (Nat × PreparedCommit) → SessionProgram Unit
  | none => pure ()
  | some (generation, prepared) =>
    match commit.persist with
    | .ok () => modify fun session => session.published generation prepared
    | .error (publicationStarted, raised) => failCommit commit (some cause) publicationStarted raised

/-- Reselection, lazy loading and the preparation of a checkpoint. -/
def preflightForClose (calls : CloseCalls) (expected : DatabaseState) :
    SessionProgram (Option (Nat × PreparedCommit)) := do
  if expected = .recoveryRequired then reselectSessionForClose calls else pure ()
  ensureValuesLoaded calls.loadExactValues
  ensureBlobsLoaded calls.loadBlobCatalog
  ensureAllocatorSnapshotLoaded calls.loadAllocatorSnapshot
  prepareCheckpoint calls.makeWriteBlobState calls.commit

theorem checkpointEligibleRetirements_eq (makeWriteBlobState : Except Raised Unit)
    (commit : CommitCalls) (cause : RecoveryCause) :
    checkpointEligibleRetirements makeWriteBlobState commit cause =
      prepareCheckpoint makeWriteBlobState commit >>= persistCheckpoint commit cause := by
  unfold checkpointEligibleRetirements prepareCheckpoint commitExact
  rw [bind_assoc]
  congr 1
  funext session
  split
  · simp only [bind_assoc, pure_bind]
    rfl
  · rw [pure_bind]
    rfl

theorem resolveForClose_eq (calls : CloseCalls) (expected : DatabaseState) :
    resolveForClose calls expected =
      preflightForClose calls expected >>=
        persistCheckpoint calls.commit .closePersistenceFailed := by
  unfold resolveForClose preflightForClose
  rw [checkpointEligibleRetirements_eq]
  split
  · simp only [bind_assoc]
  · simp only [bind_assoc]

theorem ensureValuesLoaded_sameState (outcome : Except Raised Unit) :
    Moves SameState (ensureValuesLoaded outcome) := by
  refine .bind .get fun session => .ite (.pure _) (.bind (.attempt _) fun _ => .modify ?_)
  intro session
  rfl

theorem ensureBlobsLoaded_sameState (outcome : Except Raised Unit) :
    Moves SameState (ensureBlobsLoaded outcome) := by
  refine .bind .get fun session => .ite (.pure _) (.bind (.attempt _) fun _ => .modify ?_)
  intro session
  rfl

theorem ensureAllocatorSnapshotLoaded_sameState (outcome : Except Raised AllocatorSnapshot) :
    Moves SameState (ensureAllocatorSnapshotLoaded outcome) := by
  refine .bind .get fun session => .ite (.pure _) (.bind (.attempt _) fun _ => .modify ?_)
  intro session
  rfl

theorem reselectSessionForClose_sameState (calls : CloseCalls) :
    Moves SameState (reselectSessionForClose calls) := by
  apply Moves.bind (.attempt _)
  intro selected
  cases selected with
  | none => exact .throw _
  | some publication =>
    refine .bind (.modify fun _ => rfl) fun _ => .bind (.attempt _) fun _ => .modify ?_
    intro session
    rfl

theorem prepareCheckpoint_sameState (makeWriteBlobState : Except Raised Unit)
    (commit : CommitCalls) : Moves SameState (prepareCheckpoint makeWriteBlobState commit) := by
  refine .bind .get fun _ => .ite (.bind (.attempt _) fun _ => .bind .get fun _ => ?_) (.pure _)
  exact .bind (.demand _ _) fun _ => .bind (.attempt _) fun _ => .pure _

theorem preflightForClose_sameState (calls : CloseCalls) (expected : DatabaseState) :
    Moves SameState (preflightForClose calls expected) := by
  have rest : Moves SameState (do
      ensureValuesLoaded calls.loadExactValues
      ensureBlobsLoaded calls.loadBlobCatalog
      ensureAllocatorSnapshotLoaded calls.loadAllocatorSnapshot
      prepareCheckpoint calls.makeWriteBlobState calls.commit) := by
    refine .bind (ensureValuesLoaded_sameState _) fun _ => ?_
    refine .bind (ensureBlobsLoaded_sameState _) fun _ => ?_
    refine .bind (ensureAllocatorSnapshotLoaded_sameState _) fun _ => ?_
    exact prepareCheckpoint_sameState _ _
  apply Moves.ite
  · exact .bind (reselectSessionForClose_sameState calls) fun _ => rest
  · exact rest

/-! ## Failures of file operations -/

theorem failCommit_ends (calls : CommitCalls) (cause : Option RecoveryCause) (started : Bool)
    (raised : Raised) (session : Session) :
    Ends (failCommit calls cause started raised) session (fun _ _ => False)
      fun _ after => after.state = .recoveryRequired := by
  apply ends_bind
  apply ends_modify
  apply ends_ite
  · intro _
    cases cause with
    | none => exact ends_bind (ends_modify (ends_throw rfl))
    | some cause => exact ends_bind (ends_modify (ends_throw rfl))
  · intro _
    exact ends_bind (ends_modify (ends_throw rfl))

/-- A checkpoint that fails in its file operations needs recovery. -/
theorem persistCheckpoint_ends (commit : CommitCalls) (cause : RecoveryCause)
    (prepared : Option (Nat × PreparedCommit)) (session : Session) :
    Ends (persistCheckpoint commit cause prepared) session
      (fun _ after => after.state = session.state)
      fun _ after => after.state = .recoveryRequired := by
  cases prepared with
  | none => exact ends_pure rfl
  | some prepared =>
    obtain ⟨generation, prepared⟩ := prepared
    unfold persistCheckpoint
    cases commit.persist with
    | ok done => exact ends_modify rfl
    | error failure =>
      refine (failCommit_ends _ _ _ _ session).imp ?_ fun _ _ stopped => stopped
      intro _ _ impossible
      exact impossible.elim

/-- The states from which a close is admitted. -/
def DatabaseState.Admitted (state : DatabaseState) : Prop :=
  state = .opened ∨ state = .recoveryRequired

theorem consolidateAbandonedTailForClose_ends (calls : CloseCalls) {previousState : DatabaseState}
    (previous : previousState.Admitted) (session : Session) :
    Ends (consolidateAbandonedTailForClose calls previousState) session (fun _ _ => True)
      fun _ after => after.state.Admitted := by
  apply ends_bind
  apply ends_tryCatch
  apply ends_attempt
  · intro physicalBytes _
    apply ends_bind
    apply ends_get
    apply ends_ite
    · intro _
      exact ends_bind (ends_modify (ends_throw (Or.inr rfl)))
    · intro _
      apply ends_ite
      · intro _
        exact ends_modify trivial
      · intro _
        apply ends_tryCatch
        refine .of (fun _ _ _ => trivial) ?_
        intro raised after _
        exact ends_bind (ends_modify (ends_throw (Or.inr rfl)))
  · intro raised _
    exact ends_bind (ends_modify (ends_throw previous))

/-- The handler restores a state from which a close is admitted if it catches the exception. -/
theorem restoreForClose_ends {expected : DatabaseState} {raised : Raised} {session : Session}
    (previous : expected.Admitted)
    (caught : raised.IsDatabaseError ∨ session.state = .recoveryRequired) :
    Ends (restoreForClose expected raised) session (fun _ _ => False)
      fun _ after => after.state.Admitted := by
  apply ends_ite
  · intro _
    refine ends_bind (ends_modify (ends_throw ?_))
    by_cases stopped : session.state = .recoveryRequired
    · rw [if_pos stopped]
      exact Or.inr stopped
    · rw [if_neg stopped]
      by_cases corrupt : raised.code = some .corrupt
      · rw [if_pos corrupt]
        exact Or.inr rfl
      · rw [if_neg corrupt]
        exact previous
  · intro uncaught
    rcases caught with isDatabase | stopped
    · exact absurd isDatabase uncaught
    · exact ends_throw (Or.inr stopped)

/-- An exception of another class passes the handler. -/
theorem restoreForClose_uncaught {expected : DatabaseState} {raised : Raised}
    (uncaught : ¬raised.IsDatabaseError) (session : Session) :
    restoreForClose expected raised session = .error raised session := by
  unfold restoreForClose
  rw [if_neg uncaught]
  rfl

/-! ## Closing again -/

/-- The session when `close()` begins its work. -/
def Session.closing (session : Session) (calls : CloseCalls) : Session :=
  { session with state := .closing }.settle calls.settled

/-- Reselection, lazy loading and the preparation of a checkpoint throw only `DatabaseError`s. -/
def CloseCalls.Guarded (calls : CloseCalls) (session : Session) : Prop :=
  calls.settled.liveTransactions = 0 →
    session.state = .opened ∨ session.recoveryCause ≠ .confirmedCorruption →
      ∀ raised after, preflightForClose calls session.state (session.closing calls) =
        .error raised after → raised.IsDatabaseError

/-- The resolution fails in a state that allows another close, or with an exception that nothing
catches. -/
theorem resolve_ends {calls : CloseCalls} {expected : DatabaseState} {session : Session}
    (previous : expected.Admitted)
    (guarded : ∀ raised after, preflightForClose calls expected session = .error raised after →
      raised.IsDatabaseError) :
    Ends (tryCatch (resolveForClose calls expected) (restoreForClose expected)) session
      (fun _ _ => True) fun _ after => after.state.Admitted := by
  apply ends_tryCatch
  rw [resolveForClose_eq]
  apply ends_bind
  refine .of ?_ ?_
  · intro prepared middle _
    refine (persistCheckpoint_ends _ _ prepared middle).imp (fun _ _ _ => trivial) ?_
    intro raised after stopped
    refine (restoreForClose_ends previous (Or.inr stopped)).imp ?_ fun _ _ restored => restored
    intro _ _ impossible
    exact impossible.elim
  · intro raised after failed
    refine (restoreForClose_ends previous (Or.inl (guarded raised after failed))).imp ?_
      fun _ _ restored => restored
    intro _ _ impossible
    exact impossible.elim

theorem close_ends {calls : CloseCalls} {session : Session} (admitted : session.state.Admitted)
    (guarded : calls.Guarded session) :
    Ends (close calls) session (fun _ _ => True) fun _ after => after.state.Admitted := by
  apply ends_bind
  apply ends_get
  apply ends_bind
  apply ends_demand
  · intro _
    apply ends_bind
    apply ends_modify
    apply ends_bind
    apply ends_modify
    apply ends_ite
    · intro _
      exact ends_bind (ends_modify (ends_throw admitted))
    · intro alone
      apply ends_bind
      apply ends_get
      apply ends_ite
      · intro resolves
        apply ends_bind
        refine (resolve_ends admitted (guarded (not_not.1 alone) resolves)).imp ?_
          fun _ _ restored => restored
        intro _ middle _
        apply ends_bind
        refine (consolidateAbandonedTailForClose_ends calls admitted middle).imp ?_
          fun _ _ restored => restored
        intro _ after _
        exact ends_modify trivial
      · intro _
        exact ends_modify trivial
  · intro rejected
    exact absurd admitted rejected

/-- An exception of another class than `DatabaseError` before the file operations leaves `Closing`
behind. -/
theorem close_stuck {calls : CloseCalls} {session after : Session} {raised : Raised}
    (admitted : session.state.Admitted) (alone : calls.settled.liveTransactions = 0)
    (resolves : session.state = .opened ∨ session.recoveryCause ≠ .confirmedCorruption)
    (failed : preflightForClose calls session.state (session.closing calls) = .error raised after)
    (uncaught : ¬raised.IsDatabaseError) :
    Ends (close calls) session (fun _ _ => False) fun _ after => after.state = .closing := by
  have closing : after.state = .closing :=
    (preflightForClose_sameState calls session.state (session.closing calls)).error failed
  apply ends_bind
  apply ends_get
  apply ends_bind
  apply ends_demand
  · intro _
    apply ends_bind
    apply ends_modify
    apply ends_bind
    apply ends_modify
    apply ends_ite
    · intro live
      exact absurd alone live
    · intro _
      apply ends_bind
      apply ends_get
      apply ends_ite
      · intro _
        apply ends_bind
        apply ends_tryCatch
        rw [resolveForClose_eq]
        apply ends_bind
        refine .of ?_ ?_
        · intro prepared middle ran
          cases failed.symm.trans ran
        · intro thrown middle ran
          obtain ⟨rfl, rfl⟩ := EStateM.Result.error.inj (failed.symm.trans ran)
          refine .of ?_ ?_
          · intro _ _ restored
            rw [restoreForClose_uncaught uncaught] at restored
            cases restored
          · intro _ _ restored
            rw [restoreForClose_uncaught uncaught] at restored
            obtain ⟨-, rfl⟩ := EStateM.Result.error.inj restored
            exact closing
      · intro unresolved
        exact absurd resolves unresolved
  · intro rejected
    exact absurd admitted rejected

/-- A failed close leaves a state from which another close is admitted exactly when reselection, lazy
loading and checkpoint preparation throw no exception but `DatabaseError`s. -/
theorem close_retriable_iff (calls : CloseCalls) {session : Session}
    (admitted : session.state = .opened ∨ session.state = .recoveryRequired) :
    (∀ raised after, close calls session = .error raised after →
      after.state = .opened ∨ after.state = .recoveryRequired) ↔ calls.Guarded session := by
  constructor
  · intro retriable alone resolves raised after failed
    by_contra uncaught
    have stuck := close_stuck admitted alone resolves failed uncaught
    cases ran : close calls session with
    | ok value last => exact stuck.ok ran
    | error thrown last =>
      have isClosing := stuck.error ran
      rcases retriable thrown last ran with isOpen | isRecovery
      · rw [isClosing] at isOpen
        cases isOpen
      · rw [isClosing] at isRecovery
        cases isRecovery
  · intro guarded raised after failed
    exact (close_ends admitted guarded).error failed

/-- A session of the first generation. -/
def firstSession : Session :=
  { format := { generation := 1, highWaterBytes := 0 }
    allocatorSnapshotLoaded := true
    allocator :=
      { liveBlocks := 0, retiredBlocksByGeneration := [], blobRetiredBlocksByGeneration := [] } }

/-- Calls of which only the loading of the ordered values fails. -/
def failedLoad (raised : Raised) : CloseCalls :=
  { settled := { activeReaders := [], writerActive := false, liveTransactions := 0 }
    selectPublication := .ok none
    allocateCursorTree := .ok ()
    loadExactValues := .error raised
    loadBlobCatalog := .ok ()
    loadAllocatorSnapshot := .ok firstSession.allocator
    makeWriteBlobState := .ok ()
    commit :=
      { prepare := .ok { highWaterBytes := 0, allocator := firstSession.allocator }
        resize := .ok ()
        writes := []
        extentBarrier := .ok ()
        writeSlot := .ok ()
        slotBarrier := .ok ()
        size := .ok 0 }
    size := .ok 0
    resize := .ok ()
    barrier := .ok () }

/-- An I/O error of the load gives the session back as it was. -/
theorem close_retriable_io :
    (firstSession.state = .opened ∨ firstSession.state = .recoveryRequired) ∧
      ∀ raised after,
        close (failedLoad (.error (databaseError .io "read failed"))) firstSession =
          .error raised after → after.state = .opened ∨ after.state = .recoveryRequired := by
  refine ⟨Or.inl rfl, (close_retriable_iff _ (Or.inl rfl)).2 ?_⟩
  intro _ _ raised after failed
  cases failed
  rfl

/-- A failed allocation in the load leaves `Closing` behind, and every later `close()` is
refused. -/
theorem close_allocationFailure_stuck :
    ∃ after, close (failedLoad .other) firstSession = .error .other after ∧
      after.state = .closing ∧
      ∀ calls, close calls after =
        .error (.error (contractError .invalidState "database is not open")) after :=
  ⟨_, rfl, rfl, fun _ => rfl⟩

end Miare
