import Miare.Blob.Cache
import Miare.Blob.Proofs.StreamExact
import Miare.Format.Proofs.FileStore

/-!
# The accounts of the chunk cache are exact

At each place of its code a reader has a share of `usedBytes`: the size of its chunk, the bytes it
has reserved for one, or nothing.  A step of a reader moves the counter by as much as its share, so
the counter is what all readers hold together, whatever their order.  Outside the locked section
the shares are the sizes of the chunks.
-/

namespace Miare

open Misc

variable {L : Limits}

theorem OpenedDatabase.readAuthenticatedExtent_length {opened : OpenedDatabase}
    {providers : ProviderSet} {validation : OpenedFormat} {file payload : Bytes}
    {reference : ExtentReference} {context : ExtentContext} {length : Nat} {eligible : Bool}
    (read : opened.readAuthenticatedExtent L providers validation file reference context
      (some length) eligible = .ok payload) : payload.length = length := by
  obtain ⟨input, stored, extent⟩ := OpenedDatabase.readAuthenticatedExtent_eq_ok.1 read
  obtain ⟨-, -, -, -, -, expected, -⟩ := extent.representation
  rw [extent.payload_length]
  exact expected length rfl

theorem lt_of_le_uint64Max {value : Nat} (fits : value ≤ uint64Max) : value < 2 ^ 64 := by
  unfold uint64Max at fits
  omega

theorem SharedCache.subtract_usedBytes {shared : SharedCache} {bytes : Nat}
    (covered : bytes ≤ shared.usedBytes) (fits : shared.usedBytes ≤ uint64Max) :
    (shared.subtract bytes).usedBytes = shared.usedBytes - bytes := by
  have less := wordSub_eq covered (lt_of_le_uint64Max fits)
  simpa only [SharedCache.subtract] using less

theorem SharedCache.subtract_mutex (shared : SharedCache) (bytes : Nat) :
    (shared.subtract bytes).mutex = shared.mutex := by
  -- unfolded first: the kernel would otherwise compare the counters, as words
  unfold SharedCache.subtract
  rfl

namespace CachingReader

/-- Bytes of the cached chunk. -/
def chunkBytes (reader : CachingReader) : Nat :=
  (reader.decodedChunk.map fun chunk => chunk.2.length).getD 0

/-- A reader is open until its `close` has given the chunk back. -/
def Open (reader : CachingReader) : Prop :=
  reader.active = true ∨ reader.phase = .closing

instance decidableOpen (reader : CachingReader) : Decidable reader.Open :=
  inferInstanceAs (Decidable (_ ∨ _))

/-- The decoded bytes that an open reader caches. -/
def cachedBytes (reader : CachingReader) : Nat :=
  if reader.Open then reader.chunkBytes else 0

/-- The part of `usedBytes` that the reader accounts for. -/
def share (L : Limits) (reader : CachingReader) : Nat :=
  match reader.phase with
  | .idle => if reader.active then reader.chunkBytes else 0
  | .evicting .. | .releasing | .closed => 0
  | .reserved offset _ | .failed offset => reader.expectedAt L offset
  | _ => reader.chunkBytes

/-- What the next step of the reader subtracts from `usedBytes`. -/
def nextSubtraction (L : Limits) (reader : CachingReader) : Nat :=
  match reader.phase with
  | .locked offset _ =>
    if reader.decodedChunk.map Prod.fst = some (offset / L.blobChunkBytes) then 0
    else reader.chunkBytes
  | .failed offset => reader.expectedAt L offset
  | .closing => reader.chunkBytes
  | _ => 0

/-- A reader inside `read` is active, and has no chunk from the release of the old one to the
arrival of the new one; a reader that is closed or being closed is not active. -/
def Sound (reader : CachingReader) : Prop :=
  match reader.phase with
  | .idle => True
  | .turn .. | .locked .. | .evicting .. | .copying .. => reader.active = true
  | .released .. | .comparing .. | .reserved .. | .failed .. | .unwinding =>
    reader.active = true ∧ reader.decodedChunk = none
  | .closing | .releasing | .closed => reader.active = false

theorem nextSubtraction_le_share (reader : CachingReader) :
    reader.nextSubtraction L ≤ reader.share L := by
  unfold nextSubtraction share
  cases reader.phase <;> simp only [Nat.zero_le, le_refl]
  split
  · exact Nat.zero_le _
  · exact le_rfl

/-- Outside the locked section a reader accounts for the chunk it caches. -/
theorem Sound.share_eq {reader : CachingReader} (sound : reader.Sound)
    (outside : reader.phase.guarded = false) : reader.share L = reader.cachedBytes := by
  obtain ⟨base, active, phase⟩ := reader
  unfold Sound at sound
  unfold share cachedBytes Open
  cases phase <;> simp_all [ReaderPhase.guarded]

/-- A reader that is not open accounts for nothing. -/
theorem Sound.share_eq_zero {reader : CachingReader} (sound : reader.Sound)
    (shut : ¬ reader.Open) : reader.share L = 0 := by
  obtain ⟨base, active, phase⟩ := reader
  unfold Sound at sound
  unfold Open at shut
  unfold share
  cases phase <;> simp_all

end CachingReader

/-- What a step of reader number `index` does to the accounts. -/
structure Advances (L : Limits) (capacity index : Nat) (reader : CachingReader)
    (shared : SharedCache) (advanced : CachingReader) (after : SharedCache) : Prop where
  sound : advanced.Sound
  guards : advanced.phase.guarded = true ↔ after.mutex = some index
  others : ∀ other, other ≠ index → (after.mutex = some other ↔ shared.mutex = some other)
  balance : after.usedBytes + reader.share L = shared.usedBytes + advanced.share L
  bounded : after.usedBytes ≤ capacity

section Steps

variable {capacity self : Nat} {reader advanced : CachingReader} {shared after : SharedCache}
  {environment : CacheEnvironment L}

/-- A step that leaves the lock alone. -/
theorem Advances.of_same (guards : reader.phase.guarded = true ↔ shared.mutex = some self)
    (sound : advanced.Sound) (place : advanced.phase.guarded = reader.phase.guarded)
    (mutex : after.mutex = shared.mutex)
    (balance : after.usedBytes + reader.share L = shared.usedBytes + advanced.share L)
    (bounded : after.usedBytes ≤ capacity) :
    Advances L capacity self reader shared advanced after where
  sound
  guards := by rw [place, mutex]; exact guards
  others _ _ := by rw [mutex]
  balance
  bounded

/-- A step that takes the lock. -/
theorem Advances.of_lock (free : shared.mutex = none) (sound : advanced.Sound)
    (place : advanced.phase.guarded = true) (mutex : after.mutex = some self)
    (balance : after.usedBytes + reader.share L = shared.usedBytes + advanced.share L)
    (bounded : after.usedBytes ≤ capacity) :
    Advances L capacity self reader shared advanced after where
  sound
  guards := by simp [place, mutex]
  others other different := by simp [free, mutex, different.symm]
  balance
  bounded

/-- A step that gives the lock back. -/
theorem Advances.of_unlock (held : shared.mutex = some self) (sound : advanced.Sound)
    (place : advanced.phase.guarded = false) (mutex : after.mutex = none)
    (balance : after.usedBytes + reader.share L = shared.usedBytes + advanced.share L)
    (bounded : after.usedBytes ≤ capacity) :
    Advances L capacity self reader shared advanced after where
  sound
  guards := by simp [place, mutex]
  others other different := by simp [held, mutex, different.symm]
  balance
  bounded

/-- A step that subtracts the whole share. -/
theorem Advances.of_subtract {bytes : Nat}
    (guards : reader.phase.guarded = true ↔ shared.mutex = some self)
    (covered : reader.share L ≤ shared.usedBytes) (fits : capacity ≤ uint64Max)
    (bounded : shared.usedBytes ≤ capacity) (whole : bytes = reader.share L)
    (sound : advanced.Sound) (place : advanced.phase.guarded = reader.phase.guarded)
    (empty : advanced.share L = 0) :
    Advances L capacity self reader shared advanced (shared.subtract bytes) := by
  rw [← whole] at covered
  have less := SharedCache.subtract_usedBytes covered (bounded.trans fits)
  refine .of_same guards sound place (SharedCache.subtract_mutex _ _) ?_ ?_
  · rw [less, empty, ← whole]
    omega
  · rw [less]
    omega

/-- A step that reserves room, seen to be there. -/
theorem Advances.of_reserve {bytes : Nat}
    (guards : reader.phase.guarded = true ↔ shared.mutex = some self) (fits : capacity ≤ uint64Max)
    (bounded : shared.usedBytes ≤ capacity) (room : bytes ≤ capacity - shared.usedBytes)
    (sound : advanced.Sound) (place : advanced.phase.guarded = reader.phase.guarded)
    (empty : reader.share L = 0) (whole : advanced.share L = bytes) :
    Advances L capacity self reader shared advanced
      { shared with usedBytes := wordAdd shared.usedBytes bytes } := by
  have total : shared.usedBytes + bytes ≤ capacity := by omega
  have sum := wordAdd_eq (lt_of_le_uint64Max (total.trans fits))
  rw [sum]
  refine .of_same guards sound place rfl ?_ ?_
  · rw [empty, whole, Nat.add_zero]
  · dsimp only
    omega

theorem readChunk_length {reader : CachingReader} {offset : Nat} {bytes : Bytes}
    (read : reader.readChunk environment offset = some bytes) :
    bytes.length = reader.expectedAt L offset := by
  unfold CachingReader.readChunk at read
  split at read
  · rename_i view reference _ _
    cases outcome : view.session.opened.readAuthenticatedExtent L view.session.providers
        (view.validation reader.version) view.file reference
        (chunkContext reader.version.id (offset / L.blobChunkBytes))
        (some (reader.expectedAt L offset)) true with
    | error error =>
      rw [outcome] at read
      cases read
    | ok payload =>
      rw [outcome] at read
      cases read
      exact OpenedDatabase.readAuthenticatedExtent_length outcome
  · cases read

/-- Each step of a reader moves the counter and its share alike. -/
theorem advance_spec (fits : capacity ≤ uint64Max) (sound : reader.Sound)
    (guards : reader.phase.guarded = true ↔ shared.mutex = some self)
    (covered : reader.share L ≤ shared.usedBytes) (bounded : shared.usedBytes ≤ capacity)
    (stepped : reader.advance capacity self environment shared = some (advanced, after)) :
    Advances L capacity self reader shared advanced after := by
  obtain ⟨⟨version, position, cached⟩, active, phase⟩ := reader
  cases phase with
  | idle => cases stepped
  | closed => cases stepped
  | turn offset remaining =>
    simp only [CachingReader.advance] at stepped
    split at stepped
    · cases stepped
      refine .of_same guards trivial rfl rfl ?_ bounded
      simp only [CachingReader.Sound] at sound
      simp [CachingReader.share, CachingReader.chunkBytes, sound]
    · split at stepped
      · rename_i free
        cases stepped
        exact .of_lock free sound rfl rfl rfl bounded
      · cases stepped
  | locked offset remaining =>
    simp only [CachingReader.advance] at stepped
    split at stepped
    · cases stepped
      exact .of_same guards ⟨sound, rfl⟩ rfl rfl rfl bounded
    · rename_i chunk
      split at stepped
      · cases stepped
        exact .of_same guards sound rfl rfl rfl bounded
      · cases stepped
        exact .of_subtract guards covered fits bounded rfl sound rfl rfl
  | evicting offset remaining =>
    cases stepped
    exact .of_same guards ⟨sound, rfl⟩ rfl rfl rfl bounded
  | released offset remaining =>
    cases stepped
    exact .of_same guards sound rfl rfl rfl bounded
  | comparing offset remaining used =>
    obtain ⟨active, rfl⟩ := sound
    simp only [CachingReader.advance] at stepped
    split at stepped
    · cases stepped
      exact .of_same guards ⟨active, rfl⟩ rfl rfl rfl bounded
    · rename_i room
      split at stepped
      · rename_i unchanged
        obtain ⟨rfl, -⟩ := unchanged
        cases stepped
        rw [not_or, not_lt, not_lt] at room
        exact .of_reserve guards fits bounded room.2 ⟨active, rfl⟩ rfl rfl rfl
      · cases stepped
        exact .of_same guards ⟨active, rfl⟩ rfl rfl rfl bounded
  | reserved offset remaining =>
    obtain ⟨active, rfl⟩ := sound
    simp only [CachingReader.advance] at stepped
    split at stepped
    · cases stepped
      exact .of_same guards ⟨active, rfl⟩ rfl rfl rfl bounded
    · rename_i bytes read
      cases stepped
      refine .of_same guards active rfl rfl ?_ bounded
      simp only [CachingReader.share, CachingReader.chunkBytes, Option.map_some,
        Option.getD_some, readChunk_length read]
  | failed offset =>
    obtain ⟨active, rfl⟩ := sound
    cases stepped
    exact .of_subtract guards covered fits bounded rfl ⟨active, rfl⟩ rfl rfl
  | unwinding =>
    obtain ⟨active, rfl⟩ := sound
    cases stepped
    refine .of_unlock (guards.1 rfl) trivial rfl rfl ?_ bounded
    simp [CachingReader.share, CachingReader.chunkBytes]
  | copying offset remaining =>
    simp only [CachingReader.advance] at stepped
    split at stepped
    · cases stepped
    · split at stepped
      · cases stepped
      · cases stepped
        exact .of_unlock (guards.1 rfl) sound rfl rfl rfl bounded
  | closing =>
    simp only [CachingReader.advance] at stepped
    split at stepped
    · cases stepped
      exact .of_same guards sound rfl rfl rfl bounded
    · rename_i chunk
      cases stepped
      exact .of_subtract guards covered fits bounded rfl sound rfl rfl
  | releasing =>
    cases stepped
    exact .of_same guards sound rfl rfl rfl bounded

/-- A step with something to subtract subtracts just that. -/
theorem advance_subtracts (some_ : reader.nextSubtraction L ≠ 0)
    (stepped : reader.advance capacity self environment shared = some (advanced, after)) :
    after = shared.subtract (reader.nextSubtraction L) := by
  obtain ⟨⟨version, position, cached⟩, active, phase⟩ := reader
  cases phase with
  | locked offset remaining =>
    cases cached with
    | none => simp [CachingReader.nextSubtraction, CachingReader.chunkBytes] at some_
    | some chunk =>
      simp only [CachingReader.advance, CachingReader.nextSubtraction, Option.map_some,
        Option.some.injEq] at stepped some_ ⊢
      by_cases same : chunk.1 = offset / L.blobChunkBytes
      · rw [if_pos same] at some_
        exact absurd rfl some_
      · rw [if_neg same] at stepped ⊢
        cases stepped
        rfl
  | failed offset =>
    cases stepped
    rfl
  | closing =>
    cases cached with
    | none => simp [CachingReader.nextSubtraction, CachingReader.chunkBytes] at some_
    | some chunk =>
      cases stepped
      rfl
  | _ => exact absurd rfl some_

end Steps

/-! ## The machine -/

/-- Every reader is sound, and the one that is in the locked section holds the lock. -/
structure CacheMachine.Ordered (machine : CacheMachine) : Prop where
  sound : ∀ reader ∈ machine.readers, reader.Sound
  guards : ∀ index reader, machine.readers[index]? = some reader →
    (reader.phase.guarded = true ↔ machine.shared.mutex = some index)
  holder : ∀ index, machine.shared.mutex = some index → index < machine.readers.length

/-- The counter is what the readers account for. -/
structure CacheMachine.Exact (L : Limits) (capacity : Nat) (machine : CacheMachine) : Prop
    extends machine.Ordered where
  balance : machine.shared.usedBytes = total (CachingReader.share L) machine.readers
  bounded : machine.shared.usedBytes ≤ capacity

section Machine

variable {capacity : Nat} {machine next : CacheMachine} {readers : List CachingReader}
  {shared after : SharedCache}

/-- One reader in exchange for another. -/
theorem CacheMachine.Ordered.set {index : Nat} {reader changed : CachingReader}
    (ordered : machine.Ordered) (found : machine.readers[index]? = some reader)
    (sound : changed.Sound) (guards : changed.phase.guarded = true ↔ after.mutex = some index)
    (others : ∀ other, other ≠ index →
      (after.mutex = some other ↔ machine.shared.mutex = some other)) :
    CacheMachine.Ordered { shared := after, readers := machine.readers.set index changed } where
  sound other member := by
    rcases List.mem_or_eq_of_mem_set member with old | rfl
    · exact ordered.sound other old
    · exact sound
  guards other held place := by
    by_cases same : other = index
    · subst same
      rw [List.getElem?_set_self (List.getElem?_eq_some_iff.1 found).1, Option.some.injEq] at place
      rw [← place]
      exact guards
    · rw [List.getElem?_set_ne (Ne.symm same)] at place
      exact (ordered.guards other held place).trans (others other same).symm
  holder other held := by
    rw [List.length_set]
    by_cases same : other = index
    · rw [same]
      exact (List.getElem?_eq_some_iff.1 found).1
    · exact ordered.holder other ((others other same).1 held)

/-- A new reader outside the locked section. -/
theorem CacheMachine.Ordered.append {reader : CachingReader}
    (ordered : CacheMachine.Ordered { shared, readers }) (sound : reader.Sound)
    (outside : reader.phase.guarded = false) :
    CacheMachine.Ordered { shared, readers := readers ++ [reader] } where
  sound other member := by
    rcases List.mem_append.1 member with old | new
    · exact ordered.sound other old
    · rw [List.mem_singleton.1 new]
      exact sound
  guards index other place := by
    by_cases old : index < readers.length
    · rw [List.getElem?_append_left old] at place
      exact ordered.guards index other place
    · have unheld : shared.mutex ≠ some index := fun held => old (ordered.holder index held)
      rw [List.getElem?_append_right (Nat.le_of_not_lt old)] at place
      have new : other = reader := List.mem_singleton.1 (List.mem_of_getElem? place)
      simp [new, outside, unheld]
  holder index held := by
    have before := ordered.holder index held
    dsimp only at before ⊢
    rw [List.length_append]
    omega

/-- A step of one reader. -/
theorem CacheMachine.Exact.set {index : Nat} {reader changed : CachingReader}
    (exact : machine.Exact L capacity) (found : machine.readers[index]? = some reader)
    (advances : Advances L capacity index reader machine.shared changed after) :
    CacheMachine.Exact L capacity
      { shared := after, readers := machine.readers.set index changed } where
  toOrdered := exact.toOrdered.set found advances.sound advances.guards advances.others
  balance := by
    have exchange := total_set (CachingReader.share L) found changed
    have moved := advances.balance
    have before := exact.balance
    dsimp only
    omega
  bounded := advances.bounded

/-- A call that leaves the share of its reader as it is. -/
theorem CacheMachine.Exact.call {index : Nat} {start : CachingReader → Option CachingReader}
    (exact : machine.Exact L capacity)
    (keeps : ∀ reader called, reader.Sound → start reader = some called →
      called.Sound ∧ called.phase.guarded = reader.phase.guarded ∧
        called.share L = reader.share L)
    (called : machine.call index start = some next) : next.Exact L capacity := by
  obtain ⟨reader, found, called⟩ := Option.bind_eq_some_iff.1 called
  obtain ⟨changed, started, called⟩ := Option.bind_eq_some_iff.1 called
  cases called
  obtain ⟨sound, place, share⟩ :=
    keeps reader changed (exact.sound reader (List.mem_of_getElem? found)) started
  refine exact.set found (.of_same (exact.guards index reader found) sound place rfl ?_
    exact.bounded)
  rw [share]

theorem CachingReader.startRead_keeps {destinationBytes : Nat} {reader called : CachingReader}
    (started : reader.startRead destinationBytes = some called) :
    called.Sound ∧ called.phase.guarded = reader.phase.guarded ∧
      called.share L = reader.share L := by
  obtain ⟨base, active, phase⟩ := reader
  simp only [CachingReader.startRead, Option.ite_none_right_eq_some, Option.some.injEq] at started
  obtain ⟨⟨rfl, rfl, -⟩, rfl⟩ := started
  exact ⟨rfl, rfl, rfl⟩

theorem CachingReader.startSeek_keeps {absoluteOffset : Nat} {reader called : CachingReader}
    (started : reader.startSeek absoluteOffset = some called) :
    called.Sound ∧ called.phase.guarded = reader.phase.guarded ∧
      called.share L = reader.share L := by
  obtain ⟨base, active, phase⟩ := reader
  simp only [CachingReader.startSeek, Option.ite_none_right_eq_some, Option.some.injEq] at started
  obtain ⟨⟨rfl, rfl, -⟩, rfl⟩ := started
  exact ⟨trivial, rfl, rfl⟩

theorem CachingReader.startClose_keeps {reader called : CachingReader}
    (started : reader.startClose = some called) :
    called.Sound ∧ called.phase.guarded = reader.phase.guarded ∧
      called.share L = reader.share L := by
  obtain ⟨base, active, phase⟩ := reader
  simp only [CachingReader.startClose, Option.ite_none_right_eq_some, Option.some.injEq] at started
  obtain ⟨⟨rfl, rfl⟩, rfl⟩ := started
  exact ⟨rfl, rfl, rfl⟩

/-- A move hands the share over with the chunk. -/
theorem CacheMachine.Exact.move {source : Nat} {reader : CachingReader}
    (exact : machine.Exact L capacity) (found : machine.readers[source]? = some reader)
    (resting : reader.phase = .idle ∨ reader.phase = .closed) :
    CacheMachine.Exact L capacity
      { machine with readers := machine.readers.set source reader.movedFrom ++ [reader] } := by
  have sound := exact.sound reader (List.mem_of_getElem? found)
  have outside : reader.phase.guarded = false := by
    rcases resting with place | place <;> rw [place] <;> rfl
  have left : reader.movedFrom.Sound ∧ reader.movedFrom.share L = 0 := by
    unfold CachingReader.movedFrom CachingReader.Sound CachingReader.share
    rcases resting with place | place <;> simp [place]
  refine { toOrdered := .append (.set exact.toOrdered found left.1 ?_ fun _ _ => Iff.rfl) sound
             outside, balance := ?_, bounded := exact.bounded }
  · exact exact.guards source reader found
  · have exchange := total_set (CachingReader.share L) found reader.movedFrom
    have before := exact.balance
    simp only [total_append, total_cons, total_nil]
    omega

theorem CacheMachine.Exact.step {step : CacheStep L} (fits : capacity ≤ uint64Max)
    (exact : machine.Exact L capacity) (stepped : machine.step capacity step = some next) :
    next.Exact L capacity := by
  cases step with
  | construct version =>
    cases stepped
    refine { toOrdered := exact.toOrdered.append trivial rfl, balance := ?_,
             bounded := exact.bounded }
    simp only [total_append, total_cons, total_nil]
    exact exact.balance
  | move source =>
    obtain ⟨reader, found, stepped⟩ := Option.bind_eq_some_iff.1 stepped
    split at stepped
    · rename_i resting
      cases stepped
      exact exact.move found resting
    · cases stepped
  | read index destinationBytes =>
    exact exact.call (fun _ _ _ started => CachingReader.startRead_keeps started) stepped
  | seek index absoluteOffset =>
    exact exact.call (fun _ _ _ started => CachingReader.startSeek_keeps started) stepped
  | close index =>
    exact exact.call (fun _ _ _ started => CachingReader.startClose_keeps started) stepped
  | advance index environment =>
    obtain ⟨reader, found, stepped⟩ := Option.bind_eq_some_iff.1 stepped
    obtain ⟨⟨advanced, after⟩, moved, stepped⟩ := Option.bind_eq_some_iff.1 stepped
    cases stepped
    have member := List.mem_of_getElem? found
    have covered : reader.share L ≤ machine.shared.usedBytes := by
      rw [exact.balance]
      exact share_le_total _ member
    exact exact.set found (advance_spec fits (exact.sound reader member)
      (exact.guards index reader found) covered exact.bounded moved)

/-- The accounts stay exact along every interleaving. -/
theorem CacheMachine.Exact.run {steps : List (CacheStep L)} (fits : capacity ≤ uint64Max)
    (exact : machine.Exact L capacity) (ran : machine.run capacity steps = some next) :
    next.Exact L capacity := by
  induction steps generalizing machine with
  | nil =>
    cases ran
    exact exact
  | cons step rest ih =>
    obtain ⟨between, stepped, ran⟩ := Option.bind_eq_some_iff.1 ran
    exact ih (exact.step fits stepped) ran

theorem CacheMachine.exact_empty (L : Limits) (capacity : Nat) :
    CacheMachine.Exact L capacity {} where
  sound _ member := absurd member List.not_mem_nil
  guards index reader found := by simp at found
  holder index held := by cases held
  balance := rfl
  bounded := Nat.zero_le _

/-- In every interleaving of the readers of a session: while no reader is in the locked section,
`usedBytes` is what the open readers cache; it never exceeds the capacity; a step that subtracts
finds at least as much; and it is zero once all readers are closed. -/
theorem blobCache_accounts (fits : capacity ≤ uint64Max) {steps : List (CacheStep L)}
    (ran : CacheMachine.run capacity {} steps = some machine) :
    (machine.shared.mutex = none →
      machine.shared.usedBytes = total CachingReader.cachedBytes machine.readers) ∧
    machine.shared.usedBytes ≤ capacity ∧
    (∀ (index : Nat) (reader advanced : CachingReader) (after : SharedCache)
      (environment : CacheEnvironment L),
      machine.readers[index]? = some reader →
      reader.advance capacity index environment machine.shared = some (advanced, after) →
      reader.nextSubtraction L ≤ machine.shared.usedBytes ∧
        (reader.nextSubtraction L ≠ 0 →
          after = machine.shared.subtract (reader.nextSubtraction L))) ∧
    ((∀ reader ∈ machine.readers, ¬ reader.Open) → machine.shared.usedBytes = 0) := by
  have exact := (CacheMachine.exact_empty L capacity).run fits ran
  refine ⟨fun free => ?_, exact.bounded, fun index reader advanced after environment found moved =>
    ⟨?_, fun subtracts => advance_subtracts subtracts moved⟩, fun shut => ?_⟩
  · rw [exact.balance]
    apply total_congr
    intro reader member
    obtain ⟨index, found⟩ := List.mem_iff_getElem?.1 member
    apply (exact.sound reader member).share_eq
    rw [Bool.eq_false_iff, ne_eq, exact.guards index reader found, free]
    exact nofun
  · rw [exact.balance]
    exact (reader.nextSubtraction_le_share).trans
      (share_le_total _ (List.mem_of_getElem? found))
  · rw [exact.balance]
    exact total_eq_zero _ fun reader member =>
      (exact.sound reader member).share_eq_zero (shut reader member)

theorem Serves.readChunk {view : ReaderView L} {version : BlobVersion} {content : Bytes}
    (serves : Serves view version content) {reader : CachingReader}
    (isVersion : reader.version = version) {offset : Nat}
    (inside : offset / L.blobChunkBytes < version.chunks.length) :
    reader.readChunk { view := some view } offset =
      some (chunkOf L content (offset / L.blobChunkBytes)) := by
  have found := List.getElem?_eq_getElem inside
  rw [CachingReader.readChunk, isVersion, found]
  dsimp only
  rw [CachingReader.expectedAt, isVersion, serves.expectedLength_eq inside,
    serves.reads _ _ found]
  rfl

theorem CacheMachine.run_append (machine : CacheMachine) (first rest : List (CacheStep L)) :
    machine.run capacity (first ++ rest) =
      (machine.run capacity first).bind fun next => next.run capacity rest := by
  induction first generalizing machine with
  | nil => rfl
  | cons step first ih =>
    rw [List.cons_append, CacheMachine.run, CacheMachine.run]
    refine Eq.trans ?_ (Option.bind_assoc _ _ _).symm
    exact congrArg _ (funext fun next => ih next)

theorem CacheMachine.run_advance {environment : CacheEnvironment L} {shared after : SharedCache}
    {reader advanced : CachingReader}
    (advances : reader.advance capacity 0 environment shared = some (advanced, after))
    (rest : List (CacheStep L)) :
    CacheMachine.run capacity ⟨shared, [reader]⟩ (.advance 0 environment :: rest) =
      CacheMachine.run capacity ⟨after, [advanced]⟩ rest := by
  change ((reader.advance capacity 0 environment shared).bind _).bind _ = _
  rw [advances]
  rfl

/-- A chunk is read into an empty cache. -/
theorem CacheMachine.run_fetch {view : ReaderView L} {version : BlobVersion} {content : Bytes}
    (serves : Serves view version content) {evictions offset remaining : Nat}
    (inside : offset < content.length) (room : L.blobChunkBytes ≤ capacity)
    (fits : capacity ≤ uint64Max) :
    let chunk := chunkOf L content (offset / L.blobChunkBytes)
    let count := min remaining (chunk.length - offset % L.blobChunkBytes)
    CacheMachine.run capacity ⟨{ evictions, mutex := some 0 },
        [{ version, phase := .released offset remaining }]⟩
        (List.replicate 4 (.advance 0 { view := some view })) =
      some ⟨{ usedBytes := chunk.length, evictions },
        [{ version, decodedChunk := some (offset / L.blobChunkBytes, chunk)
           phase := .turn (offset + count) (remaining - count) }]⟩ := by
  intro chunk count
  have ordinal : offset / L.blobChunkBytes < version.chunks.length := by
    rw [Nat.div_lt_iff_lt_mul L.chunk_pos]
    exact inside.trans_le serves.count.enough
  have sized : chunk.length =
      min L.blobChunkBytes (content.length - offset / L.blobChunkBytes * L.blobChunkBytes) :=
    length_chunkOf content _
  have position_eq := Nat.div_add_mod' offset L.blobChunkBytes
  have below := Nat.mod_lt offset L.chunk_pos
  have expected (reader : CachingReader) (isVersion : reader.version = version) :
      reader.expectedAt L offset = chunk.length := by
    rw [CachingReader.expectedAt, isVersion, serves.expectedLength_eq ordinal]
  have compared : CachingReader.advance (L := L) capacity 0 { view := some view }
      { version, phase := .comparing offset remaining 0 } { evictions, mutex := some 0 } =
        some ({ version, phase := .reserved offset remaining },
          { usedBytes := chunk.length, evictions, mutex := some 0 }) := by
    have added : wordAdd 0 chunk.length = chunk.length := by
      unfold wordAdd uint64Max at *
      omega
    have noRoom : ¬(capacity < 0 ∨ capacity - 0 < chunk.length) := by omega
    simp only [CachingReader.advance]
    rw [expected _ rfl, if_neg noRoom, if_pos (by simp), added]
  have fetched : CachingReader.advance (L := L) capacity 0 { view := some view }
      { version, phase := .reserved offset remaining }
      { usedBytes := chunk.length, evictions, mutex := some 0 } =
        some ({ version, decodedChunk := some (offset / L.blobChunkBytes, chunk)
                phase := .copying offset remaining },
          { usedBytes := chunk.length, evictions, mutex := some 0 }) := by
    simp only [CachingReader.advance]
    rw [serves.readChunk rfl ordinal]
  have copied : CachingReader.advance (L := L) capacity 0 { view := some view }
      { version, decodedChunk := some (offset / L.blobChunkBytes, chunk)
        phase := .copying offset remaining }
      { usedBytes := chunk.length, evictions, mutex := some 0 } =
        some ({ version, decodedChunk := some (offset / L.blobChunkBytes, chunk)
                phase := .turn (offset + count) (remaining - count) },
          { usedBytes := chunk.length, evictions }) := by
    simp only [CachingReader.advance]
    rw [if_neg (by omega)]
  simp only [List.replicate]
  rw [CacheMachine.run_advance rfl, CacheMachine.run_advance compared,
    CacheMachine.run_advance fetched, CacheMachine.run_advance copied]
  rfl

/-- Steps of the only reader. -/
def advances (view : ReaderView chunkLimits) (count : Nat) : List (CacheStep chunkLimits) :=
  List.replicate count (.advance 0 { view := some view })

/-- A reader of a Blob of two chunks reads it to its end; the first chunk is evicted for the last. -/
def evictingRead (view : ReaderView chunkLimits) (version : BlobVersion) :
    List (CacheStep chunkLimits) :=
  ([.construct version, .read 0 65537] ++ advances view 2) ++ (advances view 4 ++
    (advances view 3 ++ (advances view 4 ++ advances view 1)))

section Eviction

variable {view : ReaderView chunkLimits} {version : BlobVersion}

theorem firstTurn_run (isSize : version.size = 65537) :
    CacheMachine.run capacity {} ([.construct version, .read 0 65537] ++ advances view 2) =
      some ⟨{ mutex := some 0 }, [{ version, phase := .released 0 65537 }]⟩ := by
  have started : CachingReader.startRead 65537 { version } =
      some { version, phase := .turn 0 65537 } := by
    rw [CachingReader.startRead]
    dsimp only
    rw [isSize, if_pos ⟨rfl, rfl, by decide⟩]
    rfl
  simp only [advances, List.replicate, List.cons_append, List.nil_append]
  change ((CachingReader.startRead 65537 _).bind _).bind _ = _
  rw [started]
  change CacheMachine.run capacity ⟨{}, [{ version, phase := .turn 0 65537 }]⟩ _ = _
  rw [CacheMachine.run_advance rfl, CacheMachine.run_advance rfl]
  rfl

theorem secondTurn_run {chunk : Bytes} (sized : chunk.length = 65536) :
    CacheMachine.run capacity ⟨{ usedBytes := 65536 },
        [{ version, decodedChunk := some (0, chunk), phase := .turn 65536 1 }]⟩ (advances view 3) =
      some ⟨{ evictions := 1, mutex := some 0 }, [{ version, phase := .released 65536 1 }]⟩ := by
  have subtracted : CachingReader.advance (L := chunkLimits) capacity 0 { view := some view }
      { version, decodedChunk := some (0, chunk), phase := .locked 65536 1 }
      { usedBytes := 65536, mutex := some 0 } =
        some ({ version, decodedChunk := some (0, chunk), phase := .evicting 65536 1 },
          { mutex := some 0 }) := by
    simp only [CachingReader.advance, SharedCache.subtract, sized]
    rw [wordSub_eq le_rfl (by decide)]
    rfl
  simp only [advances, List.replicate]
  rw [CacheMachine.run_advance rfl]
  dsimp only
  rw [CacheMachine.run_advance subtracted, CacheMachine.run_advance rfl]
  rfl

theorem evictingRead_run {content : Bytes} (serves : Serves view version content)
    (isSize : content.length = 65537) :
    ∃ byte, CacheMachine.run (4 * 1024 * 1024) {} (evictingRead view version) =
      some ⟨{ usedBytes := 1, evictions := 1 },
        [{ version, position := 65537, decodedChunk := some (1, [byte]) }]⟩ := by
  have fetchFirst := @CacheMachine.run_fetch chunkLimits (4 * 1024 * 1024) view version content
    serves 0 0 65537 (by omega) (by decide) (by decide)
  have fetchLast := @CacheMachine.run_fetch chunkLimits (4 * 1024 * 1024) view version content
    serves 1 65536 1 (by omega) (by decide) (by decide)
  have sized : (chunkOf chunkLimits content (0 / chunkLimits.blobChunkBytes)).length = 65536 := by
    rw [length_chunkOf, isSize]
    rfl
  obtain ⟨byte, isLast⟩ : ∃ byte,
      chunkOf chunkLimits content (65536 / chunkLimits.blobChunkBytes) = [byte] := by
    refine List.length_eq_one_iff.1 ?_
    rw [length_chunkOf, isSize]
    rfl
  dsimp only at fetchLast fetchFirst
  rw [isLast] at fetchLast
  rw [sized] at fetchFirst
  refine ⟨byte, ?_⟩
  rw [evictingRead, CacheMachine.run_append, firstTurn_run (serves.size.trans isSize),
    Option.bind_some, CacheMachine.run_append, advances, fetchFirst, Option.bind_some,
    CacheMachine.run_append]
  have evicts := @secondTurn_run (4 * 1024 * 1024) view version _ sized
  rw [advances] at evicts
  refine (congrArg (Option.bind · _) evicts).trans ?_
  rw [Option.bind_some, CacheMachine.run_append, fetchLast, Option.bind_some]
  exact CacheMachine.run_advance rfl []

end Eviction

/-- The reader behind the eviction, and when it is closed. -/
theorem blobCache_accounts_eviction :
    ∃ (view : ReaderView chunkLimits) (version : BlobVersion) (machine last : CacheMachine),
      CacheMachine.run (4 * 1024 * 1024) {} (evictingRead view version) = some machine ∧
      machine.shared.evictions = 1 ∧
      total CachingReader.cachedBytes machine.readers = 1 ∧ machine.shared.usedBytes = 1 ∧
      CacheMachine.run (4 * 1024 * 1024) {} (evictingRead view version ++
        [.close 0, .advance 0 {}, .advance 0 {}]) = some last ∧
      last.readers.length = 1 ∧ last.shared.usedBytes = 0 := by
  obtain ⟨view, version, serves⟩ := chunkBytes_serves
  obtain ⟨byte, ran⟩ := evictingRead_run serves (by
    rw [chunkBytes, List.length_append, List.length_replicate]
    rfl)
  have free := (blobCache_accounts (by decide) ran).1 rfl
  have closes : CacheMachine.run (4 * 1024 * 1024) {} (evictingRead view version ++
      [.close 0, .advance 0 {}, .advance 0 {}]) =
        some ⟨SharedCache.subtract { usedBytes := 1, evictions := 1 } [byte].length,
          [{ version, position := 65537, active := false, phase := .closed }]⟩ := by
    rw [CacheMachine.run_append, ran]
    rfl
  refine ⟨view, version, _, _, ran, rfl, free.symm, rfl, closes, rfl, ?_⟩
  refine (blobCache_accounts (by decide) closes).2.2.2 fun reader member => ?_
  obtain rfl := List.mem_singleton.1 member
  rintro (isActive | isClosing)
  · cases isActive
  · cases isClosing

end Machine

end Miare
