import Miare.Allocator.Proofs.Runs
import Miare.Tree.Persist
import Miare.Tree.Proofs.Store

/-!
# The extents that a commit prepares

`prepareExtent` takes blocks from the pool and gives an extent its reference.  A reference is good
in the publication that the commit writes, whose high water is at least the last block taken.
-/

namespace Miare

open Misc

/-! ## Sizes in blocks -/

theorem Limits.minimalBlocks_eq (L : Limits) (length : Nat) :
    L.minimalBlocks length = L.blocksFor length := by
  have positive := L.quantum_pos
  have divided := Nat.div_add_mod' length L.allocationQuantumBytes
  have less := Nat.mod_lt length positive
  unfold Limits.minimalBlocks Limits.blocksFor
  generalize length / L.allocationQuantumBytes = whole at *
  generalize length % L.allocationQuantumBytes = part at *
  symm
  rw [Nat.div_eq_iff positive, Nat.add_mul]
  by_cases aligned : part = 0
  · rw [if_neg (by simpa using aligned)]
    omega
  · rw [if_pos aligned]
    omega

theorem Limits.blocksFor_mono (L : Limits) {short long : Nat} (le : short ≤ long) :
    L.blocksFor short ≤ L.blocksFor long :=
  Nat.div_le_div_right (by omega)

theorem Limits.le_blocksFor_mul (L : Limits) (length : Nat) :
    length ≤ L.blocksFor length * L.allocationQuantumBytes := by
  have positive := L.quantum_pos
  have less := Nat.lt_div_mul_add (a := length + L.allocationQuantumBytes - 1) positive
  unfold Limits.blocksFor
  omega

theorem preparedLength_le (L : Limits) (decodedBytes : Nat) (offer : Option Nat) :
    preparedLength L decodedBytes offer ≤ decodedBytes := by
  unfold preparedLength
  split
  · exact le_rfl
  · split
    · rename_i smaller
      exact smaller.1.le
    · exact le_rfl

/-- A page fills its blocks. -/
theorem Limits.blocksFor_page (L : Limits) :
    L.blocksFor (encodedExtentLength L.pagePayloadBytes) = L.pageBlocks := by
  obtain ⟨k, power⟩ := L.quantum_single_bit
  have whole : encodedExtentLength L.pagePayloadBytes =
      max (16 * 1024) L.allocationQuantumBytes := by
    unfold encodedExtentLength Limits.pagePayloadBytes extentLayoutBytes authenticationTagBytes
    omega
  have divides : L.allocationQuantumBytes ∣ max (16 * 1024) L.allocationQuantumBytes := by
    rcases Nat.le_total (16 * 1024) L.allocationQuantumBytes with large | small
    · rw [max_eq_right large]
    · rw [max_eq_left small, power]
      have : k ≤ 14 := by
        by_contra more
        have := Nat.pow_lt_pow_right (by decide : 1 < 2) (Nat.lt_of_not_le more)
        omega
      exact Nat.pow_dvd_pow 2 this
  rw [← L.minimalBlocks_eq, Limits.minimalBlocks, whole,
    if_neg (by simpa using Nat.mod_eq_zero_of_dvd divides)]
  rfl

/-! ## The pool -/

/-- Free runs lie behind the common region and before the end of the file. -/
structure BlockPool.Bounded (L : Limits) (pool : BlockPool) : Prop where
  common : L.commonBlocks ≤ pool.nextBlock
  runs : ∀ run ∈ pool.freeRuns,
    L.commonBlocks ≤ run.start ∧ run.start + run.count ≤ pool.nextBlock

theorem takeFirstFit_within {count allocated lower upper : Nat} {runs remaining : List ExtentRun}
    (taken : takeFirstFit count runs = some (allocated, remaining))
    (bounded : ∀ run ∈ runs, lower ≤ run.start ∧ run.start + run.count ≤ upper) :
    (lower ≤ allocated ∧ allocated + count ≤ upper) ∧
      ∀ run ∈ remaining, lower ≤ run.start ∧ run.start + run.count ≤ upper := by
  induction runs generalizing remaining with
  | nil => cases taken
  | cons run rest ih =>
    obtain ⟨here, later⟩ := List.forall_mem_cons.1 bounded
    rw [takeFirstFit] at taken
    split at taken
    · rename_i fits
      cases taken
      refine ⟨by omega, List.forall_mem_cons.2 ⟨?_, later⟩⟩
      dsimp only
      omega
    · obtain ⟨⟨start, others⟩, found, same⟩ := Option.map_eq_some_iff.1 taken
      cases same
      obtain ⟨placed, kept⟩ := ih found later
      exact ⟨placed, List.forall_mem_cons.2 ⟨here, kept⟩⟩

theorem BlockPool.Bounded.allocateBlocks {L : Limits} {pool : BlockPool} (bounded : pool.Bounded L)
    (count : Nat) :
    (pool.allocateBlocks count).2.Bounded L ∧ L.commonBlocks ≤ (pool.allocateBlocks count).1 ∧
      (pool.allocateBlocks count).1 + count ≤ (pool.allocateBlocks count).2.nextBlock := by
  unfold BlockPool.allocateBlocks
  split
  · rename_i allocated remaining taken
    obtain ⟨placed, kept⟩ := takeFirstFit_within taken bounded.runs
    exact ⟨⟨bounded.common, kept⟩, placed⟩
  · have common := bounded.common
    refine ⟨⟨?_, fun run member => ?_⟩, common, le_rfl⟩
    · dsimp only
      omega
    · have := bounded.runs run member
      dsimp only
      omega

/-! ## Prepared extents -/

/-- The state of a commit only grows. -/
structure CommitState.Extends (state next : CommitState) : Prop where
  extents : state.extents <+: next.extents
  nextBlock : state.pool.nextBlock ≤ next.pool.nextBlock

theorem CommitState.Extends.refl (state : CommitState) : state.Extends state :=
  ⟨List.prefix_rfl, le_rfl⟩

theorem CommitState.Extends.trans {first second third : CommitState}
    (left : first.Extends second) (right : second.Extends third) : first.Extends third :=
  ⟨left.extents.trans right.extents, left.nextBlock.trans right.nextBlock⟩

variable {L : Limits} {input : CommitInput} {later : OpenedFormat} {after : ExtentStore}
  {state next : CommitState}

/-- The publication that a commit writes. -/
structure CommitInput.Publishes (input : CommitInput) (later : OpenedFormat) : Prop where
  generation : later.generation = input.generation
  created : input.generation ≠ 0
  words : later.generation ≤ uint64Max ∧ later.highWaterBytes ≤ uint64Max

/-- The extents prepared so far are in the store, inside the high water of the publication. -/
structure CommitState.Settled (L : Limits) (later : OpenedFormat) (after : ExtentStore)
    (state : CommitState) : Prop where
  written : ∀ extent ∈ state.extents,
    after extent.reference = some { context := extent.context, payload := extent.payload }
  highWater : state.pool.nextBlock * L.allocationQuantumBytes ≤ later.highWaterBytes

theorem CommitState.Settled.earlier (settled : next.Settled L later after)
    (grown : state.Extends next) : state.Settled L later after :=
  ⟨fun extent member => settled.written extent (grown.extents.subset member),
    (Nat.mul_le_mul_right _ grown.nextBlock).trans settled.highWater⟩

/-- The generation of a publication is a `std::uint64_t`, and so are the fields of its
references. -/
theorem ExtentReference.Placed.fits {reference : ExtentReference}
    (placed : reference.Placed L later) (word : later.generation ≤ uint64Max) :
    reference.Fits := by
  have index := placed.words.2.trans (Nat.div_le_self _ _)
  have count := placed.words.1.trans (Nat.div_le_self _ _)
  have length : reference.encodedLength ≤ uint64Max :=
    placed.length.trans ((Nat.le_div_iff_mul_le L.quantum_pos).1 placed.words.1)
  have created := placed.generation.trans word
  unfold uint64Max at *
  refine ⟨?_, ?_, ?_, ?_⟩ <;> omega

theorem prepareExtent_eq (L : Limits) (input : CommitInput) (state : CommitState) (payload : Bytes)
    (kind : Nat) :
    prepareExtent L input state payload kind =
      sealExtent L input (input.compressed state.extents.length payload) { unitKind := kind } payload
        state := rfl

section Seal

variable {offer : Option Nat} {context : ExtentContext} {payload : Bytes}

theorem sealExtent_extends (L : Limits) (input : CommitInput) (offer : Option Nat)
    (context : ExtentContext) (payload : Bytes) (state : CommitState) :
    state.Extends (sealExtent L input offer context payload state).2 :=
  ⟨List.prefix_append _ _, allocateBlocks_nextBlock _ _⟩

theorem sealExtent_bounded (bounded : state.pool.Bounded L) :
    (sealExtent L input offer context payload state).2.pool.Bounded L :=
  (bounded.allocateBlocks _).1

theorem sealExtent_placed (publishes : input.Publishes later) (bounded : state.pool.Bounded L)
    (settled : (sealExtent L input offer context payload state).2.Settled L later after) :
    (sealExtent L input offer context payload state).1.Placed L later := by
  have positive := L.quantum_pos
  obtain ⟨-, common, inside⟩ := bounded.allocateBlocks (L.blocksFor (encodedExtentLength
    (preparedLength L payload.length offer)))
  have limit := (Nat.mul_le_mul_right L.allocationQuantumBytes inside).trans settled.highWater
  have words := limit.trans publishes.words.2
  refine ⟨common, (L.blocksFor_pos (encodedExtentLength_pos _)).ne', ?_, publishes.created,
    publishes.generation.ge, L.le_blocksFor_mul _, limit, ?_, ?_⟩
  · simp only [sealExtent, encodedExtentLength]
    omega
  · rw [Nat.le_div_iff_mul_le positive]
    exact le_trans (Nat.mul_le_mul_right _ (Nat.le_add_left _ _)) words
  · rw [Nat.le_div_iff_mul_le positive]
    exact le_trans (Nat.mul_le_mul_right _ (Nat.le_add_right _ _)) words

/-- A prepared extent can be read in the new publication. -/
theorem sealExtent_read (publishes : input.Publishes later) (bounded : state.pool.Bounded L)
    {expected : Option Nat}
    (settled : (sealExtent L input offer context payload state).2.Settled L later after)
    (page : isPageKind context.unitKind → payload.length = L.pagePayloadBytes)
    (sized : ∀ length ∈ expected, payload.length = length ∧ L.framable length) :
    ReadExtent L later after (sealExtent L input offer context payload state).1 context expected
      payload := by
  have placed := sealExtent_placed publishes bounded settled
  have length_le := preparedLength_le L payload.length offer
  have blocks_le : (sealExtent L input offer context payload state).1.blockCount ≤
      L.blocksFor (encodedExtentLength payload.length) := by
    apply L.blocksFor_mono
    unfold encodedExtentLength
    omega
  refine ⟨placed.not_null, validateExtentReference_placed placed, fun length member =>
    (sized length member).2, ⟨fun isPage => ?_, fun length member => ?_, ?_⟩, ?_,
    fun length member => (sized length member).1, page⟩
  · rwa [page isPage, L.blocksFor_page] at blocks_le
  · rwa [(sized length member).1] at blocks_le
  · exact (L.minimalBlocks_eq _).symm
  · exact settled.written _ (List.mem_append_right _ (List.mem_singleton_self _))

end Seal

theorem prepareExtent_extends (L : Limits) (input : CommitInput) (state : CommitState)
    (payload : Bytes) (kind : Nat) : state.Extends (prepareExtent L input state payload kind).2 :=
  sealExtent_extends L input _ _ payload state

theorem prepareExtent_bounded (bounded : state.pool.Bounded L) (payload : Bytes) (kind : Nat) :
    (prepareExtent L input state payload kind).2.pool.Bounded L :=
  (bounded.allocateBlocks _).1

theorem prepareExtent_placed (publishes : input.Publishes later) (bounded : state.pool.Bounded L)
    {payload : Bytes} {kind : Nat}
    (settled : (prepareExtent L input state payload kind).2.Settled L later after) :
    (prepareExtent L input state payload kind).1.Placed L later := by
  rw [prepareExtent_eq] at settled ⊢
  exact sealExtent_placed publishes bounded settled

theorem prepareExtent_read (publishes : input.Publishes later) (bounded : state.pool.Bounded L)
    {payload : Bytes} {kind : Nat} {expected : Option Nat}
    (settled : (prepareExtent L input state payload kind).2.Settled L later after)
    (page : isPageKind kind → payload.length = L.pagePayloadBytes)
    (sized : ∀ length ∈ expected, payload.length = length ∧ L.framable length) :
    ReadExtent L later after (prepareExtent L input state payload kind).1 { unitKind := kind }
      expected payload := by
  rw [prepareExtent_eq] at settled ⊢
  exact sealExtent_read publishes bounded settled page sized

/-! ## Runs of a commit -/

/-- What the parts of a commit that write trees do to its state: they prepare extents and retain
old ones. -/
inductive Prepares (L : Limits) (input : CommitInput) : CommitState → CommitState → Prop
  | refl (state : CommitState) : Prepares L input state state
  | extent {state next : CommitState} (payload : Bytes) (kind : Nat)
      (rest : Prepares L input (prepareExtent L input state payload kind).2 next) :
      Prepares L input state next
  | retain {state next : CommitState} (references : List ExtentReference)
      (rest : Prepares L input (state.retain references) next) : Prepares L input state next

theorem Prepares.trans {last : CommitState} (first : Prepares L input state next)
    (second : Prepares L input next last) : Prepares L input state last := by
  induction first with
  | refl => exact second
  | extent payload kind _ ih => exact .extent payload kind (ih second)
  | retain references _ ih => exact .retain references (ih second)

theorem Prepares.extends (prepares : Prepares L input state next) : state.Extends next := by
  induction prepares with
  | refl state => exact .refl state
  | extent payload kind _ ih => exact (prepareExtent_extends L input _ payload kind).trans ih
  | retain references _ ih => exact ⟨ih.extents, ih.nextBlock⟩

theorem Prepares.bounded (prepares : Prepares L input state next)
    (bounded : state.pool.Bounded L) : next.pool.Bounded L := by
  induction prepares with
  | refl => exact bounded
  | extent payload kind _ ih => exact ih (prepareExtent_bounded bounded payload kind)
  | retain references _ ih => exact ih bounded

/-- The blocks of a commit: no block is free or taken twice, and everything taken lies before the
end of the file and carries the generation of the commit. -/
structure CommitState.Accounts (L : Limits) (input : CommitInput) (state : CommitState) : Prop where
  bounded : state.pool.Bounded L
  once : ∀ x, coverage state.pool.freeRuns x +
    coverage (state.extents.map PreparedExactExtent.reference) x ≤ 1
  taken : ∀ extent ∈ state.extents, 0 < extent.reference.blockCount ∧
    extent.reference.blockIndex + extent.reference.blockCount ≤ state.pool.nextBlock ∧
    extent.reference.creationGeneration = input.generation

/-- The blocks of a commit beside some extents that were staged before it: no block is free or taken
twice, and the staged extents lie before the end of the file. -/
structure CommitState.Beside (L : Limits) (input : CommitInput) (staged : List ExtentReference)
    (state : CommitState) : Prop where
  accounts : state.Accounts L input
  once : ∀ x, coverage state.pool.freeRuns x +
    coverage (state.extents.map PreparedExactExtent.reference) x + coverage staged x ≤ 1
  ends : ∀ reference ∈ staged, 0 < reference.blockCount ∧
    reference.blockIndex + reference.blockCount ≤ state.pool.nextBlock

theorem CommitState.Accounts.beyond (accounts : state.Accounts L input) {x : Nat}
    (outside : state.pool.nextBlock ≤ x) :
    coverage state.pool.freeRuns x = 0 ∧
      coverage (state.extents.map PreparedExactExtent.reference) x = 0 := by
  refine ⟨coverage_eq_zero_of_limit (fun run member => (accounts.bounded.runs run member).2)
    outside, coverage_eq_zero_of_limit (fun reference member => ?_) outside⟩
  obtain ⟨extent, inExtents, rfl⟩ := List.mem_map.1 member
  exact (accounts.taken extent inExtents).2.1

section Seal

variable {offer : Option Nat} {context : ExtentContext} {payload : Bytes}

/-- What a new extent takes was free or lies behind the old end of the file. -/
theorem sealExtent_coverage (x : Nat) :
    coverage (sealExtent L input offer context payload state).2.pool.freeRuns x +
        coverage ((sealExtent L input offer context payload state).2.extents.map
          PreparedExactExtent.reference) x =
      coverage state.pool.freeRuns x +
        coverage (state.extents.map PreparedExactExtent.reference) x +
        between state.pool.nextBlock
          (sealExtent L input offer context payload state).2.pool.nextBlock x := by
  have moved := allocateBlocks_coverage state.pool (L.blocksFor (encodedExtentLength
    (preparedLength L payload.length offer))) x
  have new : coverage ((sealExtent L input offer context payload state).2.extents.map
      PreparedExactExtent.reference) x =
      coverage (state.extents.map PreparedExactExtent.reference) x +
        span (sealExtent L input offer context payload state).1 x := by
    simp [sealExtent]
  rw [new]
  change coverage (state.pool.allocateBlocks _).2.freeRuns x + (_ + between _ _ x) = _
  simp only [sealExtent, ExtentReference.first_eq, ExtentReference.size_eq]
  omega

theorem sealExtent_accounts (accounts : state.Accounts L input) :
    (sealExtent L input offer context payload state).2.Accounts L input := by
  have grown := (sealExtent_extends L input offer context payload state).nextBlock
  obtain ⟨-, -, inside⟩ := accounts.bounded.allocateBlocks (L.blocksFor (encodedExtentLength
    (preparedLength L payload.length offer)))
  refine ⟨sealExtent_bounded accounts.bounded, fun x => ?_, fun extent member => ?_⟩
  · have once := accounts.once x
    rw [sealExtent_coverage]
    -- a block is either behind the old end of the file or was accounted for before
    by_cases old : x < state.pool.nextBlock
    · rw [between_eq_zero (by omega)]
      exact once
    · obtain ⟨free, used⟩ := accounts.beyond (Nat.le_of_not_lt old)
      rw [free, used, Nat.add_zero, Nat.zero_add]
      exact between_le_one _ _ _
  · rcases List.mem_append.1 member with old | new
    · obtain ⟨positive, before, generation⟩ := accounts.taken extent old
      exact ⟨positive, before.trans grown, generation⟩
    · rw [List.mem_singleton.1 new]
      exact ⟨L.blocksFor_pos (encodedExtentLength_pos _), inside, rfl⟩

theorem sealExtent_beside {staged : List ExtentReference} (beside : state.Beside L input staged) :
    (sealExtent L input offer context payload state).2.Beside L input staged := by
  have grown := (sealExtent_extends L input offer context payload state).nextBlock
  refine ⟨sealExtent_accounts beside.accounts, fun x => ?_, fun reference member => ?_⟩
  · have once := beside.once x
    rw [sealExtent_coverage]
    by_cases old : x < state.pool.nextBlock
    · rw [between_eq_zero (by omega)]
      exact once
    · obtain ⟨free, used⟩ := beside.accounts.beyond (Nat.le_of_not_lt old)
      have none : coverage staged x = 0 :=
        coverage_eq_zero_of_limit (fun reference member => (beside.ends reference member).2)
          (Nat.le_of_not_lt old)
      rw [free, used, none, Nat.add_zero, Nat.zero_add]
      exact between_le_one _ _ _
  · obtain ⟨positive, before⟩ := beside.ends reference member
    exact ⟨positive, before.trans grown⟩

end Seal

theorem prepareExtent_accounts (accounts : state.Accounts L input) (payload : Bytes)
    (kind : Nat) : (prepareExtent L input state payload kind).2.Accounts L input := by
  rw [prepareExtent_eq]
  exact sealExtent_accounts accounts

theorem Prepares.accounts (prepares : Prepares L input state next)
    (accounts : state.Accounts L input) : next.Accounts L input := by
  induction prepares with
  | refl => exact accounts
  | extent payload kind _ ih => exact ih (prepareExtent_accounts accounts payload kind)
  | retain references _ ih => exact ih ⟨accounts.bounded, accounts.once, accounts.taken⟩

/-- No two extents of a commit have the same reference. -/
theorem CommitState.Accounts.find (accounts : state.Accounts L input) {extent : PreparedExactExtent}
    (member : extent ∈ state.extents) :
    (state.extents.find? fun other => other.reference = extent.reference) = some extent := by
  obtain ⟨positive, -, -⟩ := accounts.taken extent member
  have once : coverage (state.extents.map PreparedExactExtent.reference)
      extent.reference.blockIndex ≤ 1 :=
    (Nat.le_add_left _ _).trans (accounts.once extent.reference.blockIndex)
  generalize state.extents = extents at member once
  induction extents with
  | nil => cases member
  | cons first rest ih =>
    have covered : span extent.reference extent.reference.blockIndex = 1 :=
      span_eq_one ⟨le_rfl, Nat.lt_add_of_pos_right positive⟩
    rw [List.map_cons, coverage_cons] at once
    rcases List.mem_cons.1 member with rfl | later
    · rw [List.find?_cons_of_pos (by simp)]
    · have inRest := span_le_coverage (List.mem_map_of_mem
        (f := PreparedExactExtent.reference) later) extent.reference.blockIndex
      have differs : first.reference ≠ extent.reference := by
        intro same
        rw [same] at once
        omega
      rw [List.find?_cons_of_neg (by simpa using differs)]
      exact ih later (by omega)

theorem CommitState.Accounts.settled (accounts : state.Accounts L input)
    (highWater : state.pool.nextBlock * L.allocationQuantumBytes ≤ later.highWaterBytes)
    (store : ExtentStore) : state.Settled L later (store.write state.extents) :=
  ⟨fun extent member => by rw [ExtentStore.write, accounts.find member], highWater⟩

/-- Writing the extents of a commit keeps those of earlier generations. -/
theorem CommitState.Accounts.within (accounts : state.Accounts L input) {generation : Nat}
    (earlier : generation < input.generation) (store : ExtentStore) :
    store.Within generation (store.write state.extents) := by
  intro reference extent old found
  have absent : (state.extents.find? fun other => other.reference = reference) = none := by
    rw [List.find?_eq_none]
    intro other member same
    have created := (accounts.taken other member).2.2
    rw [of_decide_eq_true same] at created
    omega
  rw [ExtentStore.write, absent]
  exact found

end Miare
