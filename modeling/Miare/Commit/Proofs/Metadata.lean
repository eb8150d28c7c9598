import Miare.Allocator.Proofs.Runs
import Miare.Tree.Proofs.Levels
import Miare.Commit.Metadata

/-!
# When the metadata fixed point is consistent

A converged loop publishes a split of the free blocks exactly when every reservation it carved
was disjoint from the reservations it already had.  The loop itself does not see to that: it
carves from the represented free list, and that list again holds the blocks of reservations that
are unused or only partly used.
-/

namespace Miare

open Misc

variable {L : Limits} {input : MetadataInput} {state : MetadataState}
  {extents : List MetadataExtent} {result : MetadataResult}

/-! ## Reservations -/

theorem coverage_eraseEmptyRuns (runs : List ExtentRun) (x : Nat) :
    coverage (eraseEmptyRuns runs) x = coverage runs x := by
  apply coverage_filter_eq
  rintro run - empty ⟨lower, upper⟩
  have zero : run.count = 0 := by simpa using empty
  simp only [ExtentRun.first_eq, ExtentRun.size_eq] at lower upper
  omega

/-- Carving moves blocks from the list, or from behind `nextBlock`, to the reservations. -/
theorem reservePages_coverage (generation count : Nat) (pool : BlockPool) :
    pool.nextBlock ≤ (reservePages L generation count pool).2.nextBlock ∧
      ∀ x, coverage pool.freeRuns x +
          between pool.nextBlock (reservePages L generation count pool).2.nextBlock x =
        coverage (reservePages L generation count pool).2.freeRuns x +
          coverage (reservePages L generation count pool).1 x := by
  induction count generalizing pool with
  | zero => exact ⟨Nat.le_refl _, fun x => by simp [reservePages]⟩
  | succ count ih =>
    obtain ⟨grown, rest⟩ := ih (pool.allocateBlocks L.metadataPageBlocks).2
    have first := allocateBlocks_nextBlock pool L.metadataPageBlocks
    refine ⟨Nat.le_trans first grown, fun x => ?_⟩
    have taken := allocateBlocks_coverage pool L.metadataPageBlocks x
    have carved := rest x
    have tail := between_split first grown x
    simp only [reservePages, coverage_cons, span_reference]
    omega

theorem reservePages_blockCount (generation count : Nat) (pool : BlockPool) :
    ∀ reserved ∈ (reservePages L generation count pool).1,
      reserved.blockCount = L.metadataPageBlocks := by
  induction count generalizing pool with
  | zero => simp [reservePages]
  | succ count ih =>
    intro reserved member
    rcases List.mem_cons.1 member with rfl | member
    · rfl
    · exact ih _ reserved member

/-! ## Pages in reservations -/

/-- Page number `index` was placed at reservation number `index`. -/
def Placed (reservations : List ExtentReference) (extents : List MetadataExtent) : Prop :=
  ∀ (index : Nat) (extent : MetadataExtent) (reserved : ExtentReference),
    extents[index]? = some extent → reservations[index]? = some reserved →
    extent.reference.blockIndex = reserved.blockIndex

theorem prepareReserved_keeps (attempt : Nat) (state : MetadataState) :
    (prepareReserved L input attempt state).Keeps (Placed state.reservations) := by
  intro extents payload kind placed index extent reserved atExtent atReserved
  simp only [prepareReserved] at atExtent
  rcases Nat.lt_trichotomy index extents.length with earlier | rfl | later
  · rw [List.getElem?_append_left earlier] at atExtent
    exact placed index extent reserved atExtent atReserved
  · rw [List.getElem?_append_right (Nat.le_refl _), Nat.sub_self] at atExtent
    simp only [List.getElem?_cons_zero, Option.some.injEq] at atExtent
    subst atExtent
    simp [List.head?_drop, atReserved]
  · rw [List.getElem?_eq_none (by simp; omega)] at atExtent
    cases atExtent

theorem persistAllocatorIndex_keeps {σ : Type*} {place : Placement σ} {P : σ → Prop}
    (keeps : place.Keeps P) {retired : Bool} {runs : List ExtentRun} {state after : σ}
    {root : ExtentReference} (before : P state)
    (persisted : persistAllocatorIndex L retired runs place state = .ok (root, after)) :
    P after := by
  unfold persistAllocatorIndex at persisted
  split at persisted
  · simp only [Except.ok.injEq, Prod.mk.injEq] at persisted
    exact persisted.2 ▸ before
  · split at persisted
    · cases persisted
    · rename_i nodes leaves placed
      split at persisted
      · cases persisted
      · rename_i top final grown
        obtain ⟨-, rfl⟩ := persisted
        unfold allocatorLeaves at placed
        split at placed
        · cases placed
        · exact (growRoot_grows grown).keeps keeps (placePages_keeps keeps before placed)

theorem writeIndexes_placed {attempt : Nat} {retiredRoot freeRoot : ExtentReference}
    (written : writeIndexes L input attempt state = .ok (retiredRoot, freeRoot, extents)) :
    Placed state.reservations extents := by
  unfold writeIndexes at written
  split at written
  · cases written
  · rename_i root first retired
    split at written
    · cases written
    · rename_i other second free
      obtain ⟨-, -, rfl⟩ := written
      have keeps : (prepareReserved L input attempt state).Keeps (Placed state.reservations) :=
        prepareReserved_keeps attempt state
      exact persistAllocatorIndex_keeps keeps
        (persistAllocatorIndex_keeps keeps (fun index => by simp) retired) free

/-- The pages of a turn that got along with the reservations. -/
structure Fits (L : Limits) (state : MetadataState) (extents : List MetadataExtent) : Prop where
  placed : Placed state.reservations extents
  few : extents.length ≤ state.reservations.length
  small : ∀ extent ∈ extents, extent.reference.blockCount ≤ L.metadataPageBlocks

theorem coverage_unusedSuffix {pageBlocks usedBlocks : Nat} (reserved : ExtentReference)
    (fits : usedBlocks ≤ pageBlocks) (x : Nat) :
    coverage (unusedSuffix pageBlocks reserved usedBlocks) x =
      between (reserved.blockIndex + usedBlocks) (reserved.blockIndex + pageBlocks) x := by
  unfold unusedSuffix
  split
  · rw [coverage_cons, coverage_nil, span_mk,
      show reserved.blockIndex + usedBlocks + (pageBlocks - usedBlocks) =
        reserved.blockIndex + pageBlocks by omega]
    rfl
  · rename_i same
    rw [not_not.1 same, coverage_nil, between_self]

/-- Pages and unused suffixes split the reservations. -/
theorem coverage_unusedSuffixes {pageBlocks : Nat} {reservations : List ExtentReference}
    (full : ∀ reserved ∈ reservations, reserved.blockCount = pageBlocks)
    (placed : Placed reservations extents) (few : extents.length ≤ reservations.length)
    (small : ∀ extent ∈ extents, extent.reference.blockCount ≤ pageBlocks) (x : Nat) :
    coverage (extents.map MetadataExtent.reference) x +
        coverage (unusedSuffixes pageBlocks reservations extents) x =
      coverage reservations x := by
  induction reservations generalizing extents with
  | nil =>
    have none : extents = [] := List.eq_nil_of_length_eq_zero (by simpa using few)
    subst none
    simp [unusedSuffixes]
  | cons reserved rest ih =>
    have count := full reserved List.mem_cons_self
    have restFull : ∀ other ∈ rest, other.blockCount = pageBlocks := fun other member =>
      full other (List.mem_cons_of_mem _ member)
    cases extents with
    | nil =>
      have tail : coverage (([] : List MetadataExtent).map MetadataExtent.reference) x +
          coverage (unusedSuffixes pageBlocks rest []) x = coverage rest x :=
        ih restFull (fun index => by simp) (Nat.zero_le _) (by simp)
      have whole := coverage_unusedSuffix reserved (Nat.zero_le pageBlocks) x
      simp only [unusedSuffixes, List.map_nil, coverage_nil, coverage_append, coverage_cons,
        span_reference, count, Nat.add_zero] at tail whole ⊢
      omega
    | cons extent others =>
      have here : extent.reference.blockIndex = reserved.blockIndex :=
        placed 0 extent reserved rfl rfl
      have fits := small extent List.mem_cons_self
      have tail := ih restFull
        (fun index => placed (index + 1)) (by simpa using few)
        (fun other member => small other (List.mem_cons_of_mem _ member))
      have unused := coverage_unusedSuffix reserved fits x
      have cut := between_split (Nat.le_add_right reserved.blockIndex
        extent.reference.blockCount) (Nat.add_le_add_left fits reserved.blockIndex) x
      simp only [unusedSuffixes, List.map_cons, coverage_append, coverage_cons, span_reference,
        here, count]
      omega

/-! ## The list that follows from a turn -/

theorem coverage_finalFreeRuns (L : Limits) (state : MetadataState)
    (extents : List MetadataExtent) (x : Nat) :
    coverage (finalFreeRuns L state extents) x =
      (if coverage state.reservations x = 0 then coverage state.represented x else 0) +
        coverage (unusedSuffixes L.metadataPageBlocks state.reservations extents) x := by
  rw [finalFreeRuns, coverage_coalesceBlobStagingFreeRuns, coverage_append,
    coverage_removeRanges]

/-- A turn asks for reservations, keeps going with a new list, or has converged. -/
theorem metadataTurn_ok {attempt : Nat} {turn : MetadataTurn}
    (turned : metadataTurn L input attempt state = .ok turn) :
    (∃ runs count, carving L input attempt state = some (runs, count) ∧
        turn = .again (state.carve L input.generation runs count) ∧
        (runs = state.represented ∨
          ∃ extents, Fits L state extents ∧ runs = finalFreeRuns L state extents)) ∨
      (∃ extents, carving L input attempt state = none ∧ Fits L state extents ∧
        turn = .again { state with
          represented := finalFreeRuns L state extents, previous := some state.represented }) ∨
      ∃ extents freeRoot retiredRoot, carving L input attempt state = none ∧
        Fits L state extents ∧ finalFreeRuns L state extents = state.represented ∧
        turn = .converged
          { freeRuns := finalFreeRuns L state extents, nextBlock := state.nextBlock, extents,
            freeRoot, retiredRoot } := by
  unfold metadataTurn at turned
  unfold carving
  split at turned
  · cases turned
  · rename_i retiredRoot freeRoot extents written
    have placed := writeIndexes_placed written
    simp only
    split at turned
    · rename_i more
      simp only [Except.ok.injEq] at turned
      exact Or.inl ⟨_, _, if_pos more, turned.symm, Or.inl rfl⟩
    · rename_i enough
      rw [if_neg enough]
      split at turned
      · cases turned
      · rename_i sized
        have fits : Fits L state extents := by
          refine ⟨placed, Nat.le_of_not_lt enough, fun extent member => ?_⟩
          by_contra large
          exact sized (List.any_eq_true.2 ⟨extent, member, by simpa using large⟩)
        simp only at turned
        split at turned
        · rename_i same
          simp only [Except.ok.injEq] at turned
          exact Or.inr (Or.inr ⟨extents, freeRoot, retiredRoot, if_neg (by simp [same]), fits, same,
            turned.symm⟩)
        · rename_i differs
          split at turned
          · rename_i alternates
            simp only [Except.ok.injEq] at turned
            exact Or.inl ⟨_, _, if_pos ⟨differs, alternates⟩, turned.symm,
              Or.inr ⟨extents, fits, rfl⟩⟩
          · rename_i fresh
            simp only [Except.ok.injEq] at turned
            exact Or.inr (Or.inl ⟨extents, if_neg (fun both => fresh both.2), fits,
              turned.symm⟩)

/-! ## Reservations that stay apart -/

/-- The reservations that the turn beginning in this state carves, if it carves any, have no
block in common with the reservations it already holds. -/
def FreshCarving (L : Limits) (input : MetadataInput) (attempt : Nat) (state : MetadataState) :
    Prop :=
  ∀ runs count, carving L input attempt state = some (runs, count) →
    ∀ x, coverage state.reservations x + coverage (reservePages L input.generation count
      { freeRuns := runs, nextBlock := state.nextBlock }).1 x ≤ 1

/-- The blocks the loop distributes: the initial free runs and what it appended. -/
def metadataBlocks (freeRuns : List ExtentRun) (startBlock nextBlock x : Nat) : Nat :=
  coverage freeRuns x + between startBlock nextBlock x

/-- The loop invariant while reservations stay apart. -/
structure MetadataInv (L : Limits) (freeRuns : List ExtentRun) (startBlock : Nat)
    (state : MetadataState) : Prop where
  full : ∀ reserved ∈ state.reservations, reserved.blockCount = L.metadataPageBlocks
  grown : startBlock ≤ state.nextBlock
  disjoint : ∀ x, coverage state.reservations x ≤ 1
  inside : ∀ x, coverage state.reservations x = 1 →
    metadataBlocks freeRuns startBlock state.nextBlock x = 1
  outside : ∀ x, coverage state.reservations x = 0 →
    coverage state.represented x = metadataBlocks freeRuns startBlock state.nextBlock x

variable {freeRuns : List ExtentRun} {startBlock : Nat}

theorem metadataBlocks_le_one (canonical : Canonical freeRuns)
    (below : ∀ run ∈ freeRuns, run.limit ≤ startBlock) (nextBlock x : Nat) :
    metadataBlocks freeRuns startBlock nextBlock x ≤ 1 := by
  have free := canonical.ascending.coverage_le_one x
  have tail := between_le_one startBlock nextBlock x
  unfold metadataBlocks
  by_cases behind : startBlock ≤ x
  · have := coverage_eq_zero_of_limit below behind
    omega
  · have : between startBlock nextBlock x = 0 := between_eq_zero (by omega)
    omega

theorem MetadataInv.initial (freeRuns : List ExtentRun) (startBlock : Nat) :
    MetadataInv L freeRuns startBlock (.initial freeRuns startBlock) := by
  refine ⟨by simp [MetadataState.initial], Nat.le_refl _, by simp [MetadataState.initial],
    by simp [MetadataState.initial], fun x _ => ?_⟩
  simp [MetadataState.initial, metadataBlocks]

/-- Carving fresh blocks from a list that is right outside the reservations. -/
theorem MetadataInv.carve (inv : MetadataInv L freeRuns startBlock state)
    (canonical : Canonical freeRuns) (below : ∀ run ∈ freeRuns, run.limit ≤ startBlock)
    {runs : List ExtentRun} {count : Nat} (right : ∀ x, coverage state.reservations x = 0 →
      coverage runs x = metadataBlocks freeRuns startBlock state.nextBlock x)
    (fresh : ∀ x, coverage state.reservations x + coverage (reservePages L input.generation count
      { freeRuns := runs, nextBlock := state.nextBlock }).1 x ≤ 1) :
    MetadataInv L freeRuns startBlock (state.carve L input.generation runs count) := by
  obtain ⟨further, moved⟩ := reservePages_coverage (L := L) input.generation count
    { freeRuns := runs, nextBlock := state.nextBlock }
  have full := reservePages_blockCount (L := L) input.generation count
    { freeRuns := runs, nextBlock := state.nextBlock }
  unfold MetadataState.carve
  generalize reservePages L input.generation count
    { freeRuns := runs, nextBlock := state.nextBlock } = carved at *
  have target : ∀ x, metadataBlocks freeRuns startBlock carved.2.nextBlock x =
      metadataBlocks freeRuns startBlock state.nextBlock x +
        between state.nextBlock carved.2.nextBlock x := by
    intro x
    have := between_split inv.grown further x
    unfold metadataBlocks
    omega
  refine ⟨?_, Nat.le_trans inv.grown further, ?_, ?_, ?_⟩
  · intro reserved member
    rcases List.mem_append.1 member with old | new
    · exact inv.full reserved old
    · exact full reserved new
  · intro x
    rw [coverage_append]
    exact fresh x
  · intro x one
    have bound := metadataBlocks_le_one canonical below carved.2.nextBlock x
    have split := target x
    have outside := right x
    have inside := inv.inside x
    have blocks := moved x
    rw [coverage_append] at one
    simp only at blocks ⊢
    omega
  · intro x zero
    have split := target x
    have outside := right x
    have blocks := moved x
    rw [coverage_append] at zero
    simp only at blocks ⊢
    rw [coverage_eraseEmptyRuns]
    omega

/-- Outside the reservations a turn's list is as before, inside it is what the pages leave. -/
theorem MetadataInv.final (inv : MetadataInv L freeRuns startBlock state)
    (fits : Fits L state extents) (x : Nat) :
    coverage (finalFreeRuns L state extents) x +
        coverage (extents.map MetadataExtent.reference) x =
      metadataBlocks freeRuns startBlock state.nextBlock x := by
  have parts := coverage_unusedSuffixes inv.full fits.placed fits.few fits.small x
  have outside := inv.outside x
  have inside := inv.inside x
  have bound := inv.disjoint x
  rw [coverage_finalFreeRuns]
  split <;> omega

theorem MetadataInv.right (inv : MetadataInv L freeRuns startBlock state)
    (fits : Fits L state extents) (x : Nat) (outside : coverage state.reservations x = 0) :
    coverage (finalFreeRuns L state extents) x =
      metadataBlocks freeRuns startBlock state.nextBlock x := by
  have parts := coverage_unusedSuffixes inv.full fits.placed fits.few fits.small x
  have total := inv.final fits x
  omega

/-! ## Whole runs of the loop -/

/-- The published map is consistent: metadata extents and free runs split the initial free blocks
and the appended blocks, and the free runs are sorted and not adjacent. -/
structure MetadataConsistent (freeRuns : List ExtentRun) (startBlock : Nat)
    (result : MetadataResult) : Prop where
  split : Tiles (result.freeRuns ++
      result.extents.map fun extent => extent.reference.toRun)
    { x | (∃ run ∈ freeRuns, Covers run x) ∨ (startBlock ≤ x ∧ x < result.nextBlock) }
  canonical : Canonical result.freeRuns

theorem coverage_result (result : MetadataResult) (x : Nat) :
    coverage (result.freeRuns ++ result.extents.map fun extent => extent.reference.toRun) x =
      coverage result.freeRuns x + coverage (result.extents.map MetadataExtent.reference) x := by
  rw [coverage_append, ← coverage_toRun, List.map_map]
  rfl

theorem mem_metadataBlocks {startBlock nextBlock : Nat} (x : Nat) :
    ((∃ run ∈ freeRuns, Covers run x) ∨ (startBlock ≤ x ∧ x < nextBlock)) ↔
      0 < metadataBlocks freeRuns startBlock nextBlock x := by
  have free := coverage_pos_iff freeRuns x
  have tail : 0 < between startBlock nextBlock x ↔ startBlock ≤ x ∧ x < nextBlock :=
    between_pos_iff
  unfold metadataBlocks
  rw [← free, ← tail]
  omega

/-- Consistency as an equation between coverages. -/
theorem metadataConsistent_of_coverage (canonical : Canonical freeRuns)
    (below : ∀ run ∈ freeRuns, run.limit ≤ startBlock) (sorted : Canonical result.freeRuns)
    (total : ∀ x, coverage result.freeRuns x +
        coverage (result.extents.map MetadataExtent.reference) x =
      metadataBlocks freeRuns startBlock result.nextBlock x) :
    MetadataConsistent freeRuns startBlock result := by
  refine ⟨⟨fun x usable => ?_, fun x unusable => ?_⟩, sorted⟩
  · have := (mem_metadataBlocks x).1 usable
    have := metadataBlocks_le_one canonical below result.nextBlock x
    rw [coverage_result, total]
    omega
  · have := mt (mem_metadataBlocks x).2 unusable
    rw [coverage_result, total]
    omega

theorem MetadataConsistent.coverage_le_one
    (consistent : MetadataConsistent freeRuns startBlock result) (x : Nat) :
    coverage result.freeRuns x + coverage (result.extents.map MetadataExtent.reference) x ≤ 1 := by
  rw [← coverage_result]
  by_cases usable : (∃ run ∈ freeRuns, Covers run x) ∨ (startBlock ≤ x ∧ x < result.nextBlock)
  · exact Nat.le_of_eq (consistent.split.1 x usable)
  · exact Nat.le_trans (Nat.le_of_eq (consistent.split.2 x usable)) (Nat.zero_le 1)

/-- While every carving is fresh, a converged loop is consistent. -/
theorem metadataTurns_consistent (canonical : Canonical freeRuns)
    (below : ∀ run ∈ freeRuns, run.limit ≤ startBlock) {remaining attempt : Nat}
    (inv : MetadataInv L freeRuns startBlock state)
    (fresh : ∀ entry ∈ metadataTrace L input remaining attempt state,
      FreshCarving L input entry.1 entry.2)
    (ends : metadataTurns L input remaining attempt state = .ok result) :
    MetadataConsistent freeRuns startBlock result := by
  induction remaining generalizing attempt state with
  | zero => cases ends
  | succ remaining ih =>
    simp only [metadataTurns] at ends
    simp only [metadataTrace] at fresh
    cases turned : metadataTurn L input attempt state with
    | error error => simp [turned] at ends
    | ok turn =>
      have here := fresh (attempt, state) List.mem_cons_self
      rcases metadataTurn_ok turned with ⟨runs, count, carves, rfl, source⟩ |
        ⟨extents, -, fits, rfl⟩ | ⟨extents, freeRoot, retiredRoot, -, fits, same, rfl⟩
      · simp only [turned] at ends fresh
        refine ih (inv.carve canonical below ?_ (here runs count carves))
          (fun entry member => fresh entry (List.mem_cons_of_mem _ member)) ends
        rcases source with rfl | ⟨extents, fits, rfl⟩
        · exact inv.outside
        · exact inv.right fits
      · simp only [turned] at ends fresh
        refine ih ?_ (fun entry member => fresh entry (List.mem_cons_of_mem _ member)) ends
        exact ⟨inv.full, inv.grown, inv.disjoint, inv.inside, inv.right fits⟩
      · simp only [turned, Except.ok.injEq] at ends
        subst ends
        have total := inv.final fits
        have disjoint : ∀ x, coverage (finalFreeRuns L state extents) x ≤ 1 := fun x => by
          have := metadataBlocks_le_one canonical below state.nextBlock x
          have := total x
          omega
        refine metadataConsistent_of_coverage canonical below ?_ total
        apply coalesceBlobStagingFreeRuns_canonical
        intro x
        rw [← coverage_coalesceBlobStagingFreeRuns]
        exact disjoint x

/-- A consistent result shows that all carvings were fresh: whatever was reserved twice is
accounted for twice in the end. -/
theorem metadataTurns_fresh {remaining attempt : Nat}
    (full : ∀ reserved ∈ state.reservations, reserved.blockCount = L.metadataPageBlocks)
    (disjoint : ∀ x, coverage result.freeRuns x +
      coverage (result.extents.map MetadataExtent.reference) x ≤ 1)
    (ends : metadataTurns L input remaining attempt state = .ok result) :
    (∀ x, coverage state.reservations x ≤ 1) ∧
      ∀ entry ∈ metadataTrace L input remaining attempt state,
        FreshCarving L input entry.1 entry.2 := by
  induction remaining generalizing attempt state with
  | zero => cases ends
  | succ remaining ih =>
    simp only [metadataTurns] at ends
    simp only [metadataTrace]
    cases turned : metadataTurn L input attempt state with
    | error error => simp [turned] at ends
    | ok turn =>
      rcases metadataTurn_ok turned with ⟨runs, count, carves, rfl, -⟩ |
        ⟨extents, none, fits, rfl⟩ | ⟨extents, freeRoot, retiredRoot, none, fits, same, rfl⟩
      · simp only [turned] at ends ⊢
        have carvedFull : ∀ reserved ∈ (state.carve L input.generation runs count).reservations,
            reserved.blockCount = L.metadataPageBlocks := by
          intro reserved member
          rcases List.mem_append.1 member with old | new
          · exact full reserved old
          · exact reservePages_blockCount _ _ _ reserved new
        obtain ⟨apart, later⟩ := ih carvedFull ends
        have split : ∀ x, coverage state.reservations x + coverage (reservePages L
            input.generation count { freeRuns := runs, nextBlock := state.nextBlock }).1 x ≤ 1 :=
          fun x => by
            have := apart x
            rwa [MetadataState.carve, coverage_append] at this
        refine ⟨fun x => by have := split x; omega, fun entry member => ?_⟩
        rcases List.mem_cons.1 member with rfl | member
        · intro otherRuns otherCount otherCarves
          simp only [carves, Option.some.injEq, Prod.mk.injEq] at otherCarves
          obtain ⟨rfl, rfl⟩ := otherCarves
          exact split
        · exact later entry member
      · simp only [turned] at ends ⊢
        obtain ⟨apart, later⟩ := ih (by exact full) ends
        refine ⟨apart, fun entry member => ?_⟩
        rcases List.mem_cons.1 member with rfl | member
        · intro runs count carves
          simp [none] at carves
        · exact later entry member
      · simp only [turned, Except.ok.injEq] at ends ⊢
        subst ends
        refine ⟨fun x => ?_, fun entry member => ?_⟩
        · have parts := coverage_unusedSuffixes full fits.placed fits.few fits.small x
          have listed := coverage_finalFreeRuns L state extents x
          have := disjoint x
          simp only at this
          omega
        · obtain rfl := List.mem_singleton.1 member
          intro runs count carves
          simp [none] at carves

/-- **The metadata fixed point.**  For every canonical free list below `nextBlock`, every list of
retired runs and every assignment of stored sizes: a converged loop has published a consistent map
if and only if each reservation it carved had no block in common with the reservations before. -/
theorem metadata_consistent_iff (L : Limits) (input : MetadataInput) (freeRuns : List ExtentRun)
    (nextBlock : Nat) (canonical : Canonical freeRuns)
    (below : ∀ run ∈ freeRuns, run.limit ≤ nextBlock) (result : MetadataResult)
    (converged : reserveMetadata L input freeRuns nextBlock = .ok result) :
    MetadataConsistent freeRuns nextBlock result ↔
      ∀ entry ∈ metadataTrace L input metadataConvergenceLimit 0 (.initial freeRuns nextBlock),
        FreshCarving L input entry.1 entry.2 := by
  constructor
  · intro consistent
    exact (metadataTurns_fresh (by simp [MetadataState.initial])
      consistent.coverage_le_one converged).2
  · intro fresh
    exact metadataTurns_consistent canonical below (MetadataInv.initial freeRuns nextBlock) fresh
      converged

/-! ## A reservation carved twice

Blocks of 512 bytes, 32 blocks to a page, and two free runs.  The first page goes to the run at
1000.  Its list is stored in 16 blocks, the list with the unused half returned in 32, so the two
lists alternate.  Each time the loop notices, it reserves the first 32 blocks at 2000: the second
time they are back in the list because the first reservation there was never used. -/

namespace DoubleReservation

def runs : List ExtentRun :=
  [{ start := 1000, count := 32 }, { start := 2000, count := 96 }]

/-- Pages are stored in 16 blocks, except the one that lists runs at 1016 and 2000. -/
def alternating : MetadataInput where
  generation := 3
  retiredRuns := []
  stored _ _ payload := if payload[136]? = some 208 then payload.length else 16 * 512 - 176

/-- No compression. -/
def plain : MetadataInput where
  generation := 3
  retiredRuns := []
  stored _ _ payload := payload.length

theorem runs_canonical : Canonical runs := by
  unfold Canonical runs
  decide

theorem runs_below : ∀ run ∈ runs, run.limit ≤ 3000 := by
  decide

/-- The one page of the free index goes to blocks 1000 to 1031. -/
def plainResult : MetadataResult :=
  match reserveMetadata Limits.smallQuantum plain runs 3000 with
  | .ok result => result
  | .error _ => { freeRuns := [], nextBlock := 0, extents := [], freeRoot := {}, retiredRoot := {} }

end DoubleReservation

theorem metadata_consistent_plain :
    Canonical DoubleReservation.runs ∧
      (∀ run ∈ DoubleReservation.runs, run.limit ≤ 3000) ∧
      reserveMetadata Limits.smallQuantum DoubleReservation.plain DoubleReservation.runs 3000 =
        .ok DoubleReservation.plainResult ∧
      MetadataConsistent DoubleReservation.runs 3000 DoubleReservation.plainResult := by
  have converged : reserveMetadata Limits.smallQuantum DoubleReservation.plain
      DoubleReservation.runs 3000 = .ok DoubleReservation.plainResult := by
    unfold DoubleReservation.plainResult
    have ok : (reserveMetadata Limits.smallQuantum DoubleReservation.plain
      DoubleReservation.runs 3000).isOk = true := by decide +kernel
    split
    · assumption
    · rename_i failed
      rw [failed] at ok
      cases ok
  refine ⟨DoubleReservation.runs_canonical, DoubleReservation.runs_below, converged, ?_⟩
  refine (metadata_consistent_iff Limits.smallQuantum DoubleReservation.plain
    DoubleReservation.runs 3000 DoubleReservation.runs_canonical
    DoubleReservation.runs_below _ converged).2 ?_
  -- the only carving is the first, and it meets no reservation
  have carved : ∀ entry ∈ metadataTrace Limits.smallQuantum DoubleReservation.plain
      metadataConvergenceLimit 0 (.initial DoubleReservation.runs 3000),
      carving Limits.smallQuantum DoubleReservation.plain entry.1 entry.2 = none ∨
        entry.2.reservations = [] ∧ (carving Limits.smallQuantum DoubleReservation.plain
          entry.1 entry.2).map Prod.snd = some 1 := by
    decide +kernel
  intro entry member runs count carves x
  rcases carved entry member with none | ⟨noReservations, one⟩
  · simp [none] at carves
  · simp only [carves, Option.map_some, Option.some.injEq] at one
    subst one
    rw [noReservations]
    simp only [reservePages, coverage_nil, coverage_cons, Nat.zero_add, Nat.add_zero]
    exact span_le_one _ x

/-- The loop converges on a list that has the blocks 2000 to 2031 twice. -/
theorem metadata_inconsistent :
    Canonical DoubleReservation.runs ∧
      (∀ run ∈ DoubleReservation.runs, run.limit ≤ 3000) ∧
      ∃ result, reserveMetadata Limits.smallQuantum DoubleReservation.alternating
          DoubleReservation.runs 3000 = .ok result ∧
        ¬ MetadataConsistent DoubleReservation.runs 3000 result := by
  refine ⟨DoubleReservation.runs_canonical, DoubleReservation.runs_below, ?_⟩
  have published : (reserveMetadata Limits.smallQuantum DoubleReservation.alternating
      DoubleReservation.runs 3000).toOption.map MetadataResult.freeRuns =
      some [{ start := 1016, count := 16 }, { start := 2000, count := 32 },
        { start := 2000, count := 96 }] := by decide +kernel
  cases converged : reserveMetadata Limits.smallQuantum DoubleReservation.alternating
      DoubleReservation.runs 3000 with
  | error error =>
    rw [converged] at published
    cases published
  | ok result =>
    rw [converged] at published
    refine ⟨result, rfl, fun consistent => ?_⟩
    have once := consistent.coverage_le_one 2000
    rw [show result.freeRuns = _ from Option.some.inj published] at once
    have twice : coverage [({ start := 1016, count := 16 } : ExtentRun),
        { start := 2000, count := 32 }, { start := 2000, count := 96 }] 2000 = 2 := by decide
    omega

end Miare
