import Miare.Blob.Proofs.Chunk

/-!
# How far staging can grow

A reservation that fails behind the end of the file leaves its blocks in the free list, where the
next reservations find them.  So the next block stays within two chunks of the largest file, and its
byte offset is a `std::uint64_t`.
-/

namespace Miare

open Misc

variable {L : Limits}

/-! ## Runs that do not touch -/

/-- Ascending runs with a gap between any two. -/
def Separated (runs : List ExtentRun) : Prop :=
  runs.Pairwise fun left right => left.limit < right.start

theorem Separated.ascending {runs : List ExtentRun} (separated : Separated runs) :
    Ascending runs :=
  separated.imp fun below => Nat.le_of_lt below

/-- Blocks without a gap lie in one run. -/
theorem Separated.contiguous {runs : List ExtentRun} (separated : Separated runs)
    (start : Nat) {count : Nat} (positive : 0 < count)
    (covered : ∀ x, start ≤ x → x < start + count → coverage runs x ≠ 0) :
    ∃ run ∈ runs, count ≤ run.count := by
  have found {x : Nat} (low : start ≤ x) (high : x < start + count) :
      ∃ run ∈ runs, run.start ≤ x ∧ x < run.limit := by
    obtain ⟨run, member, covers⟩ := (coverage_pos_iff runs x).1
      (Nat.pos_of_ne_zero (covered x low high))
    exact ⟨run, member, covers⟩
  obtain ⟨run, member, before, inside⟩ := found (Nat.le_refl start) (by omega)
  refine ⟨run, member, ?_⟩
  by_contra short
  -- the block behind the run would belong to another one that touches it
  have ends : run.limit < start + count := by
    unfold ExtentRun.limit
    omega
  obtain ⟨other, otherMember, otherBefore, otherInside⟩ := found (x := run.limit) (by omega) ends
  have differ : run ≠ other := by
    rintro rfl
    omega
  have apart := List.Pairwise.forall_of_forall_of_flip
    (R := fun left right : ExtentRun => left ≠ right →
      left.limit < right.start ∨ right.limit < left.start) (l := runs)
    (fun _ _ same => absurd rfl same)
    (separated.imp fun below _ => .inl below) (separated.imp fun below _ => .inr below)
    member otherMember differ
  omega

theorem takeFirstFit_none {count : Nat} {runs : List ExtentRun}
    (none_ : takeFirstFit count runs = none) : ∀ run ∈ runs, run.count < count := by
  induction runs with
  | nil => simp
  | cons head rest ih =>
    simp only [takeFirstFit] at none_
    split at none_
    · cases none_
    · next short =>
      intro run member
      rcases List.mem_cons.1 member with rfl | member
      · exact not_le.1 short
      · exact ih (by simpa using none_) run member

theorem takeFirstFit_separated {count allocated : Nat} {runs remaining : List ExtentRun}
    (taken : takeFirstFit count runs = some (allocated, remaining)) (separated : Separated runs) :
    Separated remaining ∧
      ∀ lower, (∀ run ∈ runs, lower < run.start) → ∀ run ∈ remaining, lower < run.start := by
  induction runs generalizing remaining with
  | nil => simp [takeFirstFit] at taken
  | cons run runs ih =>
    obtain ⟨below, rest⟩ := List.pairwise_cons.1 separated
    simp only [takeFirstFit] at taken
    split at taken
    · simp only [Option.some.injEq, Prod.mk.injEq] at taken
      obtain ⟨rfl, rfl⟩ := taken
      refine ⟨List.pairwise_cons.2 ⟨fun other member => ?_, rest⟩, ?_⟩
      · have := below other member
        simp only [ExtentRun.limit] at this ⊢
        omega
      · intro lower bound other member
        rcases List.mem_cons.1 member with rfl | member
        · exact Nat.lt_of_lt_of_le (bound run (by simp)) (Nat.le_add_right _ _)
        · exact bound other (by simp [member])
    · simp only [Option.map_eq_some_iff, Prod.exists, Prod.mk.injEq] at taken
      obtain ⟨start, others, found, rfl, rfl⟩ := taken
      obtain ⟨ordered, starts⟩ := ih found rest
      refine ⟨List.pairwise_cons.2 ⟨starts _ below, ordered⟩, ?_⟩
      intro lower bound other member
      rcases List.mem_cons.1 member with rfl | member
      · exact bound other (by simp)
      · exact starts lower (fun run present => bound run (by simp [present])) other member

theorem absorbFollowing_separated {after : List ExtentRun} (position : ExtentRun)
    (separated : Separated after) (starts : ∀ run ∈ after, position.start ≤ run.start) :
    Separated (absorbFollowing position after) ∧
      ∀ run ∈ absorbFollowing position after, position.start ≤ run.start := by
  induction after generalizing position with
  | nil => exact ⟨List.pairwise_singleton _ _, by simp [absorbFollowing]⟩
  | cons following rest ih =>
    obtain ⟨below, tail⟩ := List.pairwise_cons.1 separated
    simp only [absorbFollowing]
    by_cases touching : following.start ≤ position.limit
    · rw [if_pos touching]
      exact ih { position with count := max position.limit following.limit - position.start } tail
        fun run member => starts run (by simp [member])
    · rw [if_neg touching]
      refine ⟨List.pairwise_cons.2 ⟨fun run member => ?_, separated⟩, fun run member => ?_⟩
      · rcases List.mem_cons.1 member with rfl | member
        · exact not_le.1 touching
        · have := below run member
          simp only [ExtentRun.limit] at this touching ⊢
          omega
      · rcases List.mem_cons.1 member with rfl | member
        · exact Nat.le_refl _
        · exact starts run member

theorem insertBlobStagingFreeRun_separated {runs : List ExtentRun} (inserted : ExtentRun)
    (separated : Separated runs) : Separated (insertBlobStagingFreeRun runs inserted) := by
  have split : runs.takeWhile (fun run => run.start < inserted.start) ++
      runs.dropWhile (fun run => run.start < inserted.start) = runs :=
    List.takeWhile_append_dropWhile
  have afterStart := dropWhile_start_le separated.ascending inserted.start
  have beforeStart : ∀ run ∈ runs.takeWhile (fun run => run.start < inserted.start),
      run.start < inserted.start := fun run member => by
    simpa using List.all_eq_true.1 List.all_takeWhile run member
  unfold insertBlobStagingFreeRun
  generalize runs.takeWhile (fun run => run.start < inserted.start) = before at *
  generalize runs.dropWhile (fun run => run.start < inserted.start) = after at *
  subst split
  obtain ⟨front, back, across⟩ := List.pairwise_append.1 separated
  rcases List.eq_nil_or_concat before with rfl | ⟨earlier, previous, rfl⟩
  · exact (absorbFollowing_separated inserted back afterStart).1
  · simp only [List.concat_eq_append, List.getLast?_append, List.getLast?_singleton, Option.some_or,
      List.dropLast_concat] at *
    obtain ⟨first, -, gaps⟩ := List.pairwise_append.1 front
    have previousStart := beforeStart previous (by simp)
    by_cases touching : inserted.start ≤ previous.limit
    · rw [if_pos touching]
      obtain ⟨merged, starts⟩ := absorbFollowing_separated
        { previous with count := max previous.limit inserted.limit - previous.start } back
        fun run member => (afterStart run member).trans' previousStart.le
      refine List.pairwise_append.2 ⟨first, merged, fun left member right later => ?_⟩
      exact Nat.lt_of_lt_of_le (gaps left member previous (by simp)) (starts right later)
    · rw [if_neg touching]
      obtain ⟨merged, starts⟩ := absorbFollowing_separated inserted back afterStart
      refine List.pairwise_append.2 ⟨front, merged, fun left member right later => ?_⟩
      refine Nat.lt_of_lt_of_le ?_ (starts right later)
      rcases List.mem_append.1 member with early | last
      · have := gaps left early previous (by simp)
        omega
      · obtain rfl := List.mem_singleton.1 last
        exact not_le.1 touching

/-! ## The next block -/

/-- Blocks of a chunk that is stored as it is. -/
def Limits.chunkBlocks (L : Limits) : Nat := L.blocksFor (encodedExtentLength L.blobChunkBytes)

/-- Whole blocks of the largest file. -/
def Limits.fileBlocks (L : Limits) : Nat := maxFileOffset / L.allocationQuantumBytes

/-- The free list is coalesced and the next block near the largest file. -/
structure StagingTail (L : Limits) (state : StagingAllocator) : Prop where
  separated : Separated state.stagingFreeRuns
  bounded : state.stagingNextBlock ≤ L.fileBlocks + 2 * L.chunkBlocks

theorem StagingTail.representable {state : StagingAllocator} (tail : StagingTail L state) :
    state.stagingNextBlock * L.allocationQuantumBytes < 2 ^ 64 := by
  have chunk : L.chunkBlocks * L.allocationQuantumBytes ≤
      encodedExtentLength L.blobChunkBytes + L.allocationQuantumBytes := by
    unfold Limits.chunkBlocks Limits.blocksFor
    have := Nat.div_mul_le_self
      (encodedExtentLength L.blobChunkBytes + L.allocationQuantumBytes - 1) L.allocationQuantumBytes
    omega
  have largest : L.fileBlocks * L.allocationQuantumBytes ≤ maxFileOffset := Nat.div_mul_le_self _ _
  have bounded := Nat.mul_le_mul_right L.allocationQuantumBytes tail.bounded
  rw [Nat.add_mul, Nat.mul_assoc] at bounded
  have := L.chunk_upper
  have := L.quantum_upper
  unfold encodedExtentLength extentLayoutBytes authenticationTagBytes at chunk
  unfold maxFileOffset at largest
  omega

section Tail

variable {session : BlobSession L} {state : StagingAllocator} {held : List ExtentReference}
  {reference : ExtentReference}

theorem StagingTail.giveBack (tail : StagingTail L state) (run : ExtentRun) :
    StagingTail L { state with
      stagingFreeRuns := insertBlobStagingFreeRun state.stagingFreeRuns run } :=
  ⟨insertBlobStagingFreeRun_separated run tail.separated, tail.bounded⟩

theorem StagingTail.release (tail : StagingTail L state) (reference : ExtentReference) :
    StagingTail L (releaseBlobStagingReference state reference) :=
  ⟨insertBlobStagingFreeRun_separated _ tail.separated, tail.bounded⟩

theorem StagingTail.releases (tail : StagingTail L state) (references : List ExtentReference) :
    StagingTail L (releaseBlobStagingReferences state references) := by
  induction references generalizing state with
  | nil => exact tail
  | cons reference rest ih => exact ih (tail.release reference)

theorem StagingTail.initialize (tail : StagingTail L state) (readers : List Nat)
    (committed : session.space.highWaterBlocks ≤ L.fileBlocks) :
    StagingTail L (initializeBlobStagingAllocator session.space readers state) := by
  unfold initializeBlobStagingAllocator
  split
  · exact tail
  · refine ⟨(coalesceBlobStagingFreeRuns_canonical fun x => ?_).2, committed.trans (by simp)⟩
    have initial := coverage_initialStagingRuns_le session.space readers x
    have partitioned := session.space.coverage_le_one x
    rw [initialStagingRuns, coverage_coalesceBlobStagingFreeRuns] at initial
    omega

/-- A reservation grows the file only when less than a chunk is free at its end. -/
theorem StagingTail.reserve {initialReaders : List Nat} (tail : StagingTail L state)
    (books : StagingBooks session.space initialReaders state held)
    (committed : session.space.highWaterBlocks ≤ L.fileBlocks)
    (inside : ∀ reference ∈ held, reference.blockIndex + reference.blockCount ≤ L.fileBlocks)
    {count : Nat} (positive : 0 < count) (small : count ≤ L.chunkBlocks) :
    StagingTail L { state with
      stagingFreeRuns := (state.pool.allocateBlocks count).2.freeRuns
      stagingNextBlock := (state.pool.allocateBlocks count).2.nextBlock } := by
  unfold BlockPool.allocateBlocks
  cases taken : takeFirstFit count state.pool.freeRuns with
  | some found => exact ⟨(takeFirstFit_separated taken tail.separated).1, tail.bounded⟩
  | none =>
    refine ⟨tail.separated, ?_⟩
    change state.stagingNextBlock + count ≤ _
    by_contra far
    -- then a whole chunk behind the largest file would be free, in one run
    obtain ⟨run, member, fits⟩ := tail.separated.contiguous L.fileBlocks positive
      fun x low high => by
        have balance := books.balance x
        have unheld : coverage held x = 0 := by
          rw [coverage_eq_zero_iff]
          rintro reference present ⟨-, covers⟩
          have := inside reference present
          simp only [ExtentReference.first_eq, ExtentReference.size_eq] at covers
          omega
        rw [stagedBlocks, between_eq_one (by omega)] at balance
        omega
    exact absurd fits (not_le.2 (takeFirstFit_none taken run member))

/-- Staging a chunk keeps the tail. -/
theorem stageChunk_tail {readers : List Nat} {file decoded : Bytes} {id : BlobId} {ordinal : Nat}
    (tail : StagingTail L state) (inv : StagingInv session.space readers state held)
    (committed : session.space.highWaterBlocks ≤ L.fileBlocks)
    (inside : ∀ reference ∈ held, reference.blockIndex + reference.blockCount ≤ L.fileBlocks)
    (short : decoded.length ≤ L.blobChunkBytes) (environment : StageEnvironment) :
    StagingTail L
      (session.stageChunk readers state file id ordinal decoded environment).result.state := by
  obtain ⟨initialReaders, -, books⟩ := inv.initialize
  have initialized := tail.initialize readers committed
  obtain ⟨input, isInput⟩ : ∃ input,
      session.chunkInput readers state id ordinal decoded environment = input := ⟨_, rfl⟩
  unfold BlobSession.stageChunk
  dsimp only
  rw [isInput]
  rcases stageBlobChunk_cases session.space readers state file.length input with
    ⟨later, error, early, rfl | rfl⟩ | ⟨reserves, notPrepare, notReserve, loads⟩
  · rw [early]
    exact tail
  · rw [early]
    exact initialized
  · obtain ⟨payload, reserved⟩ := chunkInput_reserved isInput notPrepare notReserve loads
    have stored := (prepareExtentPayload_prepared reserved.prepares).length_le
    have small : L.blocksFor (encodedExtentLength input.storedBytes) ≤ L.chunkBlocks := by
      apply L.blocksFor_mono
      rw [reserved.storedBytes]
      unfold encodedExtentLength
      omega
    have taken := initialized.reserve books committed inside
      (L.blocksFor_pos (encodedExtentLength_pos _)) small
    rw [reserves]
    unfold reserveAndWrite
    dsimp only
    split
    · exact ⟨taken.separated, taken.bounded⟩
    · exact taken.giveBack _

end Tail

end Miare
