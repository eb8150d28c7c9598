import Miare.Blob.Proofs.Transaction
import Miare.Blob.Stream
import Miare.Format.Proofs.Framing

/-!
# Chunks in the file

What one call of `stageBlobChunk` does to the bytes of the file: a staged chunk stands in its blocks
and reads back, and the blocks of all other chunks are as they were.
-/

namespace Miare

open Misc

variable {L : Limits}

/-! ## The file behind a call -/

/-- A file behind a call that reserved `count` blocks at `allocated`: nothing is cut off, and what
lies outside the blocks is as it was. -/
structure StagedFile (L : Limits) (allocated count : Nat) (file later : Bytes) : Prop where
  grown : file.length ≤ later.length
  kept : ∀ {offset length}, offset + length ≤ file.length →
    offset + length ≤ allocated * L.allocationQuantumBytes ∨
      (allocated + count) * L.allocationQuantumBytes ≤ offset →
    slice later offset length = slice file offset length

theorem StagedFile.refl (allocated count : Nat) (file : Bytes) :
    StagedFile L allocated count file file :=
  ⟨Nat.le_refl _, fun _ _ => rfl⟩

theorem StagedFile.resize (allocated count : Nat) {file : Bytes} {length : Nat}
    (grows : file.length ≤ length) : StagedFile L allocated count file (resizeTo length file) := by
  refine ⟨by rw [resizeTo_length]; exact grows, fun inside _ => ?_⟩
  exact slice_resizeTo (by omega) inside

/-- A write into the blocks. -/
theorem StagedFile.write {allocated count : Nat} {file grown bytes : Bytes}
    (staged : StagedFile L allocated count file grown)
    (sized : bytes.length ≤ count * L.allocationQuantumBytes)
    (inside : (allocated + count) * L.allocationQuantumBytes ≤ grown.length) :
    StagedFile L allocated count file
      (DiskOp.apply grown (.write (allocated * L.allocationQuantumBytes) bytes)) := by
  rw [Nat.add_mul] at inside
  have fits : allocated * L.allocationQuantumBytes + bytes.length ≤ grown.length := by omega
  have length := apply_write_length fits
  refine ⟨by rw [length]; exact staged.grown, fun {offset count'} within apart => ?_⟩
  rw [← staged.kept within apart]
  rcases apart with before | behind
  · exact slice_apply_write_before (by omega) before
  · rw [Nat.add_mul] at behind
    exact slice_apply_write_behind (by omega)

theorem sealed_length (input : StageInput) (count : Nat) :
    (input.sealed L count).length = count * L.allocationQuantumBytes := by
  simp [StageInput.sealed]

/-- The operations of the `try` block on the file. -/
structure Written (L : Limits) (allocated count : Nat) (input : StageInput) (file later : Bytes)
    (error : Option StageError) : Prop where
  staged : StagedFile L allocated count file later
  representable : file.length ≤ maxFileOffset →
    ((allocated + count) * L.allocationQuantumBytes ≤ maxFileOffset ∨
      input.fault = some .seal ∨ input.fault = some (.resize false)) →
    later.length ≤ maxFileOffset
  stands : error = none → input.fault ≠ some .seal ∧
    allocated + count ≤ uint64Max / L.allocationQuantumBytes ∧
    slice later (allocated * L.allocationQuantumBytes) (count * L.allocationQuantumBytes) =
      input.sealed L count

/-- The resize before the write, if the file is too short. -/
theorem foldl_resizes (file : Bytes) (required : Nat) :
    (if file.length < required then [DiskOp.resize required] else []).foldl DiskOp.apply file =
      resizeTo (max file.length required) file := by
  split
  · next short =>
    rw [Nat.max_eq_right short.le]
    rfl
  · next long =>
    rw [Nat.max_eq_left (not_lt.1 long), resizeTo_self]
    rfl

section WriteExtent

variable {allocated count fileBytes : Nat} {input : StageInput} {file : Bytes}
  {issued : List (DiskOp Byte)} {error : Option StageError}

/-- A call that throws before its first file operation. -/
theorem Written.none_issued (failed : error ≠ none) :
    Written L allocated count input file
      (resizeTo file.length (([] : List (DiskOp Byte)).foldl DiskOp.apply file)) error := by
  rw [List.foldl_nil, resizeTo_self]
  exact ⟨StagedFile.refl _ _ _, fun small _ => small, fun none => absurd none failed⟩

/-- A call that comes to the write, of which all or some of the bytes reach the file. -/
theorem Written.of_write {bytes : Bytes}
    (fits : allocated + count ≤ uint64Max / L.allocationQuantumBytes)
    (sealed : input.fault ≠ some .seal)
    (written : bytes.length ≤ count * L.allocationQuantumBytes)
    (whole : error = none → bytes = input.sealed L count)
    (grows : file.length < (allocated + count) * L.allocationQuantumBytes →
      input.fault ≠ some (.resize false)) :
    Written L allocated count input file
      (resizeTo (max file.length ((allocated + count) * L.allocationQuantumBytes))
        (((if file.length < (allocated + count) * L.allocationQuantumBytes then
          [DiskOp.resize ((allocated + count) * L.allocationQuantumBytes)] else []) ++
            [DiskOp.write (allocated * L.allocationQuantumBytes) bytes]).foldl DiskOp.apply file))
      error := by
  rw [List.foldl_append, foldl_resizes, List.foldl_cons, List.foldl_nil]
  have grown : (resizeTo (max file.length ((allocated + count) * L.allocationQuantumBytes))
      file).length = max file.length ((allocated + count) * L.allocationQuantumBytes) :=
    resizeTo_length _ _
  generalize isGrown : resizeTo (max file.length _) file = grownFile at grown ⊢
  have staged : StagedFile L allocated count file grownFile := by
    rw [← isGrown]
    exact StagedFile.resize _ _ (Nat.le_max_left _ _)
  have split := Nat.add_mul allocated count L.allocationQuantumBytes
  have inside : allocated * L.allocationQuantumBytes + bytes.length ≤ grownFile.length := by omega
  have length := apply_write_length inside
  rw [← grown, ← length, resizeTo_self]
  refine ⟨staged.write written (by omega), fun small bound => ?_, fun ok => ⟨sealed, fits, ?_⟩⟩
  · rw [length, grown]
    rcases bound with required | isSeal | refused
    · omega
    · exact absurd isSeal sealed
    · by_cases short : file.length < (allocated + count) * L.allocationQuantumBytes
      · exact absurd refused (grows short)
      · omega
  · rw [whole ok, ← sealed_length input count]
    exact slice_apply_write_here

theorem writeStagedExtent_written {highWaterBlocks : Nat}
    (writes : writeStagedExtent L highWaterBlocks file.length allocated count input =
      (issued, fileBytes, error)) :
    Written L allocated count input file
      (resizeTo fileBytes (issued.foldl DiskOp.apply file)) error := by
  have some_ne {cause : StageError} : some cause ≠ none := Option.some_ne_none _
  unfold writeStagedExtent at writes
  dsimp only at writes
  split at writes
  case isTrue =>
    cases writes
    exact Written.none_issued some_ne
  case isFalse sealed =>
  split at writes
  case isTrue =>
    cases writes
    exact Written.none_issued some_ne
  case isFalse =>
  split at writes
  case isTrue =>
    cases writes
    exact Written.none_issued some_ne
  case isFalse fits =>
  rw [not_lt] at fits
  split at writes
  case isTrue =>
    cases writes
    exact Written.none_issued some_ne
  case isFalse =>
  have whole := sealed_length (L := L) input count
  split at writes
  case h_1 grown isFault =>
    split at writes
    case isTrue short =>
      cases writes
      rw [List.foldl_cons, List.foldl_nil, DiskOp.apply]
      cases grown with
      | true =>
        rw [if_pos rfl]
        have resized : resizeTo ((allocated + count) * L.allocationQuantumBytes)
            (resizeTo ((allocated + count) * L.allocationQuantumBytes) file) =
            resizeTo ((allocated + count) * L.allocationQuantumBytes) file := by
          conv_lhs =>
            arg 1
            rw [← resizeTo_length ((allocated + count) * L.allocationQuantumBytes) file]
          exact resizeTo_self _
        rw [resized]
        refine ⟨StagedFile.resize _ _ short.le, fun _ bound => ?_, fun ok => absurd ok some_ne⟩
        rw [resizeTo_length]
        simpa [isFault] using bound
      | false =>
        rw [if_neg Bool.false_ne_true, resizeTo_resizeTo short.le]
        exact ⟨StagedFile.refl _ _ _, fun small _ => small, fun ok => absurd ok some_ne⟩
    case isFalse long =>
      cases writes
      have written := @Written.of_write L allocated count input file none _ fits sealed whole.le
        (fun _ => rfl) fun short => absurd short long
      rw [if_neg long] at written
      exact written
  case h_2 written isFault =>
    cases writes
    refine Written.of_write fits sealed ?_ (fun ok => absurd ok some_ne) fun _ => by simp [isFault]
    rw [List.length_take, whole]
    exact Nat.min_le_right _ _
  case h_3 noResize _ =>
    cases writes
    exact Written.of_write fits sealed whole.le (fun _ => rfl) fun _ => noResize false

end WriteExtent

/-! ## The blocks of held references -/

section Books

variable {space : CommittedSpace L} {initialReaders : List Nat} {state : StagingAllocator}
  {held : List ExtentReference} {reference other : ExtentReference}

/-- Blocks are held once. -/
theorem StagingBooks.apart (books : StagingBooks space initialReaders state (reference :: held))
    (member : other ∈ held) :
    other.blockIndex + other.blockCount ≤ reference.blockIndex ∨
      reference.blockIndex + reference.blockCount ≤ other.blockIndex := by
  by_contra overlap
  rw [not_or, not_le, not_le] at overlap
  obtain ⟨left, right⟩ := overlap
  have filled := books.nonempty reference (by simp)
  have otherFilled := books.nonempty other (by simp [member])
  -- the later of the two first blocks would be held twice
  have once := books.balance (max reference.blockIndex other.blockIndex)
  have bound := stagedBlocks_le_one space initialReaders state.stagingNextBlock
    (max reference.blockIndex other.blockIndex)
  have inner := span_le_coverage member (max reference.blockIndex other.blockIndex)
  rw [span_reference, between_eq_one (by omega)] at inner
  rw [coverage_cons, span_reference, between_eq_one (by omega)] at once
  omega

/-- A held block is behind the common region and before the next block. -/
theorem StagingBooks.bounds (books : StagingBooks space initialReaders state held)
    (behindCommon : L.commonBlocks ≤ space.highWaterBlocks) (member : reference ∈ held) :
    L.commonBlocks ≤ reference.blockIndex ∧
      reference.blockIndex + reference.blockCount ≤ state.stagingNextBlock := by
  have filled := books.nonempty reference member
  have staged {x : Nat} (inside : reference.blockIndex ≤ x ∧
      x < reference.blockIndex + reference.blockCount) :
      L.commonBlocks ≤ x ∧ x < state.stagingNextBlock := by
    have balance := books.balance x
    have grown := books.grown
    have inner := span_le_coverage member x
    have initial := coverage_initialStagingRuns_le space initialReaders x
    have partitioned := validateAllocatorPartition_ok space.partitioned x
    rw [span_reference, between_eq_one inside] at inner
    unfold stagedBlocks at balance
    unfold between at balance partitioned
    split_ifs at balance partitioned <;> omega
  have low := staged (x := reference.blockIndex) (by omega)
  have high := staged (x := reference.blockIndex + reference.blockCount - 1) (by omega)
  omega

end Books

/-! ## Staging a chunk -/

/-- The blocks of a reference hold the same bytes in both files. -/
def BlocksKept (L : Limits) (file later : Bytes) (reference : ExtentReference) : Prop :=
  slice later (reference.blockIndex * L.allocationQuantumBytes)
      (reference.blockCount * L.allocationQuantumBytes) =
    slice file (reference.blockIndex * L.allocationQuantumBytes)
      (reference.blockCount * L.allocationQuantumBytes)

/-- The sealed bytes of a chunk stand in its blocks. -/
structure ChunkStands (session : BlobSession L) (file : Bytes) (id : BlobId) (ordinal : Nat)
    (decoded : Bytes) (reference : ExtentReference) : Prop where
  words : reference.blockIndex + reference.blockCount ≤ uint64Max / L.allocationQuantumBytes
  common : L.commonBlocks ≤ reference.blockIndex
  sealed : ∃ payload nonce bytes body tag, nonce.length = aeadNonceBytes ∧
    prepareExtentPayload L session.providers session.opened decoded true = .ok payload ∧
    SealedExtent L session.providers session.opened payload (chunkContext id ordinal)
      (session.space.generation + 1) reference.blockIndex nonce reference bytes body tag ∧
    slice file (reference.blockIndex * L.allocationQuantumBytes) bytes.length = bytes

section Stage

variable {session : BlobSession L} {file later : Bytes} {id : BlobId} {ordinal : Nat}
  {decoded : Bytes} {reference : ExtentReference}

/-- A chunk that stands lies in the file. -/
theorem ChunkStands.inside (stands : ChunkStands session file id ordinal decoded reference) :
    (reference.blockIndex + reference.blockCount) * L.allocationQuantumBytes ≤ file.length := by
  obtain ⟨payload, nonce, bytes, body, tag, nonceSized, -, extent, found⟩ := stands.sealed
  have sized := extent.bytes_length nonceSized
  have positive : 0 < reference.blockCount := by
    rw [extent.reference_eq]
    exact L.blocksFor_pos (encodedExtentLength_pos _)
  have filled := Nat.mul_pos positive L.quantum_pos
  have length := congrArg List.length found
  simp only [slice, List.length_take, List.length_drop] at length
  rw [Nat.add_mul]
  omega

theorem ChunkStands.kept (stands : ChunkStands session file id ordinal decoded reference)
    (kept : BlocksKept L file later reference) :
    ChunkStands session later id ordinal decoded reference := by
  obtain ⟨payload, nonce, bytes, body, tag, nonceSized, prepares, extent, found⟩ := stands.sealed
  refine ⟨stands.words, stands.common, payload, nonce, bytes, body, tag, nonceSized, prepares,
    extent, ?_⟩
  rw [extent.bytes_length nonceSized] at found ⊢
  rw [kept, found]

/-- `stageBlobChunk` throws before it has reserved blocks, or goes on to reserve them. -/
theorem stageBlobChunk_cases (space : CommittedSpace L) (readers : List Nat)
    (state : StagingAllocator) (fileBytes : Nat) (input : StageInput) :
    (∃ later error, stageBlobChunk space readers state fileBytes input =
          .early later fileBytes error ∧
        (later = state ∨ later = initializeBlobStagingAllocator space readers state)) ∨
      stageBlobChunk space readers state fileBytes input = reserveAndWrite space
          (initializeBlobStagingAllocator space readers state) fileBytes input ∧
        input.fault ≠ some .prepare ∧ input.fault ≠ some .reserve ∧
        ∀ corrupt, input.fault = some (.load corrupt) → state.allocatorInitialized = true := by
  unfold stageBlobChunk
  split
  · next corrupt isLoad =>
    split
    · next initialized =>
      rw [initializeBlobStagingAllocator, if_pos initialized, isLoad]
      exact .inr ⟨rfl, by simp, by simp, fun _ _ => initialized⟩
    · exact .inl ⟨_, _, rfl, .inl rfl⟩
  · exact .inl ⟨_, _, rfl, .inr rfl⟩
  · exact .inl ⟨_, _, rfl, .inr rfl⟩
  · next notLoad notPrepare notReserve =>
    exact .inr ⟨rfl, notPrepare, notReserve, fun corrupt isLoad => absurd isLoad (notLoad corrupt)⟩

/-- Either the own fault, or an earlier one of the environment. -/
theorem StageEnvironment.faultBefore_cases (environment : StageEnvironment) (initialized : Bool)
    (own : StageFault) :
    environment.faultBefore initialized own = own ∨
      (∃ corrupt, environment.faultBefore initialized own = .load corrupt ∧ initialized = false) ∨
      ∃ fault, environment.faultBefore initialized own = fault ∧ 0 < fault.rank ∧
        fault.rank < own.rank := by
  unfold StageEnvironment.faultBefore
  split
  · exact .inl rfl
  · cases initialized with
    | true => exact .inl rfl
    | false => exact .inr (.inl ⟨_, rfl, rfl⟩)
  · next fault notLoad isFault =>
    split
    · next earlier =>
      refine .inr (.inr ⟨fault, rfl, Nat.pos_of_ne_zero fun zero => ?_, earlier⟩)
      cases fault with
      | load corrupt => exact notLoad corrupt rfl
      | _ => simp [StageFault.rank] at zero
    · exact .inl rfl

/-- The input of a call that comes to reserve blocks. -/
structure ReservedInput (session : BlobSession L) (id : BlobId) (ordinal : Nat) (decoded : Bytes)
    (nonce : Bytes) (allocated : Nat) (payload : PreparedExtentPayload) (input : StageInput) :
    Prop where
  prepares : prepareExtentPayload L session.providers session.opened decoded true = .ok payload
  storedBytes : input.storedBytes = payload.stored.length
  bound : (allocated + L.blocksFor (encodedExtentLength payload.stored.length)) *
        L.allocationQuantumBytes ≤ maxFileOffset ∨
      input.fault = some .seal ∨ input.fault = some (.resize false)
  seals : input.fault ≠ some .seal → ∃ reference bytes,
    sealAuthenticatedExtent L session.providers session.opened payload (chunkContext id ordinal)
      (session.space.generation + 1) allocated nonce = .ok (reference, bytes) ∧
    input.image = fun index => bytes.getD index 0

theorem chunkInput_reserved {readers : List Nat} {state : StagingAllocator}
    {environment : StageEnvironment} {input : StageInput}
    (isInput : session.chunkInput readers state id ordinal decoded environment = input)
    (notPrepare : input.fault ≠ some .prepare) (notReserve : input.fault ≠ some .reserve)
    (loads : ∀ corrupt, input.fault = some (.load corrupt) → state.allocatorInitialized = true) :
    ∃ payload, ReservedInput session id ordinal decoded environment.nonce
      ((initializeBlobStagingAllocator session.space readers state).pool.allocateBlocks
        (L.blocksFor (encodedExtentLength payload.stored.length))).1 payload input := by
  have forced {own : StageFault} (small : own.rank ≤ 4)
      (isFault : input.fault = some (environment.faultBefore state.allocatorInitialized own)) :
      input.fault = some own ∨ own.rank = 4 ∧ input.fault = some .seal := by
    rcases environment.faultBefore_cases state.allocatorInitialized own with
      same | ⟨corrupt, load, fresh⟩ | ⟨fault, same, positive, earlier⟩
    · exact .inl (by rw [isFault, same])
    · rw [load] at isFault
      rw [loads corrupt isFault] at fresh
      cases fresh
    · rw [same] at isFault
      cases fault with
      | prepare => exact absurd isFault notPrepare
      | reserve => exact absurd isFault notReserve
      | load => exact absurd positive (Nat.lt_irrefl 0)
      | «seal» => exact .inr ⟨Nat.le_antisymm small earlier, isFault⟩
      | resize => exact absurd small (Nat.not_le.2 earlier)
      | write => exact absurd small (Nat.not_le.2 (Nat.lt_of_succ_lt earlier))
  unfold BlobSession.chunkInput at isInput
  dsimp only at isInput
  split at isInput
  · subst isInput
    rcases forced (by decide) rfl with isPrepare | ⟨impossible, -⟩
    · exact absurd isPrepare notPrepare
    · cases impossible
  · next payload prepares =>
    refine ⟨payload, ?_⟩
    split at isInput
    · subst isInput
      rcases forced (by decide) rfl with isSeal | ⟨impossible, -⟩
      · exact ⟨prepares, rfl, .inr (.inl isSeal), fun notSeal => absurd isSeal notSeal⟩
      · cases impossible
    · next reference bytes seals =>
      subst isInput
      refine ⟨prepares, rfl, ?_, fun _ => ⟨reference, bytes, seals, rfl⟩⟩
      by_cases large : maxFileOffset <
          (((initializeBlobStagingAllocator session.space readers state).pool.allocateBlocks
            (L.blocksFor (encodedExtentLength payload.stored.length))).1 +
              L.blocksFor (encodedExtentLength payload.stored.length)) * L.allocationQuantumBytes
      · rcases @forced (.resize false) (Nat.le_refl 4) (if_pos large) with isResize | ⟨-, isSeal⟩
        · exact .inr (.inr isResize)
        · exact .inr (.inl isSeal)
      · exact .inl (not_lt.1 large)

/-- The file operations and the reference of a call that has reserved blocks. -/
theorem reserveAndWrite_writes (space : CommittedSpace L) (state : StagingAllocator)
    (fileBytes : Nat) (input : StageInput) :
    ∃ error, writeStagedExtent L space.highWaterBlocks fileBytes
        (state.pool.allocateBlocks (L.blocksFor (encodedExtentLength input.storedBytes))).1
        (L.blocksFor (encodedExtentLength input.storedBytes)) input =
        ((reserveAndWrite space state fileBytes input).issued,
          (reserveAndWrite space state fileBytes input).fileBytes, error) ∧
      ∀ reference, (reserveAndWrite space state fileBytes input).outcome = .ok reference →
        error = none ∧ reference =
          { blockIndex := (state.pool.allocateBlocks
              (L.blocksFor (encodedExtentLength input.storedBytes))).1
            blockCount := L.blocksFor (encodedExtentLength input.storedBytes)
            encodedLength := encodedExtentLength input.storedBytes
            creationGeneration := space.generation + 1 } := by
  unfold reserveAndWrite
  dsimp only
  split
  · next writes =>
    refine ⟨none, writes, fun reference ok => ⟨rfl, ?_⟩⟩
    exact (Except.ok.inj ok).symm
  · next error writes =>
    refine ⟨some error, writes, fun reference ok => ?_⟩
    cases ok

/-- What `stageBlobChunk` does to the file and the chunks in it. -/
structure StagedChunk (session : BlobSession L) (held : List ExtentReference) (file : Bytes)
    (id : BlobId) (ordinal : Nat) (decoded later : Bytes)
    (outcome : Except StageError ExtentReference) : Prop where
  grown : file.length ≤ later.length
  representable : later.length ≤ maxFileOffset
  kept : ∀ reference ∈ held,
    (reference.blockIndex + reference.blockCount) * L.allocationQuantumBytes ≤ file.length →
    BlocksKept L file later reference
  stands : ∀ reference, outcome = .ok reference →
    ChunkStands session later id ordinal decoded reference

theorem stageChunk_staged {readers : List Nat} {state : StagingAllocator}
    {held : List ExtentReference} (inv : StagingInv session.space readers state held)
    (small : file.length ≤ maxFileOffset) (environment : StageEnvironment) :
    StagedChunk session held file id ordinal decoded
      (session.stageChunk readers state file id ordinal decoded environment).file
      (session.stageChunk readers state file id ordinal decoded environment).result.outcome := by
  obtain ⟨input, isInput⟩ : ∃ input,
      session.chunkInput readers state id ordinal decoded environment = input := ⟨_, rfl⟩
  unfold BlobSession.stageChunk
  dsimp only
  rw [isInput]
  rcases stageBlobChunk_cases session.space readers state file.length input with
    ⟨later, error, early, -⟩ | ⟨reserves, notPrepare, notReserve, loads⟩
  · -- nothing was written
    rw [early]
    have same : resizeTo file.length (([] : List (DiskOp Byte)).foldl DiskOp.apply file) = file :=
      resizeTo_self file
    constructor
    · exact (congrArg List.length same).ge
    · exact (congrArg List.length same).le.trans small
    · intro reference _ _
      exact congrArg (fun later => slice later _ _) same
    · intro reference ok
      cases ok
  · obtain ⟨payload, reserved⟩ := chunkInput_reserved isInput notPrepare notReserve loads
    obtain ⟨initialReaders, -, books⟩ := inv.initialize
    obtain ⟨error, writes, outcome⟩ := reserveAndWrite_writes session.space
      (initializeBlobStagingAllocator session.space readers state) file.length input
    rw [reserved.storedBytes] at writes outcome
    rw [reserves]
    have written := writeStagedExtent_written writes
    have booked := books.reserve (L.blocksFor_pos (encodedExtentLength_pos payload.stored.length))
      { blockIndex := ((initializeBlobStagingAllocator session.space readers
          state).pool.allocateBlocks (L.blocksFor (encodedExtentLength payload.stored.length))).1
        blockCount := L.blocksFor (encodedExtentLength payload.stored.length)
        encodedLength := encodedExtentLength payload.stored.length
        creationGeneration := session.space.generation + 1 } rfl rfl
    constructor
    · exact written.staged.grown
    · exact written.representable small reserved.bound
    · intro reference member inside
      rw [Nat.add_mul] at inside
      refine written.staged.kept inside ?_
      rw [← Nat.add_mul]
      rcases booked.apart member with before | behind
      · exact .inl (Nat.mul_le_mul_right _ before)
      · exact .inr (Nat.mul_le_mul_right _ behind)
    · intro reference ok
      obtain ⟨done, rfl⟩ := outcome reference ok
      obtain ⟨notSeal, fits, stands⟩ := written.stands done
      obtain ⟨reference, bytes, seals, image⟩ := reserved.seals notSeal
      obtain ⟨body, tag, extent⟩ := sealAuthenticatedExtent_eq_ok.1 seals
      have sized := extent.bytes_length environment.nonce_length
      obtain rfl := extent.reference_eq
      refine ⟨fits, (booked.bounds session.behindCommon (by simp)).1, payload, environment.nonce,
        bytes, body, tag, environment.nonce_length, reserved.prepares, extent, ?_⟩
      have whole : input.sealed L (L.blocksFor (encodedExtentLength payload.stored.length)) =
          bytes := by
        rw [StageInput.sealed, image, ← sized]
        refine List.ext_getElem (by simp) fun index _ inside => ?_
        simp [List.getD_eq_getElem?_getD, List.getElem?_eq_getElem inside]
      rw [sized, ← whole]
      exact stands

/-! ## Reading a chunk -/

/-- Two publications of one database: what extents are bound to is the same. -/
structure SameDatabase (opened other : OpenedDatabase) : Prop where
  suite : other.format.encryptionSuite = opened.format.encryptionSuite
  compression : other.format.compression = opened.format.compression
  keys : other.keys = opened.keys
  identity : databaseIdentity other.bootstrap = databaseIdentity opened.bootstrap
  profile : slice other.publication 104 32 = slice opened.publication 104 32

theorem SameDatabase.refl (opened : OpenedDatabase) : SameDatabase opened opened :=
  ⟨rfl, rfl, rfl, rfl, rfl⟩

section Other

variable {opened other : OpenedDatabase} (same : SameDatabase opened other)

include same

theorem SameDatabase.prepareExtentPayload_eq (providers : ProviderSet) (eligible : Bool) :
    prepareExtentPayload L providers other decoded eligible =
      prepareExtentPayload L providers opened decoded eligible := by
  simp only [prepareExtentPayload, same.compression]

/-- An extent that was sealed under one publication is sealed under the other. -/
theorem SameDatabase.sealed {providers : ProviderSet} {payload : PreparedExtentPayload}
    {context : ExtentContext} {generation blockIndex : Nat} {nonce bytes body tag : Bytes}
    (extent : SealedExtent L providers opened payload context generation blockIndex nonce reference
      bytes body tag) :
    SealedExtent L providers other payload context generation blockIndex nonce reference bytes body
      tag := by
  have preamble : sealedPreamble L other payload context generation blockIndex nonce =
      sealedPreamble L opened payload context generation blockIndex nonce := by
    simp only [sealedPreamble, same.suite]
  have data (preamble : Bytes) :
      extentAssociatedData other preamble = extentAssociatedData opened preamble := by
    simp only [extentAssociatedData, same.suite, same.identity, same.profile]
  refine ⟨extent.owned, ?_, extent.reference_eq, ?_⟩
  · rw [preamble, ← extent.protects]
    simp only [protectStored, data, same.suite, same.keys]
  · rw [preamble]
    exact extent.bytes_eq

end Other

/-- A chunk that stands is read, under every later publication that reaches it. -/
theorem ChunkStands.read {other : OpenedDatabase} {validation : OpenedFormat}
    (stands : ChunkStands session file id ordinal decoded reference)
    (inverts : session.providers.Inverts) (same : SameDatabase session.opened other)
    (words : ordinal < 2 ^ 64) (short : decoded.length ≤ L.blobChunkBytes)
    (generation : session.space.generation + 1 ≤ validation.generation ∧
      validation.generation ≤ uint64Max)
    (limit : (reference.blockIndex + reference.blockCount) * L.allocationQuantumBytes ≤
      validation.highWaterBytes ∧ validation.highWaterBytes ≤ uint64Max)
    (representable : file.length ≤ maxFileOffset) :
    other.readAuthenticatedExtent L session.providers validation file reference
      (chunkContext id ordinal) (some decoded.length) true = .ok decoded := by
  obtain ⟨payload, nonce, bytes, body, tag, nonceSized, prepares, extent, found⟩ := stands.sealed
  have isReference := extent.reference_eq
  have extent := same.sealed extent
  rw [← same.prepareExtentPayload_eq] at prepares
  have placed : reference.Placed L validation := by
    have fits := stands.words
    constructor
    · exact stands.common
    · rw [isReference]
      exact (L.blocksFor_pos (encodedExtentLength_pos _)).ne'
    · rw [isReference]
      simp only [encodedExtentLength]
      omega
    · rw [isReference]
      exact Nat.succ_ne_zero _
    · rw [isReference]
      exact generation.1
    · rw [isReference]
      exact L.le_blocksFor_mul _
    · exact limit.1
    · omega
  have small : L.framable decoded.length := by
    have := L.chunk_upper
    have := L.quantum_upper
    simp only [Limits.framable, uint64Max, extentLayoutBytes, authenticationTagBytes]
    omega
  have contextFits : (chunkContext id ordinal).Fits :=
    ⟨show 13 < 2 ^ 16 by decide, show 4 < 2 ^ 32 by decide, words⟩
  exact extent.readable inverts nonceSized contextFits (prepareExtentPayload_prepared prepares)
    small (fun page => Bool.noConfusion page)
    (fun length isLength => (Option.some.inj isLength).symm) ⟨generation.2, limit.2⟩ placed
    representable found

end Stage

end Miare
