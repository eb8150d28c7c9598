import Miare.Blob.Proofs.Reader
import Miare.Blob.Proofs.StreamRun

/-!
# What a reader of a finished version sees

The bytes that were accepted for the handle, whatever the transaction does meanwhile and also when
the version has been committed.
-/

namespace Miare

open Misc

variable {L : Limits} {session : BlobSession L}

section Reads

variable {stream : StreamTransaction} {version : BlobVersion} {content : Bytes}

theorem VersionStands.ordinal_lt (stands : VersionStands session stream version content)
    {ordinal : Nat} {reference : ExtentReference}
    (found : version.chunks[ordinal]? = some reference) : ordinal < 2 ^ 64 := by
  have inside := (List.getElem?_eq_some_iff.1 found).1
  have needed := stands.count.needed
  have limit := stands.limit
  have words := L.fits_uint64.2.2.1
  have before : ordinal * L.blobChunkBytes < content.length := by
    have := Nat.mul_le_mul_right L.blobChunkBytes (Nat.succ_le_of_lt inside)
    rw [Nat.succ_mul] at this
    omega
  have small := Nat.le_mul_of_pos_right ordinal L.chunk_pos
  simp only [uint64Max] at words
  omega

/-- A chunk of a finished version is read under every publication of the database that reaches it,
from every file that kept its blocks. -/
theorem VersionStands.read (stands : VersionStands session stream version content)
    (inverts : session.providers.Inverts) {other : OpenedDatabase} {validation : OpenedFormat}
    {file : Bytes} (same : SameDatabase session.opened other)
    (kept : ∀ reference ∈ version.chunks, BlocksKept L stream.file file reference)
    (generation : session.space.generation + 1 ≤ validation.generation ∧
      validation.generation ≤ uint64Max)
    (reached : ∀ reference ∈ version.chunks,
      (reference.blockIndex + reference.blockCount) * L.allocationQuantumBytes ≤
        validation.highWaterBytes)
    (words : validation.highWaterBytes ≤ uint64Max) (small : file.length ≤ maxFileOffset)
    {ordinal : Nat} {reference : ExtentReference}
    (found : version.chunks[ordinal]? = some reference) :
    other.readAuthenticatedExtent L session.providers validation file reference
      (chunkContext version.id ordinal) (some (chunkOf L content ordinal).length) true =
        .ok (chunkOf L content ordinal) := by
  have member := List.mem_of_getElem? found
  refine ((stands.stands ordinal reference found).kept (kept reference member)).read inverts same
    (stands.ordinal_lt found) ?_ generation ⟨reached reference member, words⟩ small
  rw [length_chunkOf]
  exact Nat.min_le_left _ _

/-- The transaction serves the versions that it has finished. -/
theorem VersionStands.serves (stands : VersionStands session stream version content)
    (inverts : session.providers.Inverts) (small : stream.file.length ≤ maxFileOffset) :
    Serves { session, file := stream.file, active := stream.tx.active } version content := by
  have validation : ReaderView.validation
      { session, file := stream.file, active := stream.tx.active : ReaderView L } version =
        { generation := version.generation, highWaterBytes := version.stagedHighWaterBytes } := by
    rw [ReaderView.validation, if_pos stands.pending, Nat.mod_eq_of_lt stands.representable]
  refine ⟨stands.size, stands.count, fun ordinal reference found => ?_⟩
  rw [validation]
  have representable := stands.representable
  refine stands.read inverts (SameDatabase.refl _) (fun _ _ => rfl) ?_ stands.reached ?_ small found
  · rw [stands.generation]
    exact ⟨Nat.le_refl _, session.representable⟩
  · simp only [uint64Max]
    omega

/-- A state in which a committed version is read: a later publication of the same database, in whose
file the blocks of the version have not been touched. -/
structure Publishes (session : BlobSession L) (file : Bytes) (version : BlobVersion)
    (view : ReaderView L) : Prop where
  providers : view.session.providers = session.providers
  same : SameDatabase session.opened view.session.opened
  generation : session.space.generation + 1 ≤ view.session.opened.format.generation
  reached : ∀ reference ∈ version.chunks,
    (reference.blockIndex + reference.blockCount) * L.allocationQuantumBytes ≤
      view.session.opened.format.highWaterBytes
  words : view.session.opened.format.highWaterBytes ≤ uint64Max
  small : view.file.length ≤ maxFileOffset
  kept : ∀ reference ∈ version.chunks, BlocksKept L file view.file reference

/-- A later publication serves the committed copy. -/
theorem VersionStands.committed (stands : VersionStands session stream version content)
    (inverts : session.providers.Inverts) {view : ReaderView L}
    (publishes : Publishes session stream.file version view) (manifest chunkRoot : ExtentReference) :
    Serves view { version with manifest, chunkRoot, pending := false } content := by
  refine ⟨stands.size, stands.count, fun ordinal reference found => ?_⟩
  have representable := view.session.representable
  have generation := view.session.generation_eq
  rw [publishes.providers]
  refine stands.read inverts publishes.same publishes.kept ⟨publishes.generation, ?_⟩
    publishes.reached publishes.words publishes.small found
  omega

/-- Whatever the transaction does between the calls of a reader. -/
theorem VersionStands.interleave (committed : session.space.highWaterBlocks ≤ L.fileBlocks)
    (inverts : session.providers.Inverts) (schedule : List (List StreamOp × ReaderCall))
    {history : List (StreamOp × Bool)} (inv : StreamInv session stream history)
    (stands : VersionStands session stream version content) :
    ∀ call ∈ stream.interleave session schedule, Serves call.1 version content := by
  induction schedule generalizing stream history with
  | nil =>
    intro call absent
    cases absent
  | cons head rest ih =>
    obtain ⟨ops, call⟩ := head
    have later := run_stream inv committed ops
    have still := stands.run committed ops inv
    intro seen member
    rcases List.mem_cons.1 member with rfl | among
    · exact still.serves inverts later.small
    · exact ih later still seen among

end Reads

/-! ## Calls that fail -/

theorem write_failed (stream : StreamTransaction) (id : BlobId) (source : Bytes)
    (environment : Nat → StageEnvironment) (exhausted : Bool)
    (failed : (stream.write session id source environment exhausted).1 = false) :
    (stream.write session id source environment exhausted).2.tx.writers = stream.tx.writers := by
  unfold StreamTransaction.write at failed ⊢
  generalize stream.tx.writer id = lookup at failed ⊢
  cases lookup with
  | none => rfl
  | some writer =>
    dsimp only at failed ⊢
    split at failed
    · next refused => rw [if_pos refused]
    · next admitted =>
      rw [if_neg admitted]
      generalize streamLoop session stream.tx.readers id writer.stagedChunks.length environment
        source.length _ source = progress at failed ⊢
      unfold StreamTransaction.settleWrite at failed ⊢
      generalize progress.failure = failure at failed ⊢
      cases failure with
      | none => cases failed
      | some error =>
        obtain ⟨active, isDeactivated⟩ := deactivate_eq stream.tx error
        dsimp only
        rw [isDeactivated]

theorem finish_failed (stream : StreamTransaction) (id : BlobId) (environment : StageEnvironment)
    (exhausted : Bool) (failed : (stream.finish session id environment exhausted).1 = false) :
    (stream.finish session id environment exhausted).2.tx.writers = stream.tx.writers := by
  unfold StreamTransaction.finish at failed ⊢
  generalize stream.tx.writer id = lookup at failed ⊢
  cases lookup with
  | none => rfl
  | some writer =>
    dsimp only at failed ⊢
    by_cases empty : writer.buffer = []
    · rw [if_pos empty] at failed ⊢
      cases exhausted with
      | true => rfl
      | false => cases failed
    · rw [if_neg empty] at failed ⊢
      generalize session.stageChunk stream.tx.readers stream.tx.staging stream.file id _ _ _ = stage
        at failed ⊢
      unfold StreamTransaction.settleFinish at failed ⊢
      cases outcome : stage.result.outcome with
      | error error =>
        obtain ⟨active, isDeactivated⟩ := deactivate_eq
          { stream.tx with staging := stage.result.state, fileBytes := stage.result.fileBytes } error
        dsimp only
        rw [isDeactivated]
        rfl
      | ok finalChunk =>
        rw [outcome] at failed
        cases exhausted with
        | true => rfl
        | false => cases failed

/-- A call that throws leaves every handle as it was. -/
theorem perform_failed (stream : StreamTransaction) (op : StreamOp)
    (failed : (stream.perform session op).1 = false) :
    (stream.perform session op).2.tx.writers = stream.tx.writers := by
  cases op with
  | beginRead => cases failed
  | endRead generation => cases failed
  | createBlob candidate =>
    simp only [StreamTransaction.perform] at failed ⊢
    split at failed
    · next active =>
      rw [if_pos active]
      have short := of_decide_eq_false failed
      change (stream.tx.createBlob L candidate).writers = stream.tx.writers
      rcases createBlob_cases L stream.tx candidate with same | ⟨id, -, opens⟩
      · rw [same]
      · rw [opens] at short
        exact absurd (Nat.lt_succ_self _) short
    · next inactive => rw [if_neg inactive]
  | replaceBlob id =>
    simp only [StreamTransaction.perform] at failed ⊢
    split at failed
    · next active =>
      rw [if_pos active]
      have short := of_decide_eq_false failed
      change (stream.tx.replaceBlob L id).writers = stream.tx.writers
      rcases replaceBlob_cases L stream.tx id with same | opens
      · rw [same]
      · rw [opens] at short
        exact absurd (Nat.lt_succ_self _) short
    · next inactive => rw [if_neg inactive]
  | eraseBlob id =>
    simp only [StreamTransaction.perform] at failed ⊢
    split at failed
    · cases failed
    · next inactive => rw [if_neg inactive]
  | write id source environment exhausted =>
    simp only [StreamTransaction.perform] at failed ⊢
    split at failed
    · next active =>
      rw [if_pos active]
      exact write_failed stream id source environment exhausted failed
    · next inactive => rw [if_neg inactive]
  | finish id environment exhausted =>
    simp only [StreamTransaction.perform] at failed ⊢
    split at failed
    · next active =>
      rw [if_pos active]
      exact finish_failed stream id environment exhausted failed
    · next inactive => rw [if_neg inactive]
  | abort id =>
    simp only [StreamTransaction.perform] at failed ⊢
    split at failed
    · cases failed
    · next inactive => rw [if_neg inactive]

/-! ## The theorem -/

/-- A `finish` that returns has put a version of the accepted bytes into the catalog. -/
theorem finish_stands {history : List (StreamOp × Bool)} {id : BlobId}
    {environment : StageEnvironment} {exhausted : Bool} {stream next : StreamTransaction}
    (committed : session.space.highWaterBlocks ≤ L.fileBlocks)
    (inv : StreamInv session stream history)
    (returned : stream.perform session (.finish id environment exhausted) = (true, next)) :
    ∃ version, next.tx.blobs.find id = some version ∧
      VersionStands session next version (accepted id history) ∧
      StreamInv session next (history ++ [(.finish id environment exhausted, true)]) := by
  have active : stream.tx.active = true := by
    by_contra inactive
    simp [StreamTransaction.perform, inactive] at returned
  have finishes := finish_step inv committed id environment exhausted
  simp only [StreamTransaction.perform, if_pos active] at returned
  rw [returned] at finishes
  obtain ⟨version, found, stands⟩ := finishes.version rfl
  exact ⟨version, found, stands, finishes.inv⟩

/-- Blob streams are exact.  Behind any calls of a transaction every open handle stands behind the
bytes that were accepted for it, and a call that throws leaves all handles as they were.  If
`finish` returns, its version is in the catalog and has the size of the accepted bytes; every run of
`seek` and `read` calls on a reader of it sees exactly these bytes, whatever the transaction does
between the calls, and so does a reader of the committed version. -/
theorem blobStreams_exact (session : BlobSession L) (inverts : session.providers.Inverts)
    (start : StreamTransaction) (fresh : start.tx.Fresh)
    (committed : session.opened.format.highWaterBytes ≤ start.file.length)
    (small : start.file.length ≤ maxFileOffset) (ops : List StreamOp) :
    (∀ writer ∈ (start.run session ops).tx.writers,
      writer.position = (accepted writer.id (start.trace session ops)).length) ∧
    (∀ op, ((start.run session ops).perform session op).1 = false →
      ((start.run session ops).perform session op).2.tx.writers =
        (start.run session ops).tx.writers) ∧
    ∀ id environment exhausted next,
      (start.run session ops).perform session (.finish id environment exhausted) = (true, next) →
        ∃ version, next.tx.blobs.find id = some version ∧
          version.size = (accepted id (start.trace session ops)).length ∧
          (∀ schedule, ∀ seen ∈ BlobReader.run { version } (next.interleave session schedule),
            seen.2.Exact (accepted id (start.trace session ops)) seen.1) ∧
          ∀ manifest chunkRoot, ∀ calls : List (ReaderView L × ReaderCall),
            (∀ call ∈ calls, Publishes session next.file version call.1) →
            ∀ seen ∈ BlobReader.run
                { version := { version with manifest, chunkRoot, pending := false } } calls,
              seen.2.Exact (accepted id (start.trace session ops)) seen.1 := by
  have blocks := session.committed_fileBlocks committed small
  have inv := run_stream (StreamInv.start fresh small) blocks ops
  rw [List.nil_append] at inv
  refine ⟨fun writer member => (inv.writers writer member).position,
    fun op failed => perform_failed _ op failed, fun id environment exhausted next returned => ?_⟩
  obtain ⟨version, found, stands, later⟩ := finish_stands blocks inv returned
  refine ⟨version, found, stands.size, fun schedule => ?_, fun manifest chunkRoot calls publish => ?_⟩
  · exact reader_exact _ ⟨Nat.zero_le _, fun chunk absent => by cases absent⟩
      (stands.interleave blocks inverts schedule later)
  · exact reader_exact _ ⟨Nat.zero_le _, fun chunk absent => by cases absent⟩
      fun call member => stands.committed inverts (publish call member) manifest chunkRoot

/-- A session of `plainDatabase`, whose one block behind the common region is in use. -/
def plainSessionOf (L : Limits) (quantum : L.allocationQuantumBytes = 4096) : BlobSession L where
  providers := plainProviders
  opened := plainDatabase
  space :=
    { generation := 2, highWaterBlocks := 17, reachable := [⟨16, 1, 179, 2⟩], freeRuns := []
      retiredRuns := [], partitioned := by rw [Limits.commonBlocks, quantum]; decide
      retirement := nofun }
  cacheCapacityBytes := 2 ^ 20
  generation_eq := rfl
  highWater_eq := congrArg (17 * ·) quantum.symm
  behindCommon := by
    change commonRegionBytes / L.allocationQuantumBytes ≤ 17
    rw [quantum]
    decide
  representable := show 2 + 1 ≤ uint64Max by decide

abbrev plainSession : BlobSession .default := plainSessionOf .default rfl

/-- A new transaction of the session. -/
def plainStart : StreamTransaction where
  tx := { blobs := ⟨[], List.Pairwise.nil⟩, readers := [], fileBytes := 17 * 4096 }
  file := List.replicate (17 * 4096) 0
  sized := List.length_replicate.symm

theorem plainStart_fresh : plainStart.tx.Fresh := ⟨rfl, nofun, rfl, rfl, rfl, rfl⟩

theorem plainStart_file : plainStart.file.length = 17 * 4096 := List.length_replicate

def firstBlob : BlobId := ⟨List.replicate 16 1, rfl⟩

def plainStage : StageEnvironment where
  nonce := List.replicate aeadNonceBytes 0
  nonce_length := zeroNonce_length

/-- Three bytes are written to a new Blob. -/
def plainWrites : List StreamOp :=
  [.createBlob (some firstBlob), .write firstBlob [1, 2, 3] (fun _ => plainStage) false]

section Chunks

variable {quantum : L.allocationQuantumBytes = 4096}

/-- A stage that nothing stops does not look at the bytes or the size of the file. -/
theorem stageBlobChunk_calm (space : CommittedSpace L) (readers : List Nat)
    (state : StagingAllocator) (fileBytes : Nat) {input : StageInput} (calm : input.fault = none) :
    (stageBlobChunk space readers state fileBytes input).state =
        (stageBlobChunk space readers state 0 ⟨input.storedBytes, fun _ => 0, none⟩).state ∧
      (stageBlobChunk space readers state fileBytes input).outcome =
        (stageBlobChunk space readers state 0 ⟨input.storedBytes, fun _ => 0, none⟩).outcome := by
  obtain ⟨storedBytes, image, fault⟩ := input
  obtain rfl : fault = none := calm
  simp only [stageBlobChunk, reserveAndWrite, writeStagedExtent, reduceCtorEq, if_false]
  split_ifs <;> exact ⟨rfl, rfl⟩

/-- A chunk of the plain session is stored as it is, and staged as its length says. -/
theorem stageChunk_plain {readers : List Nat} {state later : StagingAllocator} {length : Nat}
    {outcome : Except StageError ExtentReference} (near :
      ((initializeBlobStagingAllocator (plainSessionOf L quantum).space readers
        state).pool.allocateBlocks (L.blocksFor (encodedExtentLength length))).1 +
          L.blocksFor (encodedExtentLength length) ≤ 2 ^ 40)
    (isLater : (stageBlobChunk (plainSessionOf L quantum).space readers state 0
      ⟨length, fun _ => 0, none⟩).state = later)
    (isOutcome : (stageBlobChunk (plainSessionOf L quantum).space readers state 0
      ⟨length, fun _ => 0, none⟩).outcome = outcome) (file : Bytes) (id : BlobId) (ordinal : Nat)
    {decoded : Bytes} (sized : decoded.length = length) :
    ((plainSessionOf L quantum).stageChunk readers state file id ordinal decoded
        plainStage).result.state = later ∧
      ((plainSessionOf L quantum).stageChunk readers state file id ordinal decoded
        plainStage).result.outcome = outcome := by
  subst sized
  have prepares : prepareExtentPayload L plainProviders plainDatabase decoded true =
      .ok (plainPayload decoded) := if_neg fun policy => nomatch policy.2.1
  have seals (allocated : Nat) : ∃ reference bytes, sealAuthenticatedExtent L plainProviders
      plainDatabase (plainPayload decoded) (chunkContext id ordinal) 3 allocated
      plainStage.nonce = .ok (reference, bytes) :=
    ⟨_, _, sealAuthenticatedExtent_eq_ok.2 ⟨_, _, .inr id.2, rfl, rfl, rfl⟩⟩
  have input : ((plainSessionOf L quantum).chunkInput readers state id ordinal decoded
        plainStage).storedBytes = decoded.length ∧
      ((plainSessionOf L quantum).chunkInput readers state id ordinal decoded
        plainStage).fault = none := by
    unfold BlobSession.chunkInput
    simp only [plainSessionOf] at near ⊢
    rw [prepares]
    dsimp only [plainPayload] at seals ⊢
    obtain ⟨reference, bytes, isSealed⟩ := seals _
    rw [isSealed]
    refine ⟨rfl, if_neg (Nat.not_lt.2 ((Nat.mul_le_mul_right _ near).trans ?_))⟩
    rw [quantum]
    decide
  have alike := stageBlobChunk_calm (plainSessionOf L quantum).space readers state file.length
    input.2
  rw [input.1, isLater, isOutcome] at alike
  exact alike

/-- A new handle is written a chunk and some bytes more. -/
theorem write_fills {session : BlobSession L} {stream : StreamTransaction} {id : BlobId}
    {chunk rest : Bytes} {environment : Nat → StageEnvironment} {reference : ExtentReference}
    (active : stream.tx.active = true) (lookup : stream.tx.writer id = some { id := id })
    (sized : chunk.length = L.blobChunkBytes) (short : rest.length < L.blobChunkBytes)
    (left : rest ≠ []) (within : (chunk ++ rest).length ≤ L.maxBlobBytes ∧
      stream.tx.bytesWritten + (chunk ++ rest).length ≤ L.maxBlobBytesPerTransaction)
    (staged : (session.stageChunk stream.tx.readers stream.tx.staging stream.file id 0 chunk
      (environment 0)).result.outcome = .ok reference) :
    ∃ file, stream.perform session (.write id (chunk ++ rest) environment false) =
      (true,
        { tx :=
            { stream.tx with
              staging := (session.stageChunk stream.tx.readers stream.tx.staging stream.file id 0
                chunk (environment 0)).result.state
              fileBytes := file.length
              bytesWritten := stream.tx.bytesWritten + (chunk ++ rest).length
              writers := ⟨id, rest, [reference], 0 + (chunk ++ rest).length⟩ ::
                stream.tx.otherWriters id }
          file := file
          sized := rfl }) := by
  generalize isStage : session.stageChunk stream.tx.readers stream.tx.staging stream.file id 0 chunk
    (environment 0) = stage at staged ⊢
  have some_ := List.length_pos_of_ne_nil left
  have total : (chunk ++ rest).length = L.blobChunkBytes + rest.length := by
    rw [List.length_append, sized]
  obtain ⟨turns, isTurns⟩ : ∃ turns, (chunk ++ rest).length = turns + 2 :=
    ⟨(chunk ++ rest).length - 2, by omega⟩
  have loop : streamLoop session stream.tx.readers id 0 environment (chunk ++ rest).length
      { staging := stream.tx.staging, file := stream.file, working := [], prepared := [] }
      (chunk ++ rest) =
        { staging := stage.result.state, file := stage.file, working := rest
          prepared := [reference] } := by
    rw [isTurns, streamLoop, if_neg (List.append_ne_nil_of_right_ne_nil _ left)]
    dsimp only
    rw [List.length_nil, total, Nat.sub_zero, Nat.min_eq_left (Nat.le_add_right _ _),
      List.take_left' sized, List.drop_left' sized, List.nil_append, if_pos sized, List.length_nil,
      Nat.add_zero, isStage, staged]
    dsimp only
    rw [streamLoop, if_neg left]
    dsimp only
    rw [List.length_nil, Nat.sub_zero, Nat.min_eq_right short.le, List.nil_append,
      List.take_length, List.drop_length, if_neg short.ne]
    cases turns <;> rfl
  refine ⟨stage.file, ?_⟩
  have refused : ¬(L.maxBlobBytes - 0 < (chunk ++ rest).length ∨
      L.maxBlobBytesPerTransaction - stream.tx.bytesWritten < (chunk ++ rest).length ∨
        false = true) := by
    simp only [Bool.false_eq_true, or_false]
    omega
  simp only [StreamTransaction.perform, if_pos active, StreamTransaction.write, lookup,
    if_neg refused]
  rw [List.length_nil, loop]
  rfl

end Chunks

/-- The default limits with the smallest chunks. -/
def chunkLimits : Limits :=
  { Limits.default with
    blobChunkBytes := 64 * 1024
    chunk_single_bit := ⟨16, rfl⟩
    chunk_lower := by decide
    chunk_upper := by decide
    quantum_le_chunk := by decide }

abbrev chunkSession : BlobSession chunkLimits := plainSessionOf chunkLimits rfl

/-- One byte more than a chunk. -/
def chunkBytes : Bytes := List.replicate (64 * 1024) 7 ++ [8]

/-- Its first chunk is staged when it is written. -/
theorem write_chunkBytes {stream : StreamTransaction} {state later : StagingAllocator}
    {reference : ExtentReference} (active : stream.tx.active = true)
    (lookup : stream.tx.writer firstBlob = some { id := firstBlob })
    (unspent : stream.tx.bytesWritten ≤ 1024) (isReaders : stream.tx.readers = [])
    (isState : stream.tx.staging = state)
    (near : ((initializeBlobStagingAllocator chunkSession.space [] state).pool.allocateBlocks 17).1 ≤
      1024)
    (staged : (stageBlobChunk chunkSession.space [] state 0 ⟨64 * 1024, fun _ => 0, none⟩).state =
        later ∧
      (stageBlobChunk chunkSession.space [] state 0 ⟨64 * 1024, fun _ => 0, none⟩).outcome =
        .ok reference) :
    ∃ file, stream.perform chunkSession (.write firstBlob chunkBytes (fun _ => plainStage) false) =
      (true,
        { tx :=
            { stream.tx with
              staging := later
              fileBytes := file.length
              bytesWritten := stream.tx.bytesWritten + (64 * 1024 + 1)
              writers := ⟨firstBlob, [8], [reference], 64 * 1024 + 1⟩ ::
                stream.tx.otherWriters firstBlob }
          file := file
          sized := rfl }) := by
  have sized : (List.replicate (64 * 1024) (7 : Byte)).length = 64 * 1024 := List.length_replicate
  have stages := @stageChunk_plain chunkLimits rfl [] state later (64 * 1024) _
    (Nat.add_le_add_right near 17 |>.trans (by decide)) staged.1 staged.2 stream.file firstBlob 0
  unfold chunkBytes
  generalize List.replicate (64 * 1024) (7 : Byte) = chunk at sized
  have stage := stages sized
  have total : (chunk ++ [8]).length = 64 * 1024 + 1 := by
    rw [List.length_append, sized]
    rfl
  rw [← isState, ← isReaders] at stage
  have written := @write_fills chunkLimits chunkSession stream firstBlob chunk [8]
    (fun _ => plainStage) reference active lookup sized (by decide) (List.cons_ne_nil _ _)
    (by rw [total]; exact ⟨by decide, (Nat.add_le_add_right unspent _).trans (by decide)⟩) stage.2
  rw [total, stage.1, Nat.zero_add] at written
  exact written

/-- They are written to a new Blob. -/
def chunkWrites : List StreamOp :=
  [.createBlob (some firstBlob), .write firstBlob chunkBytes (fun _ => plainStage) false]

theorem chunkWrites_run :
    (plainStart.run chunkSession chunkWrites).tx.active = true ∧
      (plainStart.run chunkSession chunkWrites).tx.readers = [] ∧
      (plainStart.run chunkSession chunkWrites).tx.staging = ⟨[], 34, 1, true⟩ ∧
      (plainStart.run chunkSession chunkWrites).tx.writer firstBlob =
        some ⟨firstBlob, [8], [⟨17, 17, 65712, 3⟩], 64 * 1024 + 1⟩ ∧
      accepted firstBlob (plainStart.trace chunkSession chunkWrites) = chunkBytes := by
  obtain ⟨created, isCreated⟩ : ∃ created,
      plainStart.perform chunkSession (.createBlob (some firstBlob)) = created := ⟨_, rfl⟩
  have facts : created.1 = true ∧ created.2.tx.active = true ∧ created.2.tx.readers = [] ∧
      created.2.tx.bytesWritten ≤ 1024 ∧ created.2.tx.staging = {} ∧
      created.2.tx.writer firstBlob = some { id := firstBlob } := by
    rw [← isCreated]
    decide +kernel
  obtain ⟨opens, active, isReaders, unspent, isState, lookup⟩ := facts
  obtain ⟨file, written⟩ := @write_chunkBytes _ {} ⟨[], 34, 1, true⟩ ⟨17, 17, 65712, 3⟩ active lookup
    unspent isReaders isState (by decide +kernel) (by decide +kernel)
  rw [chunkWrites, StreamTransaction.run, StreamTransaction.run, StreamTransaction.run,
    StreamTransaction.trace, StreamTransaction.trace, StreamTransaction.trace, isCreated, written,
    opens]
  refine ⟨active, isReaders, rfl, List.find?_cons_of_pos (decide_eq_true rfl), ?_⟩
  simp only [accepted, List.foldl_cons, List.foldl_nil, acceptStep, if_true, List.nil_append]

/-- Its last byte is staged when it is finished. -/
theorem finish_chunkBytes {stream : StreamTransaction} (active : stream.tx.active = true)
    (isReaders : stream.tx.readers = []) (isState : stream.tx.staging = ⟨[], 34, 1, true⟩)
    (lookup : stream.tx.writer firstBlob =
      some ⟨firstBlob, [8], [⟨17, 17, 65712, 3⟩], 64 * 1024 + 1⟩) :
    ∃ next version,
      stream.perform chunkSession (.finish firstBlob plainStage false) = (true, next) ∧
      next.tx.blobs.find firstBlob = some version ∧
      version.chunks = [⟨17, 17, 65712, 3⟩, ⟨34, 1, 177, 3⟩] := by
  have stage := @stageChunk_plain chunkLimits rfl [] ⟨[], 34, 1, true⟩ ⟨[], 35, 2, true⟩ 1
    (.ok ⟨34, 1, 177, 3⟩) (by decide +kernel) (by decide +kernel) (by decide +kernel) stream.file
    firstBlob 1 [8] rfl
  rw [← isReaders, ← isState] at stage
  have left : ([8] : Bytes) ≠ [] := List.cons_ne_nil _ _
  simp only [StreamTransaction.perform, if_pos active, StreamTransaction.finish, lookup,
    if_neg left, StreamTransaction.settleFinish]
  rw [List.length_singleton, stage.2]
  exact ⟨_, _, rfl, stream.tx.blobs.find_insertOrAssign _, rfl⟩

/-- The transaction serves the two chunks. -/
theorem chunkBytes_serves : ∃ (view : ReaderView chunkLimits) (version : BlobVersion),
    Serves view version chunkBytes := by
  obtain ⟨active, isReaders, isState, lookup, bytes⟩ := chunkWrites_run
  obtain ⟨next, -, returned, -⟩ := finish_chunkBytes active isReaders isState lookup
  have small : plainStart.file.length ≤ maxFileOffset := by
    rw [plainStart_file]
    decide
  have blocks := chunkSession.committed_fileBlocks (by rw [plainStart_file]; decide) small
  have inv := run_stream (StreamInv.start plainStart_fresh small) blocks chunkWrites
  obtain ⟨version, -, stands, later⟩ := finish_stands blocks inv returned
  rw [List.nil_append, bytes] at stands
  exact ⟨_, version, stands.serves (fun crypto found => by cases found) later.small⟩

/-- The two chunks are read back. -/
theorem blobStreams_exact_chunks : ∃ next version,
    (plainStart.run chunkSession chunkWrites).perform chunkSession
        (.finish firstBlob plainStage false) = (true, next) ∧
      next.tx.blobs.find firstBlob = some version ∧
      version.chunks = [⟨17, 17, 65712, 3⟩, ⟨34, 1, 177, 3⟩] ∧
      version.size = chunkBytes.length ∧
      ∀ schedule, ∀ seen ∈ BlobReader.run { version } (next.interleave chunkSession schedule),
        seen.2.Exact chunkBytes seen.1 := by
  obtain ⟨active, isReaders, isState, lookup, bytes⟩ := chunkWrites_run
  obtain ⟨next, written, returned, installed, chunks⟩ :=
    finish_chunkBytes active isReaders isState lookup
  obtain ⟨-, -, finishes⟩ := blobStreams_exact chunkSession (fun crypto found => by cases found)
    plainStart plainStart_fresh (by rw [plainStart_file]; decide) (by rw [plainStart_file]; decide)
    chunkWrites
  obtain ⟨version, found, size, reads, -⟩ := finishes _ _ _ _ returned
  obtain rfl : written = version := Option.some.inj (installed.symm.trans found)
  rw [bytes] at size reads
  exact ⟨next, written, returned, found, chunks, size, reads⟩

end Miare
