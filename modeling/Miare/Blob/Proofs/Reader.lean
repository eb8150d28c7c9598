import Miare.Blob.Stream

/-!
# Readers of a Blob version

A reader whose version is served chunk by chunk returns the bytes of the content, whatever the sizes
of its buffers, and keeps its place when a call throws.
-/

namespace Miare

open Misc

variable {L : Limits}

/-- The bytes of one chunk of a content. -/
def chunkOf (L : Limits) (content : Bytes) (ordinal : Nat) : Bytes :=
  slice content (ordinal * L.blobChunkBytes) L.blobChunkBytes

theorem length_chunkOf (content : Bytes) (ordinal : Nat) :
    (chunkOf L content ordinal).length =
      min L.blobChunkBytes (content.length - ordinal * L.blobChunkBytes) := by
  simp only [chunkOf, slice, List.length_take, List.length_drop]

/-- As many chunks as the content needs. -/
structure ChunkCount (L : Limits) (content : Bytes) (count : Nat) : Prop where
  enough : content.length ≤ count * L.blobChunkBytes
  needed : count * L.blobChunkBytes < content.length + L.blobChunkBytes

/-- Every chunk of the version reads as its part of the content. -/
structure Serves (view : ReaderView L) (version : BlobVersion) (content : Bytes) : Prop where
  size : version.size = content.length
  count : ChunkCount L content version.chunks.length
  reads : ∀ ordinal reference, version.chunks[ordinal]? = some reference →
    view.session.opened.readAuthenticatedExtent L view.session.providers (view.validation version)
        view.file reference (chunkContext version.id ordinal)
        (some (chunkOf L content ordinal).length) true = .ok (chunkOf L content ordinal)

/-- What is cached is a chunk of the content. -/
def CacheHolds (L : Limits) (content : Bytes) (cached : Option (Nat × Bytes)) : Prop :=
  ∀ chunk ∈ cached, chunk.2 = chunkOf L content chunk.1

/-- Errors that the environment causes, not the version. -/
def ReadError.Environmental (error : ReadError) : Prop := error = .cacheCapacity ∨ error = .fault

/-- The cache has room for a chunk and no call throws. -/
def LoadEnvironment.Quiet (view : ReaderView L) (environment : LoadEnvironment) : Prop :=
  environment.usedBytes + L.blobChunkBytes ≤ view.session.cacheCapacityBytes ∧
    environment.fault = false

/-- A result that is the expected one or an error of the environment, with a good cache. -/
structure Delivers (L : Limits) (content expected : Bytes) (quiet : Prop)
    (result : Except ReadError Bytes × Option (Nat × Bytes)) : Prop where
  cache : CacheHolds L content result.2
  result : result.1 = .ok expected ∨ ¬ quiet ∧ ∃ error, result.1 = .error error ∧ error.Environmental

section Loading

variable {view : ReaderView L} {version : BlobVersion} {content : Bytes}
  {cached : Option (Nat × Bytes)}

theorem Serves.expectedLength_eq (serves : Serves view version content) {ordinal : Nat}
    (inside : ordinal < version.chunks.length) :
    ReaderView.expectedLength L version ordinal = (chunkOf L content ordinal).length := by
  have enough := serves.count.enough
  have needed := serves.count.needed
  rw [length_chunkOf, ReaderView.expectedLength, serves.size]
  by_cases last : ordinal + 1 = version.chunks.length
  · rw [if_pos last]
    rw [← last, Nat.add_mul, Nat.one_mul] at enough
    omega
  · rw [if_neg last]
    have next : (ordinal + 2) * L.blobChunkBytes ≤ version.chunks.length * L.blobChunkBytes :=
      Nat.mul_le_mul_right _ (by omega)
    rw [Nat.add_mul] at next
    omega

theorem Serves.loadChunk (serves : Serves view version content)
    (holds : CacheHolds L content cached) {ordinal : Nat} (inside : ordinal < version.chunks.length)
    (environment : LoadEnvironment) :
    Delivers L content (chunkOf L content ordinal) (environment.Quiet view)
      (view.loadChunk version ordinal environment cached) := by
  have expected := serves.expectedLength_eq inside
  unfold ReaderView.loadChunk
  dsimp only
  split
  · next chunk found =>
    obtain ⟨isCached, same⟩ := Option.filter_eq_some_iff.1 found
    have isChunk := holds chunk isCached
    rw [of_decide_eq_true same] at isChunk
    refine ⟨?_, .inl (congrArg Except.ok isChunk)⟩
    rintro other ⟨⟩
    exact holds chunk isCached
  · have empty : CacheHolds L content none := by
      intro chunk absent
      cases absent
    split
    · next full =>
      refine ⟨empty, .inr ⟨fun quiet => ?_, .cacheCapacity, rfl, .inl rfl⟩⟩
      have room := quiet.1
      rw [expected, length_chunkOf] at full
      omega
    · split
      · next fault =>
        refine ⟨empty, .inr ⟨fun quiet => ?_, .fault, rfl, .inr rfl⟩⟩
        rw [quiet.2] at fault
        cases fault
      · have found : version.chunks[ordinal]? = some version.chunks[ordinal] :=
          List.getElem?_eq_getElem inside
        simp only [found, expected, serves.reads ordinal _ found]
        refine ⟨?_, .inl rfl⟩
        rintro chunk ⟨⟩
        rfl

/-- The bytes of a chunk behind an offset. -/
theorem slice_chunkOf {offset count : Nat}
    (inside : offset % L.blobChunkBytes + count ≤ L.blobChunkBytes) :
    slice (chunkOf L content (offset / L.blobChunkBytes)) (offset % L.blobChunkBytes) count =
      slice content offset count := by
  rw [chunkOf, slice_slice inside]
  congr 1
  rw [Nat.mul_comm]
  exact Nat.div_add_mod offset L.blobChunkBytes

/-- The loop copies the bytes from the offset on.  Every turn copies at least one. -/
theorem Serves.readBlobRange (serves : Serves view version content)
    (environment : Nat → LoadEnvironment) (turns offset remaining : Nat)
    (holds : CacheHolds L content cached) (enough : remaining ≤ turns)
    (inside : offset + remaining ≤ content.length) :
    Delivers L content (slice content offset remaining)
      (∀ ordinal, (environment ordinal).Quiet view)
      (view.readBlobRange version environment turns offset remaining cached) := by
  induction turns generalizing offset remaining cached with
  | zero =>
    obtain rfl : remaining = 0 := by omega
    simp only [ReaderView.readBlobRange]
    exact ⟨holds, .inl (by simp [slice])⟩
  | succ turns ih =>
    cases remaining with
    | zero =>
      simp only [ReaderView.readBlobRange]
      exact ⟨holds, .inl (by simp [slice])⟩
    | succ remaining =>
      have positive := L.chunk_pos
      have within := Nat.mod_lt offset positive
      have whole := Nat.div_add_mod offset L.blobChunkBytes
      rw [Nat.mul_comm] at whole
      have exists_ : offset / L.blobChunkBytes < version.chunks.length := by
        rw [Nat.div_lt_iff_lt_mul positive]
        have := serves.count.enough
        omega
      have loaded := serves.loadChunk holds exists_ (environment (offset / L.blobChunkBytes))
      simp only [ReaderView.readBlobRange]
      generalize view.loadChunk version (offset / L.blobChunkBytes)
        (environment (offset / L.blobChunkBytes)) cached = load at loaded ⊢
      obtain ⟨result, cached'⟩ := load
      rcases loaded.result with rfl | ⟨notQuiet, error, rfl, environmental⟩
      · have length := @length_chunkOf L content (offset / L.blobChunkBytes)
        generalize isCount : min (remaining + 1)
          ((chunkOf L content (offset / L.blobChunkBytes)).length - offset % L.blobChunkBytes) =
            count
        dsimp only
        rw [if_neg (by omega), isCount]
        have rest := ih (offset + count) (remaining + 1 - count) loaded.cache (by omega) (by omega)
        generalize view.readBlobRange version environment turns (offset + count)
          (remaining + 1 - count) cached' = behind at rest ⊢
        obtain ⟨restResult, restCached⟩ := behind
        rcases rest.result with rfl | ⟨notQuiet, error, rfl, environmental⟩
        · refine ⟨rest.cache, .inl ?_⟩
          have split := slice_split content offset count (remaining + 1 - count)
          rw [show count + (remaining + 1 - count) = remaining + 1 by omega] at split
          have front := @slice_chunkOf L content offset count (by omega)
          rw [split, ← front]
        · exact ⟨rest.cache, .inr ⟨notQuiet, error, rfl, environmental⟩⟩
      · exact ⟨loaded.cache, .inr ⟨fun quiet => notQuiet (quiet _), error, rfl, environmental⟩⟩

end Loading

/-! ## Calls -/

/-- What a call of a reader of the content may do. -/
def ReaderObservation.Exact (content : Bytes) (view : ReaderView L)
    (observation : ReaderObservation) : Prop :=
  match observation.call with
  | .seek absoluteOffset =>
    if view.active = true ∧ absoluteOffset ≤ content.length then
      observation.result = .ok [] ∧ observation.after = absoluteOffset
    else (∃ error, observation.result = .error error) ∧ observation.after = observation.before
  | .read destinationBytes environment =>
    match observation.result with
    | .ok bytes =>
      bytes = slice content observation.before destinationBytes ∧
        observation.after = observation.before + bytes.length ∧
        (bytes = [] ↔ destinationBytes = 0 ∨ observation.before = content.length)
    | .error error =>
      observation.after = observation.before ∧
        (view.active = false ∨
          error.Environmental ∧ ¬ ∀ ordinal, (environment ordinal).Quiet view)

/-- A reader somewhere in the content. -/
structure ReaderStands (L : Limits) (content : Bytes) (reader : BlobReader) : Prop where
  position : reader.position ≤ content.length
  cache : CacheHolds L content reader.decodedChunk

section Calls

variable {view : ReaderView L} {reader : BlobReader} {content : Bytes}

theorem Serves.read (serves : Serves view reader.version content)
    (stands : ReaderStands L content reader) (destinationBytes : Nat)
    (environment : Nat → LoadEnvironment) :
    ReaderObservation.Exact content view
        { call := .read destinationBytes environment, before := reader.position,
          result := (view.read reader destinationBytes environment).1,
          after := (view.read reader destinationBytes environment).2.position } ∧
      (view.read reader destinationBytes environment).2.version = reader.version ∧
      ReaderStands L content (view.read reader destinationBytes environment).2 := by
  have inside := stands.position
  unfold ReaderView.read
  by_cases inactive : view.active = false
  · rw [if_pos inactive]
    exact ⟨⟨rfl, .inl inactive⟩, rfl, stands⟩
  · rw [if_neg inactive]
    rw [serves.size]
    generalize isCount : min (content.length - reader.position) destinationBytes = count
    have wanted : slice content reader.position destinationBytes =
        slice content reader.position count := by
      rw [slice, slice, List.take_eq_take_iff, List.length_drop]
      omega
    by_cases nothing : count = 0
    · rw [if_pos nothing]
      refine ⟨⟨?_, rfl, ?_⟩, rfl, stands⟩
      · rw [wanted, nothing]
        simp [slice]
      · simp only [true_iff]
        omega
    · rw [if_neg nothing]
      have delivers := serves.readBlobRange environment count reader.position count stands.cache
        (Nat.le_refl _) (by omega)
      generalize view.readBlobRange reader.version environment count reader.position count
        reader.decodedChunk = range at delivers ⊢
      obtain ⟨result, decodedChunk⟩ := range
      rcases delivers.result with rfl | ⟨notQuiet, error, rfl, environmental⟩
      · have length : (slice content reader.position count).length = count :=
          slice_length (by omega)
        refine ⟨⟨wanted.symm, ?_, ?_⟩, rfl, ?_, delivers.cache⟩
        · rw [length]
        · rw [← List.length_eq_zero_iff, length]
          dsimp only
          omega
        · dsimp only
          omega
      · exact ⟨⟨rfl, .inr ⟨environmental, notQuiet⟩⟩, rfl, stands.position, delivers.cache⟩

theorem Serves.seek (serves : Serves view reader.version content)
    (stands : ReaderStands L content reader) (absoluteOffset : Nat) :
    ReaderObservation.Exact content view
        { call := .seek absoluteOffset, before := reader.position,
          result := (view.seek reader absoluteOffset).1,
          after := (view.seek reader absoluteOffset).2.position } ∧
      (view.seek reader absoluteOffset).2.version = reader.version ∧
      ReaderStands L content (view.seek reader absoluteOffset).2 := by
  unfold ReaderView.seek
  simp only [ReaderObservation.Exact]
  by_cases inactive : view.active = false
  · rw [if_pos inactive, if_neg (by simp [inactive])]
    exact ⟨⟨⟨_, rfl⟩, rfl⟩, rfl, stands⟩
  · rw [if_neg inactive, serves.size]
    rw [Bool.not_eq_false] at inactive
    by_cases behind : content.length < absoluteOffset
    · rw [if_pos behind, if_neg (fun both => absurd both.2 (not_le.2 behind))]
      exact ⟨⟨⟨_, rfl⟩, rfl⟩, rfl, stands⟩
    · rw [if_neg behind, if_pos ⟨inactive, not_lt.1 behind⟩]
      exact ⟨⟨rfl, rfl⟩, rfl, not_lt.1 behind, stands.cache⟩

/-- A whole run of calls, each of which finds the version served. -/
theorem reader_exact (calls : List (ReaderView L × ReaderCall))
    (stands : ReaderStands L content reader)
    (serves : ∀ call ∈ calls, Serves call.1 reader.version content) :
    ∀ seen ∈ reader.run calls, seen.2.Exact content seen.1 := by
  induction calls generalizing reader with
  | nil =>
    intro seen absent
    cases absent
  | cons head rest ih =>
    obtain ⟨view, call⟩ := head
    have here : ReaderObservation.Exact content view
          { call, before := reader.position, result := (view.call reader call).1,
            after := (view.call reader call).2.position } ∧
        (view.call reader call).2.version = reader.version ∧
        ReaderStands L content (view.call reader call).2 := by
      cases call with
      | seek absoluteOffset => exact (serves _ List.mem_cons_self).seek stands absoluteOffset
      | read destinationBytes environment =>
        exact (serves _ List.mem_cons_self).read stands destinationBytes environment
    obtain ⟨exact_, version, stands⟩ := here
    intro seen member
    rcases List.mem_cons.1 member with rfl | member
    · exact exact_
    · refine ih stands (fun call later => ?_) seen member
      rw [version]
      exact serves call (List.mem_cons_of_mem _ later)

end Calls

end Miare
