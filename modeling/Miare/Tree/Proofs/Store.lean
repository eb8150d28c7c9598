import Miare.Tree.Store
import Miare.Page.Proofs.Frame

/-!
# Reading extents: inversion and monotonicity

A later publication has a higher generation and high water, and a commit only adds extents to
the store.  What could be read before can be read then.
-/

namespace Miare

open Misc

/-- `later` was published after `format`, or is `format`. -/
structure OpenedFormat.Before (format later : OpenedFormat) : Prop where
  generation : format.generation ≤ later.generation
  highWater : format.highWaterBytes ≤ later.highWaterBytes

/-- Every extent of `store` up to a generation is one of `larger`. -/
def ExtentStore.Within (store : ExtentStore) (generation : Nat) (larger : ExtentStore) : Prop :=
  ∀ reference extent, reference.creationGeneration ≤ generation →
    store reference = some extent → larger reference = some extent

variable {L : Limits} {format later : OpenedFormat} {store larger : ExtentStore}
  {reference : ExtentReference}

/-- The reference names blocks of the publication. -/
structure ExtentReference.Placed (L : Limits) (format : OpenedFormat)
    (reference : ExtentReference) : Prop where
  behindCommon : L.commonBlocks ≤ reference.blockIndex
  blocks : reference.blockCount ≠ 0
  framed : extentLayoutBytes + authenticationTagBytes ≤ reference.encodedLength
  created : reference.creationGeneration ≠ 0
  generation : reference.creationGeneration ≤ format.generation
  length : reference.encodedLength ≤ reference.blockCount * L.allocationQuantumBytes
  limit : (reference.blockIndex + reference.blockCount) * L.allocationQuantumBytes ≤
    format.highWaterBytes
  words : reference.blockCount ≤ uint64Max / L.allocationQuantumBytes ∧
    reference.blockIndex ≤ uint64Max / L.allocationQuantumBytes

theorem ExtentReference.Placed.not_null (placed : reference.Placed L format) :
    reference.null = false := by
  have := placed.blocks
  simp [ExtentReference.null, this]

theorem validateExtentReference_placed (placed : reference.Placed L format) :
    validateExtentReference L format reference = .ok () := by
  have limit := placed.limit
  rw [Nat.add_mul] at limit
  unfold validateExtentReference
  rw [if_neg (by rw [placed.not_null]; exact Bool.false_ne_true),
    require_of ⟨placed.behindCommon, placed.blocks, placed.framed, placed.created,
      placed.generation, placed.words.1⟩, ok_bind,
    require_of ⟨placed.length, placed.words.2⟩, ok_bind, require_of]
  constructor <;> omega

theorem validateExtentReference_ok (accepted : validateExtentReference L format reference = .ok ())
    (present : reference.null = false) : reference.Placed L format := by
  unfold validateExtentReference at accepted
  rw [if_neg (by rw [present]; exact Bool.false_ne_true)] at accepted
  simp only [require_bind_eq_ok, require_eq_ok] at accepted
  obtain ⟨⟨common, blocks, framed, created, generation, count⟩, ⟨length, index⟩, offset, fits⟩ :=
    accepted
  refine ⟨common, blocks, framed, created, generation, length, ?_, count, index⟩
  rw [Nat.add_mul]
  omega

theorem ExtentReference.Placed.mono (after : format.Before later)
    (placed : reference.Placed L format) : reference.Placed L later :=
  { placed with
    generation := placed.generation.trans after.generation
    limit := placed.limit.trans after.highWater }

theorem validateExtentReference_mono (after : format.Before later)
    (accepted : validateExtentReference L format reference = .ok ()) :
    validateExtentReference L later reference = .ok () := by
  by_cases absent : reference.null
  · unfold validateExtentReference
    rw [if_pos absent]
  · have placed := validateExtentReference_ok accepted (Bool.not_eq_true _ ▸ absent)
    exact validateExtentReference_placed (placed.mono after)

theorem validateOrderedPageReference_ok {result : Unit}
    (accepted : validateOrderedPageReference L format reference = .ok result) :
    validateExtentReference L format reference = .ok () ∧
      reference.blockCount ≤ L.pageBlocks ∧
      reference.blockCount = L.minimalBlocks reference.encodedLength := by
  obtain ⟨⟨⟩, valid, span⟩ := bind_eq_ok.1 accepted
  exact ⟨valid, require_eq_ok.1 span⟩

theorem validateOrderedPageReference_of
    (valid : validateExtentReference L format reference = .ok ())
    (span : reference.blockCount ≤ L.pageBlocks ∧
      reference.blockCount = L.minimalBlocks reference.encodedLength) :
    validateOrderedPageReference L format reference = .ok () := by
  rw [validateOrderedPageReference, valid, ok_bind, require_of span]

theorem validateOrderedPageReference_mono (after : format.Before later)
    (accepted : validateOrderedPageReference L format reference = .ok ()) :
    validateOrderedPageReference L later reference = .ok () := by
  obtain ⟨valid, span⟩ := validateOrderedPageReference_ok accepted
  exact validateOrderedPageReference_of (validateExtentReference_mono after valid) span

/-- What a successful read says. -/
structure ReadExtent (L : Limits) (format : OpenedFormat) (store : ExtentStore)
    (reference : ExtentReference) (context : ExtentContext) (expected : Option Nat)
    (payload : Bytes) : Prop where
  present : reference.null = false
  valid : validateExtentReference L format reference = .ok ()
  framable : ∀ length ∈ expected, L.framable length
  span : (isPageKind context.unitKind → reference.blockCount ≤ L.pageBlocks) ∧
    (∀ length ∈ expected, reference.blockCount ≤ L.blocksFor (encodedExtentLength length)) ∧
    reference.blockCount = L.minimalBlocks reference.encodedLength
  stored : store reference = some { context, payload }
  sized : (∀ length ∈ expected, payload.length = length) ∧
    (isPageKind context.unitKind → payload.length = L.pagePayloadBytes)

theorem readAuthenticatedExtent_eq_ok {context : ExtentContext} {expected : Option Nat}
    {payload : Bytes} :
    readAuthenticatedExtent L format store reference context expected = .ok payload ↔
      ReadExtent L format store reference context expected payload := by
  unfold readAuthenticatedExtent
  constructor
  · intro read
    rw [require_bind_eq_ok] at read
    obtain ⟨present, read⟩ := read
    obtain ⟨⟨⟩, valid, read⟩ := bind_eq_ok.1 read
    rw [require_bind_eq_ok, require_bind_eq_ok] at read
    obtain ⟨framable, span, read⟩ := read
    split at read
    · cases read
    · rename_i extent found
      rw [require_bind_eq_ok, require_bind_eq_ok] at read
      obtain ⟨same, sized, read⟩ := read
      obtain ⟨stored, body⟩ := extent
      cases read
      cases same
      exact ⟨present, valid, framable, span, found, sized⟩
  · rintro ⟨present, valid, framable, span, stored, sized⟩
    rw [require_of present, ok_bind, valid, ok_bind, require_of framable, ok_bind,
      require_of span, ok_bind, stored]
    dsimp only
    rw [require_of (by trivial), ok_bind, require_of sized, ok_bind]
    rfl

theorem ReadExtent.mono {context : ExtentContext} {expected : Option Nat} {payload : Bytes}
    (after : format.Before later) (within : store.Within format.generation larger)
    (read : ReadExtent L format store reference context expected payload) :
    ReadExtent L later larger reference context expected payload :=
  { read with
    valid := validateExtentReference_mono after read.valid
    stored := within _ _ (validateExtentReference_ok read.valid read.present).generation
      read.stored }

/-- What `openTreePage` has checked. -/
structure OpenedPage (L : Limits) (format : OpenedFormat) (store : ExtentStore) (T : TreeRole)
    (level : Nat) (reference : ExtentReference) (payload : Bytes) (header : PageHeader) : Prop where
  shallow : level ≤ maximumTreeLevel
  reference_ok : validateOrderedPageReference L format reference = .ok ()
  read : ∃ kind, (kind = T.internalKind ∨ kind = T.leafKind) ∧
    ReadExtent L format store reference
      { unitKind := kind, keyDomain := T.keyDomain, owner := T.owner } none payload ∧
    header.Matches T kind level
  is_header : header = readPageHeader payload
  bounded : header.Bounded T payload

theorem openTreePage_eq_ok {T : TreeRole} {level : Nat} {payload : Bytes} {header : PageHeader} :
    openTreePage L format store T level reference = .ok (payload, header) ↔
      OpenedPage L format store T level reference payload header := by
  unfold openTreePage readTreePage
  simp only [bind_assoc, pure_bind]
  constructor
  · intro opened
    rw [require_bind_eq_ok] at opened
    obtain ⟨shallow, opened⟩ := opened
    obtain ⟨⟨⟩, valid, opened⟩ := bind_eq_ok.1 opened
    obtain ⟨kind, isKind, opened⟩ := bind_eq_ok.1 opened
    rw [require_bind_eq_ok] at opened
    obtain ⟨known, opened⟩ := opened
    obtain ⟨bytes, read, opened⟩ := bind_eq_ok.1 opened
    rw [require_bind_eq_ok, require_bind_eq_ok] at opened
    obtain ⟨accepted, bounded, opened⟩ := opened
    cases opened
    exact ⟨shallow, valid, ⟨kind, known, readAuthenticatedExtent_eq_ok.1 read, accepted⟩, rfl,
      bounded⟩
  · rintro ⟨shallow, valid, ⟨kind, known, read, accepted⟩, rfl, bounded⟩
    have isKind : readUnitKind store reference = .ok kind := by
      rw [readUnitKind, read.stored]
    rw [require_of shallow, ok_bind, valid, ok_bind, isKind, ok_bind, require_of known, ok_bind,
      readAuthenticatedExtent_eq_ok.2 read, ok_bind, require_of accepted, ok_bind,
      require_of bounded, ok_bind]
    rfl

theorem OpenedPage.mono {T : TreeRole} {level : Nat} {payload : Bytes} {header : PageHeader}
    (after : format.Before later) (within : store.Within format.generation larger)
    (opened : OpenedPage L format store T level reference payload header) :
    OpenedPage L later larger T level reference payload header := by
  obtain ⟨kind, known, read, accepted⟩ := opened.read
  exact { opened with
    reference_ok := validateOrderedPageReference_mono after opened.reference_ok
    read := ⟨kind, known, read.mono after within, accepted⟩ }

/-- A page at a reference: what a parent knows about its child. -/
structure PageAt (L : Limits) (format : OpenedFormat) (store : ExtentStore) (T : TreeRole)
    (kind : Nat) (reference : ExtentReference) (payload : Bytes) : Prop where
  valid : validateOrderedPageReference L format reference = .ok ()
  read : ReadExtent L format store reference
    { unitKind := kind, keyDomain := T.keyDomain, owner := T.owner } none payload

/-- An encoded page passes the checks of the header and the bounds. -/
theorem OpenedPage.encoded {T : TreeRole} {type level : Nat} {leftmostChild shared : Bytes}
    {entries : List Bytes} (known : type = 1 ∨ type = 2)
    (page : PageAt L format store T (if type = 1 then T.leafKind else T.internalKind) reference
      (encodePage L type T.role level leftmostChild shared entries))
    (shallow : level ≤ maximumTreeLevel) (leaf : type = 1 ↔ level = 0)
    (small : T.role < 2 ^ 32) (child : leftmostChild.length = 32)
    (filled : type = 1 → entries ≠ []) (sized : ∀ size ∈ T.keySize, shared.length ≤ size)
    (childless : type = 1 → leftmostChild = noChild)
    (used : pageUsedLength shared.length entries ≤ L.pagePayloadBytes) :
    OpenedPage L format store T level reference
      (encodePage L type T.role level leftmostChild shared entries)
      (encodedHeader type T.role level leftmostChild shared entries) := by
  have room := pagePayloadBytes_lt L
  have header : readPageHeader (encodePage L type T.role level leftmostChild shared entries) =
      encodedHeader type T.role level leftmostChild shared entries :=
    readPageHeader_encodePage child (by omega) small
      (by unfold maximumTreeLevel at shallow; omega) (by omega)
  refine ⟨shallow, page.valid, ⟨_, ?_, page.read, encodedHeader_matches known rfl leaf⟩,
    header.symm, encodedHeader_bounded child filled sized childless used⟩
  split
  · exact Or.inr rfl
  · exact Or.inl rfl

/-- A child as its parent lists it. -/
def PreparedTreeNode.entry (node : PreparedTreeNode) : Bytes × ExtentReference :=
  (node.minimumKey, node.reference)

end Miare
