import Miare.Format.Publication

/-!
# Extents in their blocks

An extent is a preamble of 160 bytes, the stored payload, a tag and zeros up to a whole number of
blocks (`include/miare/detail/exact_store.hpp:273-292`).  `sealAuthenticatedExtent` writes one,
`readAuthenticatedExtent` checks and opens one.
-/

namespace Miare

open Misc

/-! ## The open database -/

/-- `OpenedDatabase`: the selected publication and the keys of the session. -/
structure OpenedDatabase where
  format : PublicationFormat
  bootstrap : Bytes
  publication : Bytes
  keys : SessionKeys
  bootstrap_length : bootstrap.length = bootstrapBytes
  publication_length : publication.length = publicationPlaintextBytes

/-- `BlobId::encodedSize`. -/
def blobIdBytes : Nat := 16

/-- The bytes `MIAREXT` with a zero. -/
def extentMagic : Bytes := [77, 73, 65, 82, 69, 88, 84, 0]

/-- The bytes `MiareExtentV1`, padded to 16. -/
def extentDomain : Bytes :=
  [77, 105, 97, 114, 101, 69, 120, 116, 101, 110, 116, 86, 49, 0, 0, 0]

/-- The bytes `MiareExtentChkV1`. -/
def extentCheckDomain : Bytes :=
  [77, 105, 97, 114, 101, 69, 120, 116, 101, 110, 116, 67, 104, 107, 86, 49]

/-- A failed load as the error it is raised as; the loaders of this layer check that their reads lie
in the buffer. -/
def LoadError.raised : LoadError → DatabaseError
  | .corrupt message => corruptError message
  | .extent => corruptError "extent"
  | .outOfBounds => corruptError "out of bounds"

/-- Run a check of the layer above. -/
def raise {α : Type} : Except LoadError α → Except DatabaseError α
  | .ok value => .ok value
  | .error error => .error error.raised

/-! ## Preambles -/

/-- The preamble of an extent (`ExtentLayout`); magic, version, preamble length and the reserved
bytes are fixed. -/
@[ext] structure ExtentPreamble where
  unitKind : Nat
  flags : Nat
  keyDomain : Nat
  codec : Nat
  codecProfile : Nat
  blockIndex : Nat
  blockCount : Nat
  encodedLength : Nat
  storedLength : Nat
  decodedLength : Nat
  generation : Nat
  sequence : Nat
  owner : Bytes
  nonce : Bytes
deriving DecidableEq, Repr

/-- The fields of a preamble, in order. -/
def ExtentPreamble.fields (preamble : ExtentPreamble) : List Bytes :=
  [extentMagic, toLittleEndian 2 1, toLittleEndian 2 preamble.unitKind,
    toLittleEndian 4 preamble.flags, toLittleEndian 4 preamble.keyDomain,
    toLittleEndian 4 preamble.codec, toLittleEndian 4 preamble.codecProfile,
    toLittleEndian 4 extentLayoutBytes, toLittleEndian 8 preamble.blockIndex,
    toLittleEndian 8 preamble.blockCount, toLittleEndian 8 preamble.encodedLength,
    toLittleEndian 8 preamble.storedLength, toLittleEndian 8 preamble.decodedLength,
    toLittleEndian 8 preamble.generation, toLittleEndian 8 preamble.sequence, preamble.owner,
    preamble.nonce, List.replicate 32 0]

/-- The bytes of a preamble. -/
def ExtentPreamble.encode (preamble : ExtentPreamble) : Bytes := preamble.fields.flatten

/-- The preamble at the beginning of an extent. -/
def readExtentPreamble (input : Bytes) : ExtentPreamble where
  unitKind := readLittleEndian 2 input 10
  flags := readLittleEndian 4 input 12
  keyDomain := readLittleEndian 4 input 16
  codec := readLittleEndian 4 input 20
  codecProfile := readLittleEndian 4 input 24
  blockIndex := readLittleEndian 8 input 32
  blockCount := readLittleEndian 8 input 40
  encodedLength := readLittleEndian 8 input 48
  storedLength := readLittleEndian 8 input 56
  decodedLength := readLittleEndian 8 input 64
  generation := readLittleEndian 8 input 72
  sequence := readLittleEndian 8 input 80
  owner := slice input 88 blobIdBytes
  nonce := slice input 104 aeadNonceBytes

/-- `extentAssociatedData` (`exact_store.hpp:587-608`). -/
def extentAssociatedData (opened : OpenedDatabase) (preamble : Bytes) : Bytes :=
  extentDomain ++ databaseIdentity opened.bootstrap ++ toLittleEndian 4 1 ++ toLittleEndian 4 1 ++
    toLittleEndian 4 1 ++ toLittleEndian 4 opened.format.encryptionSuite.identifier ++
    slice opened.publication 104 32 ++ preamble

/-- `extentChecksum` (`exact_store.hpp:610-620`). -/
def extentChecksum (providers : ProviderSet) (protectionContext storedPlaintext : Bytes) : Bytes :=
  providers.blake2b authenticationTagBytes
    (extentCheckDomain ++ protectionContext ++ storedPlaintext)

/-! ## Sealing -/

/-- `zstdCompressBound` (`include/miare/detail/providers.hpp:50-56`). -/
def zstdCompressBound (inputBytes : Nat) : Nat :=
  let margin := if inputBytes < 128 * 1024 then (128 * 1024 - inputBytes) / 2 ^ 11 else 0
  inputBytes + inputBytes / 2 ^ 8 + margin

/-- `PreparedExtentPayload`. -/
structure PreparedExtentPayload where
  stored : Bytes
  decodedLength : Nat
  flags : Nat
  codec : Nat
deriving DecidableEq, Repr

/-- A payload that is stored as it is. -/
def plainPayload (decoded : Bytes) : PreparedExtentPayload := ⟨decoded, decoded.length, 0, 0⟩

/-- How a failed decompression of a fresh frame is raised (`exact_store.hpp:698-711`). -/
def invalidFrame (error : DatabaseError) : DatabaseError :=
  if error.contract ∨ error.code = .corrupt then
    databaseError .providerUnavailable "compression provider produced an invalid frame"
  else error

/-- Check that a frame gives the payload back. -/
def verifyFrame (compression : CompressionProvider) (decoded frame : Bytes) :
    Except DatabaseError Unit :=
  match compression.decompress frame decoded.length with
  | .error error => .error (invalidFrame error)
  | .ok verified =>
    require
      (databaseError .providerUnavailable "compression provider failed to preserve the payload")
      (decoded = verified)

/-- `prepareExtentPayload` (`exact_store.hpp:656-724`). -/
def prepareExtentPayload (L : Limits) (providers : ProviderSet) (opened : OpenedDatabase)
    (decoded : Bytes) (compressionEligible : Bool) : Except DatabaseError PreparedExtentPayload :=
  if compressionEligible ∧ opened.format.compression = .zStd ∧ decoded ≠ [] then do
    let compression ← providers.requireCompression
    let candidateBytes ← compression.compressBound decoded.length
    require
      (databaseError .providerUnavailable "compression provider requested excessive output storage")
      (candidateBytes ≤ zstdCompressBound decoded.length)
    let (compressedBytes, buffer) ← compression.compress decoded candidateBytes
    require (databaseError .providerUnavailable "compression provider exceeded its output bound")
      (compressedBytes ≤ candidateBytes)
    let candidate := buffer.take compressedBytes
    if compressedBytes < decoded.length ∧
        L.blocksFor (encodedExtentLength compressedBytes) <
          L.blocksFor (encodedExtentLength decoded.length) then do
      verifyFrame compression decoded candidate
      pure ⟨candidate, decoded.length, 1, 1⟩
    else pure (plainPayload decoded)
  else .ok (plainPayload decoded)

/-- The owner field: zeros when there is no owner. -/
def ownerField (owner : Bytes) : Bytes := if owner = [] then List.replicate blobIdBytes 0 else owner

/-- The preamble that an extent is sealed with. -/
def sealedPreamble (L : Limits) (opened : OpenedDatabase) (payload : PreparedExtentPayload)
    (context : ExtentContext) (generation blockIndex : Nat) (nonce : Bytes) : ExtentPreamble where
  unitKind := context.unitKind
  flags := payload.flags
  keyDomain := if opened.format.encryptionSuite = .none then 0 else context.keyDomain
  codec := payload.codec
  codecProfile := payload.codec
  blockIndex := blockIndex
  blockCount := L.blocksFor (encodedExtentLength payload.stored.length)
  encodedLength := encodedExtentLength payload.stored.length
  storedLength := payload.stored.length
  decodedLength := payload.decodedLength
  generation := generation
  sequence := context.sequence
  owner := ownerField context.owner
  nonce := if opened.format.encryptionSuite = .none then List.replicate aeadNonceBytes 0 else nonce

/-- The key of a key domain. -/
def SessionKeys.ofDomain (keys : SessionKeys) (keyDomain : Nat) : Bytes :=
  if keyDomain = 4 then keys.blob else keys.mainData

/-- The stored bytes as they stand in the file, and their tag. -/
def protectStored (providers : ProviderSet) (opened : OpenedDatabase) (keyDomain : Nat)
    (preamble : ExtentPreamble) (stored : Bytes) : Except DatabaseError (Bytes × Bytes) :=
  let associatedData := extentAssociatedData opened preamble.encode
  match opened.format.encryptionSuite with
  | .none => .ok (stored, extentChecksum providers associatedData stored)
  | .xChaCha20Poly1305Ietf => do
    let crypto ← providers.requireCrypto
    crypto.encryptDetached (opened.keys.ofDomain keyDomain) preamble.nonce stored associatedData

/-- `sealAuthenticatedExtent` (`exact_store.hpp:726-812`); `nonce` is what the provider draws, of
which suite 0 makes no use. -/
def sealAuthenticatedExtent (L : Limits) (providers : ProviderSet) (opened : OpenedDatabase)
    (payload : PreparedExtentPayload) (context : ExtentContext) (generation blockIndex : Nat)
    (nonce : Bytes) : Except DatabaseError (ExtentReference × Bytes) := do
  let preamble := sealedPreamble L opened payload context generation blockIndex nonce
  require
    (contractError .invalidArgument "authenticated extent owner must be a Blob identifier")
    (context.owner = [] ∨ context.owner.length = blobIdBytes)
  let (body, tag) ← protectStored providers opened context.keyDomain preamble payload.stored
  let reference : ExtentReference :=
    { blockIndex
      blockCount := preamble.blockCount
      encodedLength := preamble.encodedLength
      creationGeneration := generation }
  pure (reference, preamble.encode ++ body ++ tag ++
    List.replicate (preamble.blockCount * L.allocationQuantumBytes - preamble.encodedLength) 0)

/-! ## Reading -/

/-- What a preamble must say about the extent it belongs to. -/
def canonicalExtent (opened : OpenedDatabase) (reference : ExtentReference)
    (context : ExtentContext) (input : Bytes) : Prop :=
  let preamble := readExtentPreamble input
  slice input 0 8 = extentMagic ∧ readLittleEndian 2 input 8 = 1 ∧
    preamble.unitKind = context.unitKind ∧
    preamble.keyDomain = (if opened.format.encryptionSuite = .none then 0 else context.keyDomain) ∧
    readLittleEndian 4 input 28 = extentLayoutBytes ∧
    preamble.blockIndex = reference.blockIndex ∧ preamble.blockCount = reference.blockCount ∧
    preamble.encodedLength = reference.encodedLength ∧
    preamble.generation = reference.creationGeneration ∧ preamble.sequence = context.sequence ∧
    (if context.owner = [] then allZero preamble.owner = true
      else context.owner.length = blobIdBytes ∧ context.owner = preamble.owner) ∧
    (opened.format.encryptionSuite = .none → allZero preamble.nonce = true) ∧
    allZero (slice input 128 32) = true ∧ allZero (input.drop reference.encodedLength) = true

instance (opened : OpenedDatabase) (reference : ExtentReference) (context : ExtentContext)
    (input : Bytes) : Decidable (canonicalExtent opened reference context input) := by
  unfold canonicalExtent
  infer_instance

/-- How the payload may be stored (`exact_store.hpp:1198-1211`). -/
def validRepresentation (L : Limits) (opened : OpenedDatabase) (reference : ExtentReference)
    (context : ExtentContext) (expectedDecodedLength : Option Nat) (compressionEligible : Bool)
    (preamble : ExtentPreamble) : Prop :=
  preamble.flags ≤ 1 ∧ (compressionEligible = false → preamble.flags = 0) ∧
    preamble.codec = preamble.flags ∧ preamble.codecProfile = preamble.flags ∧
    preamble.storedLength =
      reference.encodedLength - extentLayoutBytes - authenticationTagBytes ∧
    (∀ length ∈ expectedDecodedLength, preamble.decodedLength = length) ∧
    (isPageKind context.unitKind → preamble.decodedLength = L.pagePayloadBytes) ∧
    (preamble.flags = 0 → preamble.storedLength = preamble.decodedLength) ∧
    (preamble.flags = 1 → opened.format.compression = .zStd ∧
      preamble.storedLength < preamble.decodedLength ∧
      reference.blockCount < L.blocksFor (encodedExtentLength preamble.decodedLength))

instance (L : Limits) (opened : OpenedDatabase) (reference : ExtentReference)
    (context : ExtentContext) (expectedDecodedLength : Option Nat) (compressionEligible : Bool)
    (preamble : ExtentPreamble) : Decidable (validRepresentation L opened reference context
      expectedDecodedLength compressionEligible preamble) := by
  unfold validRepresentation
  infer_instance

/-- The stored bytes of an extent, once their tag has been checked. -/
def openStored (providers : ProviderSet) (opened : OpenedDatabase) (keyDomain : Nat)
    (input : Bytes) (storedLength : Nat) : Except DatabaseError Bytes :=
  let associatedData := extentAssociatedData opened (slice input 0 extentLayoutBytes)
  let body := slice input extentLayoutBytes storedLength
  let tag := slice input (extentLayoutBytes + storedLength) authenticationTagBytes
  match opened.format.encryptionSuite with
  | .none => do
    require (corruptError "unencrypted extent checksum failed")
      (extentChecksum providers associatedData body = tag)
    pure body
  | .xChaCha20Poly1305Ietf => do
    let crypto ← providers.requireCrypto
    match ← crypto.decryptDetached (opened.keys.ofDomain keyDomain) (slice input 104 aeadNonceBytes)
        body tag associatedData with
    | none => .error (corruptError "authenticated extent authentication failed")
    | some stored => pure stored

/-- `readAuthenticatedExtent` (`exact_store.hpp:1093-1253`) on the bytes of a file; `validation`
holds the generation and the boundary that references are checked against. -/
def OpenedDatabase.readAuthenticatedExtent (opened : OpenedDatabase) (L : Limits)
    (providers : ProviderSet) (validation : OpenedFormat) (file : Bytes)
    (reference : ExtentReference) (context : ExtentContext) (expectedDecodedLength : Option Nat)
    (compressionEligible : Bool) : Except DatabaseError Bytes := do
  require (corruptError "authenticated extent reference is null") (reference.null = false)
  raise (validateExtentReference L validation reference)
  require (corruptError "authenticated extent decoded length overflows")
    (∀ length ∈ expectedDecodedLength, L.framable length)
  require (corruptError "authenticated extent span is noncanonical")
    ((isPageKind context.unitKind → reference.blockCount ≤ L.pageBlocks) ∧
      (∀ length ∈ expectedDecodedLength,
        reference.blockCount ≤ L.blocksFor (encodedExtentLength length)) ∧
      reference.blockCount = L.minimalBlocks reference.encodedLength)
  let input ← readExactAt file (reference.blockIndex * L.allocationQuantumBytes)
    (reference.blockCount * L.allocationQuantumBytes)
  require (corruptError "authenticated extent is noncanonical")
    (canonicalExtent opened reference context input)
  let preamble := readExtentPreamble input
  require (corruptError "authenticated extent decoded length overflows")
    (L.framable preamble.decodedLength)
  require (corruptError "authenticated extent representation is invalid")
    (validRepresentation L opened reference context expectedDecodedLength compressionEligible
      preamble)
  let stored ← openStored providers opened context.keyDomain input preamble.storedLength
  if preamble.flags = 1 then do
    let compression ← providers.requireCompression
    compression.decompress stored preamble.decodedLength
  else pure stored

/-! ## The file as a store of extents -/

/-- Key domain of a unit kind: the pages of chunk indexes, manifests and chunks belong to Blobs. -/
def unitKeyDomain (kind : Nat) : Nat := if kind ∈ [5, 6, 12, 13] then 4 else 2

/-- Unit kinds that may be compressed: all but manifests and allocator roots. -/
def unitCompressible (kind : Nat) : Bool := decide (kind ≠ 12) && decide (kind ≠ 14)

/-- The context that a preamble names.  Only the extents of Blobs have an owner. -/
def ExtentPreamble.context (preamble : ExtentPreamble) : ExtentContext where
  unitKind := preamble.unitKind
  keyDomain := unitKeyDomain preamble.unitKind
  sequence := preamble.sequence
  owner := if unitKeyDomain preamble.unitKind = 4 ∨ allZero preamble.owner = false
    then preamble.owner else []

/-- The preamble at a reference, which the loaders read to learn the kind of a page
(`exact_store.hpp:1352-1357`). -/
def readPreambleAt (L : Limits) (file : Bytes) (reference : ExtentReference) :
    Except DatabaseError ExtentPreamble := do
  let input ← readExactAt file (reference.blockIndex * L.allocationQuantumBytes) extentLayoutBytes
  pure (readExtentPreamble input)

/-- The extents of a file as the loaders see them. -/
def OpenedDatabase.fileStore (opened : OpenedDatabase) (L : Limits) (providers : ProviderSet)
    (file : Bytes) : ExtentStore := fun reference =>
  match readPreambleAt L file reference with
  | .error _ => none
  | .ok preamble =>
    match opened.readAuthenticatedExtent L providers opened.format.toOpenedFormat file reference
        preamble.context none (unitCompressible preamble.unitKind) with
    | .error _ => none
    | .ok payload => some { context := preamble.context, payload }

end Miare
