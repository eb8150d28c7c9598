import Miare.Tree.Store

/-!
# The common region of a database file

A file begins with an immutable bootstrap and two publication slots
(`include/miare/detail/database_format.hpp`).  A slot holds the protected record of one
generation; opening a file selects the newest record that passes its protection check, and a commit
writes the record of the next generation into the slot of its parity.

Encryption, hashing and compression are parameters: the theorems hold for all of them.
-/

namespace Miare

open Misc

/-! ## Errors, files and providers -/

/-- `Errc` (`include/miare/error.hpp:13-52`). -/
inductive Errc where
  | invalidArgument
  | invalidConfiguration
  | invalidState
  | wrongThread
  | liveChildren
  | io
  | durability
  | corrupt
  | unsupportedFormat
  | unsupportedFeature
  | incompatibleProfile
  | providerUnavailable
  | resourceLimit
  | recoveryRequired
  | commitFailed
  | commitOutcomeUnknown
  | inUse
  | keyRequired
  | unexpectedKey
deriving DecidableEq, Repr

/-- `DatabaseError`, or `ContractError` when `contract` is set. -/
structure DatabaseError where
  code : Errc
  message : String
  contract : Bool
deriving DecidableEq, Repr

/-- A `DatabaseError`. -/
def databaseError (code : Errc) (message : String) : DatabaseError := ⟨code, message, false⟩

/-- A `ContractError`. -/
def contractError (code : Errc) (message : String) : DatabaseError := ⟨code, message, true⟩

/-- `throwCorrupt`. -/
def corruptError (message : String) : DatabaseError := databaseError .corrupt message

/-- Largest offset of a file, `std::numeric_limits<off_t>::max()`. -/
def maxFileOffset : Nat := 2 ^ 63 - 1

/-- `readExactAt` (`include/miare/detail/durable_file.hpp:153-206`). -/
def readExactAt (file : Bytes) (offset length : Nat) : Except DatabaseError Bytes := do
  require (contractError .invalidArgument "file range is not representable")
    (offset ≤ maxFileOffset ∧ length ≤ maxFileOffset - offset)
  require (databaseError .io "unexpected end of database file") (offset + length ≤ file.length)
  pure (slice file offset length)

/-- `CryptoProvider` (`include/miare/detail/providers.hpp:64-100`).  Decryption gives `none` when
authentication fails.  The buffers of a call have fixed sizes. -/
structure CryptoProvider where
  hashBlake2b256 : Bytes → Except DatabaseError Bytes
  encryptDetached : (key nonce plaintext associatedData : Bytes) →
    Except DatabaseError (Bytes × Bytes)
  decryptDetached : (key nonce ciphertext tag associatedData : Bytes) →
    Except DatabaseError (Option Bytes)
  hash_length : ∀ {input digest}, hashBlake2b256 input = .ok digest → digest.length = 32
  encrypt_length : ∀ {key nonce plaintext associatedData sealed_},
    encryptDetached key nonce plaintext associatedData = .ok sealed_ →
      sealed_.1.length = plaintext.length ∧ sealed_.2.length = authenticationTagBytes
  decrypt_length : ∀ {key nonce ciphertext tag associatedData plaintext},
    decryptDetached key nonce ciphertext tag associatedData = .ok (some plaintext) →
      plaintext.length = ciphertext.length

/-- `CompressionProvider` (`providers.hpp:123-131`).  `compress` is given its input and the size of
its output buffer, and gives back the number of bytes it reports and the buffer; `decompress` is
given a frame and the size of its output. -/
structure CompressionProvider where
  compressBound : Nat → Except DatabaseError Nat
  compress : Bytes → Nat → Except DatabaseError (Nat × Bytes)
  decompress : Bytes → Nat → Except DatabaseError Bytes
  compress_length : ∀ {input size result}, compress input size = .ok result →
    result.2.length = size
  decompress_length : ∀ {frame size output}, decompress frame size = .ok output →
    output.length = size

/-- `ProviderSet`, with the built-in hash (`include/miare/detail/blake2b.hpp`). -/
structure ProviderSet where
  crypto : Option CryptoProvider
  compression : Option CompressionProvider
  blake2b : (outputBytes : Nat) → Bytes → Bytes
  blake2b_length : ∀ outputBytes input, (blake2b outputBytes input).length = outputBytes

/-- `ProviderAccess::crypto`. -/
def ProviderSet.requireCrypto (providers : ProviderSet) : Except DatabaseError CryptoProvider :=
  match providers.crypto with
  | none => .error (databaseError .providerUnavailable "cryptographic provider is missing")
  | some crypto => .ok crypto

/-- `ProviderAccess::compression`. -/
def ProviderSet.requireCompression (providers : ProviderSet) :
    Except DatabaseError CompressionProvider :=
  match providers.compression with
  | none => .error (databaseError .providerUnavailable "compression provider is missing")
  | some compression => .ok compression

/-- `SessionKeys`, the keys that are used; suite 0 has none. -/
structure SessionKeys where
  header : Bytes
  mainData : Bytes
  blob : Bytes

/-! ## Sizes and domains -/

def bootstrapBytes : Nat := 4096

def publicationSlotBytes : Nat := 4096

def publicationEnvelopeBytes : Nat := 64

def publicationPlaintextBytes : Nat := 4016

def capacityProfileBytes : Nat := 104

def databaseIdentityBytes : Nat := 16

def aeadNonceBytes : Nat := 24

theorem zeroNonce_length : (List.replicate aeadNonceBytes (0 : Byte)).length = aeadNonceBytes :=
  List.length_replicate

/-- The bytes `MIAREDB` with a zero. -/
def bootstrapMagic : Bytes := [77, 73, 65, 82, 69, 68, 66, 0]

/-- The bytes `MIARESLT`. -/
def slotMagic : Bytes := [77, 73, 65, 82, 69, 83, 76, 84]

/-- The bytes `MIAREPUB`. -/
def publicationMagic : Bytes := [77, 73, 65, 82, 69, 80, 85, 66]

/-- The bytes `MiareLimitsV1`, padded to 16. -/
def limitsDomain : Bytes :=
  [77, 105, 97, 114, 101, 76, 105, 109, 105, 116, 115, 86, 49, 0, 0, 0]

/-- The bytes `MiareHeaderV1`, padded to 16. -/
def headerDomain : Bytes :=
  [77, 105, 97, 114, 101, 72, 101, 97, 100, 101, 114, 86, 49, 0, 0, 0]

/-- The bytes `MiareSlotCheckV1`. -/
def slotCheckDomain : Bytes :=
  [77, 105, 97, 114, 101, 83, 108, 111, 116, 67, 104, 101, 99, 107, 86, 49]

/-! ## The bootstrap -/

/-- `EncryptionSuite`. -/
inductive EncryptionSuite where
  | none
  | xChaCha20Poly1305Ietf
deriving DecidableEq, Repr

/-- `encryptionSuiteIdentifier`. -/
def EncryptionSuite.identifier : EncryptionSuite → Nat
  | .none => 0
  | .xChaCha20Poly1305Ietf => 1

/-- `visibleEncryptionSuite`. -/
def visibleEncryptionSuite (bootstrap : Bytes) : EncryptionSuite :=
  if readLittleEndian 4 bootstrap 32 = 0 then .none else .xChaCha20Poly1305Ietf

/-- The provider that a suite needs. -/
def ProviderSet.requireSuite (providers : ProviderSet) :
    EncryptionSuite → Except DatabaseError Unit
  | .none => .ok ()
  | .xChaCha20Poly1305Ietf => do
    let _ ← providers.requireCrypto
    pure ()

/-- The provider that a compression policy needs. -/
def ProviderSet.requireCodec (providers : ProviderSet) (compressionId : Nat) :
    Except DatabaseError Unit :=
  if compressionId = 1 then do
    let _ ← providers.requireCompression
    pure ()
  else .ok ()

/-- The identity in the bootstrap. -/
def databaseIdentity (bootstrap : Bytes) : Bytes := slice bootstrap 40 databaseIdentityBytes

/-- `validateVisibleBootstrapDispatch` (`database_format.hpp:591-620`). -/
def validateVisibleBootstrapDispatch (bootstrap : Bytes) : Except DatabaseError Unit := do
  require (databaseError .unsupportedFormat "unsupported database envelope")
    (slice bootstrap 0 8 = bootstrapMagic ∧ readLittleEndian 2 bootstrap 8 = 1 ∧
      readLittleEndian 4 bootstrap 12 = bootstrapBytes ∧ readLittleEndian 4 bootstrap 16 = 1)
  let suite := readLittleEndian 4 bootstrap 32
  require (databaseError .unsupportedFeature "unsupported database feature")
    (readLittleEndian 4 bootstrap 20 = 0 ∧ suite ≤ 1)
  let expected := if suite = 0 then 0 else 1
  require (databaseError .incompatibleProfile "unsupported key derivation profile")
    (readLittleEndian 4 bootstrap 24 = expected ∧ readLittleEndian 4 bootstrap 28 = expected)

/-- `validateCanonicalBootstrap` (`database_format.hpp:829-851`). -/
def validateCanonicalBootstrap (bootstrap : Bytes) : Except DatabaseError Unit :=
  require (corruptError "authenticated bootstrap is noncanonical")
    (readLittleEndian 2 bootstrap 10 = 0 ∧ readLittleEndian 4 bootstrap 36 = 0 ∧
      readLittleEndian 8 bootstrap 72 = commonRegionBytes ∧
      readLittleEndian 4 bootstrap 80 = publicationSlotBytes ∧
      readLittleEndian 4 bootstrap 84 = 2 ∧ readLittleEndian 8 bootstrap 88 = commonRegionBytes ∧
      allZero (bootstrap.drop 96) ∧
      (visibleEncryptionSuite bootstrap = .none → allZero (slice bootstrap 56 16)))

/-! ## Slots -/

/-- `canonicalSlotEnvelope` (`database_format.hpp:631-646`). -/
def canonicalSlotEnvelope (slot : Bytes) (physicalIndex : Nat) : Bool :=
  decide (slice slot 0 8 = slotMagic) && decide (readLittleEndian 2 slot 8 = 1) &&
    decide (readLittleEndian 2 slot 10 = physicalIndex) &&
    decide (readLittleEndian 4 slot 12 = publicationEnvelopeBytes) &&
    decide (readLittleEndian 4 slot 16 = publicationPlaintextBytes) &&
    decide (readLittleEndian 4 slot 20 = 0) && allZero (slice slot 48 16)

/-- `publicationAssociatedData`. -/
def publicationAssociatedData (bootstrap envelope : Bytes) : Bytes :=
  headerDomain ++ bootstrap ++ envelope

/-- `publicationChecksum`. -/
def publicationChecksum (providers : ProviderSet) (bootstrap envelope plaintext : Bytes) : Bytes :=
  providers.blake2b authenticationTagBytes (slotCheckDomain ++ bootstrap ++ envelope ++ plaintext)

/-- `authenticateSlot` (`database_format.hpp:648-672`). -/
def authenticateSlot (crypto : CryptoProvider) (keys : SessionKeys) (bootstrap slot : Bytes)
    (physicalIndex : Nat) : Except DatabaseError (Option Bytes) :=
  if canonicalSlotEnvelope slot physicalIndex then
    crypto.decryptDetached keys.header (slice slot 24 aeadNonceBytes)
      (slice slot publicationEnvelopeBytes publicationPlaintextBytes)
      (slice slot 4080 authenticationTagBytes)
      (publicationAssociatedData bootstrap (slice slot 0 publicationEnvelopeBytes))
  else .ok none

/-- `checksumSlot` (`database_format.hpp:674-699`). -/
def checksumSlot (providers : ProviderSet) (bootstrap slot : Bytes) (physicalIndex : Nat) :
    Option Bytes :=
  let plaintext := slice slot publicationEnvelopeBytes publicationPlaintextBytes
  if canonicalSlotEnvelope slot physicalIndex ∧ allZero (slice slot 24 aeadNonceBytes) ∧
      publicationChecksum providers bootstrap (slice slot 0 publicationEnvelopeBytes) plaintext =
        slice slot 4080 authenticationTagBytes then
    some plaintext
  else none

/-- Where a slot begins. -/
def slotOffset (index : Nat) : Nat := bootstrapBytes + index * publicationSlotBytes

/-- The plaintext of a slot that lies in the file and passes the protection check of its suite:
the body of the first loop of `selectPublication`. -/
def openSlot (providers : ProviderSet) (keys : SessionKeys) (bootstrap file : Bytes) (index : Nat) :
    Except DatabaseError (Option Bytes) :=
  if slotOffset (index + 1) ≤ file.length then do
    let slot ← readExactAt file (slotOffset index) publicationSlotBytes
    match visibleEncryptionSuite bootstrap with
    | .none => .ok (checksumSlot providers bootstrap slot index)
    | .xChaCha20Poly1305Ietf => do
      let crypto ← providers.requireCrypto
      authenticateSlot crypto keys bootstrap slot index
  else .ok none

/-! ## Publications -/

/-- `encodeCapacityProfile` (`database_format.hpp:208-234`). -/
def encodeCapacityProfile (L : Limits) : Bytes :=
  toLittleEndian 8 L.allocationQuantumBytes ++ toLittleEndian 8 L.maxInlineValueBytes ++
    toLittleEndian 8 L.blobChunkBytes ++ toLittleEndian 8 L.maxKeyBytes ++
    toLittleEndian 8 L.maxValueBytes ++ toLittleEndian 8 L.maxBlobBytes ++
    toLittleEndian 8 L.maxDatabaseBytes ++ toLittleEndian 8 L.maxKeyMutationsPerTransaction ++
    toLittleEndian 8 L.maxBlobMutationsPerTransaction ++
    toLittleEndian 8 L.maxBlobBytesPerTransaction ++
    toLittleEndian 8 L.maxFileGrowthPerTransaction ++
    toLittleEndian 4 L.maxCursorsPerTransaction ++ toLittleEndian 4 L.maxBlobReadersPerTransaction ++
    toLittleEndian 4 L.maxOpenBlobWritersPerTransaction ++ List.replicate 4 0

/-- `capacityProfileDigest` of both suites: they hash the same bytes. -/
def capacityProfileDigest (providers : ProviderSet) (suite : EncryptionSuite) (profile : Bytes) :
    Except DatabaseError Bytes :=
  let input := limitsDomain ++ toLittleEndian 4 1 ++ toLittleEndian 4 capacityProfileBytes ++ profile
  match suite with
  | .none => .ok (providers.blake2b 32 input)
  | .xChaCha20Poly1305Ietf => do
    let crypto ← providers.requireCrypto
    crypto.hashBlake2b256 input

/-- `Compression`. -/
inductive Compression where
  | none
  | zStd
deriving DecidableEq, Repr

/-- `OpenedFormat` of the source with the fields of the publication that the loaders read. -/
structure PublicationFormat extends OpenedFormat where
  compression : Compression
  encryptionSuite : EncryptionSuite
  optionalFeatures : Nat
  orderedRoot : Bytes
  blobRoot : Bytes
  allocatorRoot : Bytes
deriving DecidableEq, Repr

/-- Generation of a publication. -/
def publicationGeneration (plaintext : Bytes) : Nat := readLittleEndian 8 plaintext 16

/-- `predecessorGeneration` of a publication. -/
def publicationPredecessor (plaintext : Bytes) : Nat := readLittleEndian 8 plaintext 24

/-- `validatePublication` (`database_format.hpp:701-827`). -/
def validatePublication (L : Limits) (providers : ProviderSet) (bootstrap : Bytes)
    (physicalIndex : Nat) (plaintext : Bytes) : Except DatabaseError PublicationFormat := do
  let generation := publicationGeneration plaintext
  require (corruptError "publication slot is noncanonical")
    (slice plaintext 0 8 = publicationMagic ∧ readLittleEndian 2 plaintext 8 = 1 ∧
      readLittleEndian 2 plaintext 10 = physicalIndex ∧
      readLittleEndian 4 plaintext 12 = publicationPlaintextBytes ∧ generation ≠ 0 ∧
      allZero (slice plaintext 100 4) ∧ allZero (slice plaintext 352 3664))
  let predecessor := publicationPredecessor plaintext
  require (corruptError "publication generation relationship is invalid")
    (¬((generation = 1 ∧ predecessor ≠ 0) ∨ (1 < generation ∧ predecessor ≠ generation - 1) ∨
      (1 < generation ∧ physicalIndex ≠ generation % 2)))
  require (corruptError "publication identity contradicts its bootstrap")
    (slice plaintext 32 databaseIdentityBytes = databaseIdentity bootstrap)
  require (databaseError .unsupportedFormat "unsupported common format")
    (readLittleEndian 4 plaintext 48 = 1)
  let suite := visibleEncryptionSuite bootstrap
  require (corruptError "publication protection contradicts its bootstrap")
    (readLittleEndian 4 plaintext 60 = suite.identifier)
  require (databaseError .unsupportedFeature "unsupported publication feature")
    (readLittleEndian 4 plaintext 52 = 1 ∧ readLittleEndian 8 plaintext 64 = 0 ∧
      readLittleEndian 8 plaintext 72 = 0)
  require (databaseError .unsupportedFormat "unsupported backend format")
    (readLittleEndian 4 plaintext 56 = 1)
  let compressionId := readLittleEndian 4 plaintext 80
  require (databaseError .unsupportedFeature "unsupported compression policy") (compressionId ≤ 1)
  require (databaseError .incompatibleProfile "incompatible codec profile")
    (readLittleEndian 4 plaintext 84 = compressionId ∧
      readLittleEndian 4 plaintext 88 = compressionId)
  providers.requireCodec compressionId
  require (databaseError .incompatibleProfile "incompatible capacity profile")
    (readLittleEndian 4 plaintext 92 = 1 ∧ readLittleEndian 4 plaintext 96 = capacityProfileBytes)
  let storedProfile := slice plaintext 136 capacityProfileBytes
  let digest ← capacityProfileDigest providers suite storedProfile
  require (corruptError "capacity profile digest is invalid") (digest = slice plaintext 104 32)
  require (databaseError .incompatibleProfile "incompatible capacity profile")
    (encodeCapacityProfile L = storedProfile)
  let highWaterBlocks := readLittleEndian 8 plaintext 336
  require (corruptError "database has an invalid committed boundary")
    (¬((generation = 1 ∧ (allZero (slice plaintext 240 96) = false ∨
        highWaterBlocks ≠ L.commonBlocks)) ∨
      (1 < generation ∧ (highWaterBlocks < L.commonBlocks ∨
        L.maxDatabaseBytes / L.allocationQuantumBytes < highWaterBlocks))))
  require (corruptError "publication flags are noncanonical") (readLittleEndian 8 plaintext 344 = 0)
  pure
    { generation
      highWaterBytes := highWaterBlocks * L.allocationQuantumBytes
      compression := if compressionId = 0 then .none else .zStd
      encryptionSuite := suite
      optionalFeatures := readLittleEndian 8 plaintext 72
      orderedRoot := slice plaintext 240 32
      blobRoot := slice plaintext 272 32
      allocatorRoot := slice plaintext 304 32 }

/-- The plaintext without its slot index. -/
def publicationSemantics (plaintext : Bytes) : Bytes := plaintext.take 10 ++ plaintext.drop 12

/-- A publication that passed the protection check of its slot, and its format. -/
structure ValidSlot where
  plaintext : Bytes
  format : PublicationFormat
deriving DecidableEq, Repr

/-- The newer of the two publications (`database_format.hpp:907-934`): it and whether the other
slot has none. -/
def choosePublication (first second : Option ValidSlot) :
    Except DatabaseError (Option (ValidSlot × Bool)) :=
  match first, second with
  | none, none => .ok none
  | some first, none => .ok (some (first, true))
  | none, some second => .ok (some (second, true))
  | some first, some second =>
    if first.format.generation = second.format.generation then do
      require (corruptError "equal publication generations contradict")
        (publicationSemantics first.plaintext = publicationSemantics second.plaintext)
      pure (some (first, false))
    else do
      let newer := if first.format.generation < second.format.generation then second else first
      let older := if first.format.generation < second.format.generation then first else second
      require (corruptError "publication generations contradict")
        (newer.format.generation = older.format.generation + 1 ∧
          publicationPredecessor newer.plaintext = older.format.generation)
      pure (some (newer, false))

/-- `SelectedPublication`. -/
structure SelectedPublication where
  format : PublicationFormat
  bootstrap : Bytes
  publication : Bytes
  rejectedInactivePublication : Bool
  abandonedTailBytes : Nat
deriving DecidableEq, Repr

/-- Validate what a slot holds. -/
def validateSlot (L : Limits) (providers : ProviderSet) (bootstrap : Bytes) (index : Nat) :
    Option Bytes → Except DatabaseError (Option ValidSlot)
  | none => .ok none
  | some plaintext => do
    let format ← validatePublication L providers bootstrap index plaintext
    pure (some { plaintext, format })

/-- `selectPublication` (`database_format.hpp:864-943`); `none` is `AuthenticationFailed`.  The
callers pass the bootstrap they have just read from the same file. -/
def selectPublication (L : Limits) (providers : ProviderSet) (keys : SessionKeys) (file : Bytes) :
    Except DatabaseError (Option SelectedPublication) := do
  let bootstrap ← readExactAt file 0 bootstrapBytes
  validateVisibleBootstrapDispatch bootstrap
  providers.requireSuite (visibleEncryptionSuite bootstrap)
  let first ← openSlot providers keys bootstrap file 0
  let second ← openSlot providers keys bootstrap file 1
  if first = none ∧ second = none then pure none
  else do
    validateCanonicalBootstrap bootstrap
    let first ← validateSlot L providers bootstrap 0 first
    let second ← validateSlot L providers bootstrap 1 second
    match ← choosePublication first second with
    | none => pure none
    | some (selected, rejected) => do
      require (corruptError "database file ends before its committed boundary")
        (selected.format.highWaterBytes ≤ file.length)
      pure (some
        { format := selected.format
          bootstrap
          publication := selected.plaintext
          rejectedInactivePublication := rejected
          abandonedTailBytes := file.length - selected.format.highWaterBytes })

/-! ## Writing publications -/

/-- The fields of an envelope, in order. -/
def slotEnvelopeFields (slotIndex : Nat) (nonce : Bytes) : List Bytes :=
  [slotMagic, toLittleEndian 2 1, toLittleEndian 2 slotIndex, toLittleEndian 4 publicationEnvelopeBytes,
    toLittleEndian 4 publicationPlaintextBytes, toLittleEndian 4 0, nonce, List.replicate 16 0]

/-- The envelope of a slot. -/
def encodeSlotEnvelope (slotIndex : Nat) (nonce : Bytes) : Bytes :=
  (slotEnvelopeFields slotIndex nonce).flatten

/-- `encodePublicationSlot` (`include/miare/detail/exact_store.hpp:3433-3472`); `nonce` is what the
provider draws, of which suite 0 makes no use. -/
def encodePublicationSlot (providers : ProviderSet) (keys : SessionKeys) (bootstrap plaintext : Bytes)
    (slotIndex : Nat) (nonce : Bytes) : Except DatabaseError Bytes :=
  match visibleEncryptionSuite bootstrap with
  | .none =>
    let envelope := encodeSlotEnvelope slotIndex (List.replicate aeadNonceBytes 0)
    .ok (envelope ++ plaintext ++ publicationChecksum providers bootstrap envelope plaintext)
  | .xChaCha20Poly1305Ietf => do
    let crypto ← providers.requireCrypto
    let envelope := encodeSlotEnvelope slotIndex nonce
    let (ciphertext, tag) ← crypto.encryptDetached keys.header nonce plaintext
      (publicationAssociatedData bootstrap envelope)
    pure (envelope ++ ciphertext ++ tag)

/-- The slot that the next commit writes (`exact_store.hpp:3482-3483`). -/
def nextSlotIndex (generation : Nat) : Nat := (generation + 1) % 2

/-- `prepareExactPublication` (`exact_store.hpp:3474-3511`): the plaintext of the next generation
and its slot. -/
def prepareExactPublication (L : Limits) (providers : ProviderSet) (keys : SessionKeys)
    (opened : SelectedPublication) (orderedRoot blobRoot allocatorRoot : ExtentReference)
    (highWaterBytes : Nat) (nonce : Bytes) : Except DatabaseError (Bytes × Bytes) := do
  let generation := opened.format.generation + 1
  let slotIndex := nextSlotIndex opened.format.generation
  let plaintext := splice opened.publication 10 (toLittleEndian 2 slotIndex)
  let plaintext := splice plaintext 16 (toLittleEndian 8 generation)
  let plaintext := splice plaintext 24 (toLittleEndian 8 opened.format.generation)
  let plaintext := splice plaintext 240 (encodeExtentReference orderedRoot)
  let plaintext := splice plaintext 272 (encodeExtentReference blobRoot)
  let plaintext := splice plaintext 304 (encodeExtentReference allocatorRoot)
  let plaintext := splice plaintext 336
    (toLittleEndian 8 (highWaterBytes / L.allocationQuantumBytes))
  let slot ← encodePublicationSlot providers keys opened.bootstrap plaintext slotIndex nonce
  pure (plaintext, slot)

/-! ## New databases -/

/-- The fields of a first publication, in order. -/
def initialPublicationFields (L : Limits) (slotIndex : Nat) (identity : Bytes)
    (compressionId suiteId : Nat) (digest : Bytes) : List Bytes :=
  [publicationMagic, toLittleEndian 2 1, toLittleEndian 2 slotIndex,
    toLittleEndian 4 publicationPlaintextBytes, toLittleEndian 8 1, toLittleEndian 8 0, identity,
    toLittleEndian 4 1, toLittleEndian 4 1, toLittleEndian 4 1, toLittleEndian 4 suiteId,
    toLittleEndian 8 0, toLittleEndian 8 0, toLittleEndian 4 compressionId,
    toLittleEndian 4 compressionId, toLittleEndian 4 compressionId, toLittleEndian 4 1,
    toLittleEndian 4 capacityProfileBytes, List.replicate 4 0, digest, encodeCapacityProfile L,
    List.replicate 96 0, toLittleEndian 8 L.commonBlocks, toLittleEndian 8 0,
    List.replicate 3664 0]

/-- `makeInitialPublicationPlaintext` (`database_format.hpp:366-419`). -/
def makeInitialPublicationPlaintext (L : Limits) (slotIndex : Nat) (identity : Bytes)
    (compressionId suiteId : Nat) (digest : Bytes) : Bytes :=
  (initialPublicationFields L slotIndex identity compressionId suiteId digest).flatten

/-- The fields of a new bootstrap, in order. -/
def unencryptedBootstrapFields (identity : Bytes) : List Bytes :=
  [bootstrapMagic, toLittleEndian 2 1, toLittleEndian 2 0, toLittleEndian 4 bootstrapBytes,
    toLittleEndian 4 1, toLittleEndian 4 0, toLittleEndian 4 0, toLittleEndian 4 0,
    toLittleEndian 4 0, toLittleEndian 4 0, identity, List.replicate 16 0,
    toLittleEndian 8 commonRegionBytes, toLittleEndian 4 publicationSlotBytes, toLittleEndian 4 2,
    toLittleEndian 8 commonRegionBytes, List.replicate 4000 0]

/-- The bootstrap of a database without encryption. -/
def makeUnencryptedBootstrap (identity : Bytes) : Bytes :=
  (unencryptedBootstrapFields identity).flatten

/-- A slot of a new database without encryption. -/
def makeUnencryptedSlot (L : Limits) (providers : ProviderSet) (identity : Bytes)
    (compressionId slotIndex : Nat) : Bytes :=
  let bootstrap := makeUnencryptedBootstrap identity
  let profile := encodeCapacityProfile L
  let digest := providers.blake2b 32
    (limitsDomain ++ toLittleEndian 4 1 ++ toLittleEndian 4 capacityProfileBytes ++ profile)
  let plaintext := makeInitialPublicationPlaintext L slotIndex identity compressionId 0 digest
  let envelope := encodeSlotEnvelope slotIndex (List.replicate aeadNonceBytes 0)
  envelope ++ plaintext ++ publicationChecksum providers bootstrap envelope plaintext

/-- `makeInitialUnencryptedCommonRegion` (`database_format.hpp:502-557`); `identity` is what the
entropy source draws. -/
def makeInitialUnencryptedCommonRegion (L : Limits) (providers : ProviderSet) (identity : Bytes)
    (compressionId : Nat) : Bytes :=
  makeUnencryptedBootstrap identity ++ makeUnencryptedSlot L providers identity compressionId 0 ++
    makeUnencryptedSlot L providers identity compressionId 1 ++
    List.replicate (commonRegionBytes - 3 * 4096) 0

end Miare
