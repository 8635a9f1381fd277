/-
# `CommonFoundry.Consensus.ModelBank` — the model bank and its verifier

`cmfd-consensus/src/model_bank.rs`: a fixed header, the base input and the layers, one
after another.  `buildSmallModelBank` makes one from explicit bytes, `verifyModelBank`
checks one against a trusted manifest while it is read.

The verifier reads through a `ChunkedReader`: any byte stream, cut in any way.  A
hasher is the bytes that it was fed with.  Plain BLAKE3 is a parameter `blake3`, and
the hashes with a domain are `Platform.deriveKey`.

`allocation` sizes and the conversions of lengths to `usize` have no effect and are
left out.  The slices of the header in `read_header` have constant bounds, so none is
out of range; they are the fields taken off its front.
-/
import CommonFoundry.Consensus.Network
import CommonFoundry.Lib.ChunkedReader
import CommonFoundry.Lib.Primitives

namespace CommonFoundry

open Lib Lib.Codec Outcome

/-- `MODEL_BANK_MAGIC`, the bytes of `CMFDBNK2`. -/
def modelBankMagic : List UInt8 := [0x43, 0x4d, 0x46, 0x44, 0x42, 0x4e, 0x4b, 0x32]
/-- `MODEL_BANK_FORMAT_VERSION`. -/
def modelBankFormatVersion : UInt32 := 2
/-- `MODEL_BANK_HEADER_BYTES`. -/
def modelBankHeaderBytes : Nat := 184
/-- `MAX_MODEL_BYTE`. -/
def maxModelByte : UInt8 := 250
/-- `MAX_SMALL_FIXTURE_PAYLOAD_BYTES`. -/
def maxSmallFixturePayloadBytes : Nat := 16 * 1024 * 1024
/-- `LAYER_ROOTS_DOMAIN`. -/
def layerRootsDomain : String := "CMFD/FORGEMATRIX/V2/LAYER-ROOTS"
/-- `MANIFEST_DOMAIN`. -/
def manifestDomain : String := "CMFD/FORGEMATRIX/V2/MANIFEST"
/-- `VERIFY_CHUNK_BYTES`. -/
def verifyChunkBytes : Nat := 64 * 1024

inductive ModelBankError where
  | invalidMagic
  | unsupportedFormatVersion
  | invalidHeaderLength
  | invalidModelVersion
  | invalidDimensions
  | sizeOverflow
  | nonCanonicalLengths
  | manifestMismatch
  | pcsParameterDigestMismatch
  | pcsCommitmentRootMismatch
  | truncated
  | trailingBytes
  | outOfRange (offset : Nat) (value : UInt8)
  | rawRootMismatch
  | layerRootsAggregateMismatch
  | fixtureTooLarge
  | baseInputLength
  | layerShape
  deriving DecidableEq

/-- A `u64` operation that reports an overflow. -/
def checked64 (n : Nat) : Outcome ModelBankError Nat :=
  if n < 2 ^ 64 then .ok n else fail .sizeOverflow

/-! ## The manifest -/

/-- `encode_header`. -/
def encodeHeader (manifest : ModelBankManifest) : List UInt8 :=
  modelBankMagic ++ (leBytes32 modelBankFormatVersion ++
    (leBytes32 (UInt32.ofNat modelBankHeaderBytes) ++ (leBytes32 manifest.modelVersion ++
    (leBytes32 manifest.dimension ++ (leBytes32 manifest.batch ++ (leBytes32 manifest.layers ++
    (leBytes64 manifest.baseInputBytes ++ (leBytes64 manifest.bytesPerLayer ++
    (leBytes64 manifest.payloadBytes ++ (manifest.rawBlake3Root.1 ++
    (manifest.layerRootsAggregate.1 ++ (manifest.pcsParameterDigest.1 ++
      manifest.pcsCommitmentRoot.1))))))))))))

namespace ModelBankManifest

/-- `ModelBankManifest::validate_shape`. -/
def validateShape (self : ModelBankManifest) : Outcome ModelBankError Unit := do
  require (self.modelVersion ≠ 0) .invalidModelVersion
  require (¬(self.dimension = 0 ∨ self.batch = 0 ∨ self.layers = 0)) .invalidDimensions
  let expectedBase ← checked64 (self.batch.toNat * self.dimension.toNat)
  let expectedLayer ← checked64 (self.dimension.toNat * self.dimension.toNat)
  let layers ← checked64 (self.layers.toNat * expectedLayer)
  let expectedPayload ← checked64 (layers + expectedBase)
  require (¬(self.baseInputBytes.toNat ≠ expectedBase ∨ self.bytesPerLayer.toNat ≠ expectedLayer ∨
    self.payloadBytes.toNat ≠ expectedPayload)) .nonCanonicalLengths

/-- `ModelBankManifest::digest`. -/
def digest (P : Platform) (self : ModelBankManifest) : Outcome ModelBankError Bytes32 := do
  self.validateShape
  pure (P.deriveKey manifestDomain (encodeHeader self))

end ModelBankManifest

/-- `compare_manifests`. -/
def compareManifests (expected actual : ModelBankManifest) : Outcome ModelBankError Unit := do
  require (actual.pcsParameterDigest = expected.pcsParameterDigest) .pcsParameterDigestMismatch
  require (actual.pcsCommitmentRoot = expected.pcsCommitmentRoot) .pcsCommitmentRootMismatch
  require (actual = expected) .manifestMismatch

/-! ## The writer of fixtures -/

/-- `validate_values`, from byte `index` of the slice on. -/
def validateValues (startOffset : Nat) : Nat → List UInt8 → Outcome ModelBankError Unit
  | _, [] => .ok ()
  | index, value :: bytes =>
      if value > maxModelByte then
        fail (.outOfRange (startOffset + index) value)
      else
        validateValues startOffset (index + 1) bytes

/-- `start_layer_aggregate`. -/
def startLayerAggregate (layers : UInt32) : List UInt8 := leBytes32 layers

/-- `add_layer_root`. -/
def addLayerRoot (aggregate : List UInt8) (index : UInt32) (root : Bytes32) : List UInt8 :=
  aggregate ++ (leBytes32 index ++ root.1)

/-- `SmallModelBankFixture`. -/
structure SmallModelBankFixture where
  modelVersion : UInt32
  dimension : UInt32
  batch : UInt32
  baseInput : List UInt8
  layers : List (List UInt8)
  pcsParameterDigest : Bytes32
  pcsCommitmentRoot : Bytes32

/-- `BuiltModelBankFixture`. -/
structure BuiltModelBankFixture where
  bytes : List UInt8
  manifest : ModelBankManifest
  deriving DecidableEq

/-- The checks of the values, layer after layer. -/
def validateLayers (bytesPerLayer : Nat) : Nat → List (List UInt8) → Outcome ModelBankError Unit
  | _, [] => .ok ()
  | offset, layer :: layers => do
      validateValues offset 0 layer
      let offset ← checked64 (offset + bytesPerLayer)
      validateLayers bytesPerLayer offset layers

/-- The aggregate of the layers' roots, from layer `index` on. -/
def aggregateLayers (blake3 : List UInt8 → Bytes32) (aggregate : List UInt8) :
    Nat → List (List UInt8) → List UInt8
  | _, [] => aggregate
  | index, layer :: layers =>
      aggregateLayers blake3 (addLayerRoot aggregate (UInt32.ofNat index) (blake3 layer))
        (index + 1) layers

/-- `build_small_model_bank`. -/
def buildSmallModelBank (P : Platform) (blake3 : List UInt8 → Bytes32)
    (fixture : SmallModelBankFixture) : Outcome ModelBankError BuiltModelBankFixture := do
  require (fixture.modelVersion ≠ 0) .invalidModelVersion
  require (¬(fixture.dimension = 0 ∨ fixture.batch = 0 ∨ fixture.layers = [])) .invalidDimensions
  let baseInputBytes ← checked64 (fixture.batch.toNat * fixture.dimension.toNat)
  let bytesPerLayer ← checked64 (fixture.dimension.toNat * fixture.dimension.toNat)
  require (fixture.layers.length < 2 ^ 32) .sizeOverflow
  let layerBytes ← checked64 (fixture.layers.length * bytesPerLayer)
  let payloadBytes ← checked64 (layerBytes + baseInputBytes)
  require (¬payloadBytes > maxSmallFixturePayloadBytes) .fixtureTooLarge
  require (fixture.baseInput.length = baseInputBytes) .baseInputLength
  require (∀ layer ∈ fixture.layers, layer.length = bytesPerLayer) .layerShape
  validateValues 0 0 fixture.baseInput
  validateLayers bytesPerLayer baseInputBytes fixture.layers
  let layers := UInt32.ofNat fixture.layers.length
  let manifest : ModelBankManifest := {
    modelVersion := fixture.modelVersion
    dimension := fixture.dimension
    batch := fixture.batch
    layers := layers
    baseInputBytes := UInt64.ofNat baseInputBytes
    bytesPerLayer := UInt64.ofNat bytesPerLayer
    payloadBytes := UInt64.ofNat payloadBytes
    rawBlake3Root := blake3 (fixture.baseInput ++ fixture.layers.flatten)
    layerRootsAggregate := P.deriveKey layerRootsDomain
      (aggregateLayers blake3 (startLayerAggregate layers) 0 fixture.layers)
    pcsParameterDigest := fixture.pcsParameterDigest
    pcsCommitmentRoot := fixture.pcsCommitmentRoot }
  pure { bytes := encodeHeader manifest ++ (fixture.baseInput ++ fixture.layers.flatten), manifest }

/-! ## The verifier -/

/-- `read_exact`, with its error. -/
def readOrTruncated (reader : ChunkedReader) (n : Nat) :
    Outcome ModelBankError (List UInt8 × ChunkedReader) :=
  okOr (reader.readExact n) .truncated

/-- The header has room for every field, so none is short. -/
def shortHeader (_needed _remaining : Nat) : ModelBankError := .truncated

/-- The fields of `read_header`, in order. -/
def takeHeader : Reader ModelBankError ModelBankManifest := do
  let magic ← takeArray shortHeader 8
  (require (magic.1 = modelBankMagic) .invalidMagic : Outcome ModelBankError Unit)
  let formatVersion ← takeU32 shortHeader
  (require (formatVersion = modelBankFormatVersion) .unsupportedFormatVersion :
    Outcome ModelBankError Unit)
  let headerBytes ← takeU32 shortHeader
  (require (headerBytes = UInt32.ofNat modelBankHeaderBytes) .invalidHeaderLength :
    Outcome ModelBankError Unit)
  let modelVersion ← takeU32 shortHeader
  let dimension ← takeU32 shortHeader
  let batch ← takeU32 shortHeader
  let layers ← takeU32 shortHeader
  let baseInputBytes ← takeU64 shortHeader
  let bytesPerLayer ← takeU64 shortHeader
  let payloadBytes ← takeU64 shortHeader
  let rawBlake3Root ← takeArray shortHeader 32
  let layerRootsAggregate ← takeArray shortHeader 32
  let pcsParameterDigest ← takeArray shortHeader 32
  let pcsCommitmentRoot ← takeArray shortHeader 32
  pure { modelVersion, dimension, batch, layers, baseInputBytes, bytesPerLayer, payloadBytes,
         rawBlake3Root, layerRootsAggregate, pcsParameterDigest, pcsCommitmentRoot }

/-- `read_header`. -/
def readHeader (reader : ChunkedReader) :
    Outcome ModelBankError (ModelBankManifest × ChunkedReader) := do
  let (header, reader) ← readOrTruncated reader modelBankHeaderBytes
  let (manifest, _) ← takeHeader header
  manifest.validateShape
  pure (manifest, reader)

/-- The reader, the payload offset and the hashers that `stream_section` updates. -/
structure Streamed where
  reader : ChunkedReader
  payloadOffset : Nat
  rawHasher : List UInt8
  sectionHasher : Option (List UInt8)

/-- `stream_section`. -/
def streamSection (remaining : Nat) (state : Streamed) : Outcome ModelBankError Streamed :=
  if _h : remaining = 0 then
    .ok state
  else do
    let take := min remaining verifyChunkBytes
    let (buffer, reader) ← readOrTruncated state.reader take
    validateValues state.payloadOffset 0 buffer
    let payloadOffset ← checked64 (state.payloadOffset + take)
    streamSection (remaining - take) {
      reader := reader
      payloadOffset := payloadOffset
      rawHasher := state.rawHasher ++ buffer
      sectionHasher := state.sectionHasher.map (· ++ buffer) }
termination_by remaining
decreasing_by
  rw [verifyChunkBytes]
  omega

/-- One turn of the loop over the layers. -/
def streamLayer (blake3 : List UInt8 → Bytes32) (bytesPerLayer : Nat)
    (state : Streamed × List UInt8) (layerIndex : Nat) :
    Outcome ModelBankError (Streamed × List UInt8) := do
  let streamed ← streamSection bytesPerLayer { state.1 with sectionHasher := some [] }
  let root := blake3 (streamed.sectionHasher.getD [])
  pure ({ streamed with sectionHasher := none },
    addLayerRoot state.2 (UInt32.ofNat layerIndex) root)

/-- `verify_model_bank`. -/
def verifyModelBank (P : Platform) (blake3 : List UInt8 → Bytes32) (reader : ChunkedReader)
    (expected : ModelBankManifest) : Outcome ModelBankError Unit := do
  expected.validateShape
  let (actual, reader) ← readHeader reader
  compareManifests expected actual
  let base ← streamSection actual.baseInputBytes.toNat
    { reader := reader, payloadOffset := 0, rawHasher := [], sectionHasher := none }
  let (streamed, layerAggregate) ← (List.range actual.layers.toNat).foldlM
    (streamLayer blake3 actual.bytesPerLayer.toNat) (base, startLayerAggregate actual.layers)
  require (streamed.payloadOffset = actual.payloadBytes.toNat) .nonCanonicalLengths
  require (blake3 streamed.rawHasher = actual.rawBlake3Root) .rawRootMismatch
  require (P.deriveKey layerRootsDomain layerAggregate = actual.layerRootsAggregate)
    .layerRootsAggregateMismatch
  require ((streamed.reader.read 1).1 = []) .trailingBytes

end CommonFoundry
