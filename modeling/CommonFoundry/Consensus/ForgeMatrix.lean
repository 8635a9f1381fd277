/-
# `CommonFoundry.Consensus.ForgeMatrix` — the v2 relation, its prover and its verifier

`cmfd-consensus/src/forgematrix_v2.rs`, but for its accelerator.  A nonce gives a
challenge; masks drawn from it are added to the base input and to the result of every
layer; each number is reduced by a cubic S-box to one of 251 activations.  The reference
proof carries the quotients and remainders of every reduction.

`i16`, `i32` and `i64` are `Int`, with the range checks where the code has them.  Elsewhere
nothing leaves the range: a sum of products of 16-bit numbers stays far inside 64 bits, and
a product of two numbers below the 27-bit modulus does too.

`finalize_xof` is a parameter, like the hashes: an endless stream of bytes for every domain
and input.
-/
import CommonFoundry.Consensus.ModelBank
import CommonFoundry.Lib.Grid
import CommonFoundry.Lib.Sampling

namespace CommonFoundry

open Lib Lib.Outcome

def forgematrixV2AlgorithmVersion : UInt32 := 2
def forgematrixV2ProofVersion : UInt32 := 1
def v2ReferenceMaxDimension : UInt32 := 32
def v2ReferenceMaxBatch : UInt32 := 4
def v2ReferenceMaxLayers : UInt32 := 4

def challengeDomain : String := "CMFD/FORGEMATRIX/CHALLENGE/V2"
def maskDomain : String := "CMFD/FORGEMATRIX/MASKCOEFF/V2"
def outputDomain : String := "CMFD/FORGEMATRIX/OUTPUT/V2"
def workDomain : String := "CMFD/FORGEMATRIX/WORK/V2"

def v2TransitionModulus : Nat := 134217689
def outputModulus : Nat := 251
def center : Int := 125
def maxOutputQuotient : Nat := 534731

inductive ForgeMatrixV2Error where
  | algorithmVersion
  | proofVersion
  | uncommittedDescriptor
  | wrongNetwork
  | invalidShape
  | productionDisabled
  | modelMismatch
  | modelManifestDigest
  | modelBank (error : ModelBankError)
  | witnessShape
  | challengeMismatch
  | accumulator
  | encodedAccumulator
  | transitionFieldRange
  | squareRelation
  | cubeRelation
  | outputRange
  | outputRelation
  | activationEncoding
  | outputDigest
  | workDigest
  | highHash
  | nonceExhausted
  | invalidAcceleratorBatch
  | acceleratorOutputShape
  | acceleratorMismatch
  | arithmeticOverflow

/-- `finalize_xof`: the stream of bytes of a domain and an input.  The bytes that a mask
takes do not run out, or its loop would not end. -/
structure Xof where
  stream : String → List UInt8 → Nat → UInt8
  endless : ∀ domain bytes, Endless (fun byte => decide (byte ≤ 250)) (stream domain bytes)

/-! ## Descriptors and models -/

/-- `is_power_of_two`. -/
def IsPowerOfTwo (n : UInt32) : Prop := 0 < n.toNat ∧ 2 ^ n.toNat.log2 = n.toNat

instance (n : UInt32) : Decidable (IsPowerOfTwo n) :=
  inferInstanceAs (Decidable (0 < n.toNat ∧ 2 ^ n.toNat.log2 = n.toNat))

/-- `ForgeMatrixV2Descriptor::validate_research`.  A product that does not fit into 32 bits
is no number of layers. -/
def ForgeMatrixV2Descriptor.validateResearch (P : Platform) (self : ForgeMatrixV2Descriptor) :
    Outcome ForgeMatrixV2Error Unit := do
  require (self.algorithmVersion = forgematrixV2AlgorithmVersion) .algorithmVersion
  require (self.proofVersion = forgematrixV2ProofVersion) .proofVersion
  require (¬(self.networkId = zero32 ∨ self.model.rawBlake3Root = zero32 ∨
    self.model.pcsParameterDigest = zero32 ∨ self.model.pcsCommitmentRoot = zero32))
    .uncommittedDescriptor
  require (¬(¬IsPowerOfTwo self.model.dimension ∨ ¬IsPowerOfTwo self.model.batch ∨
    ¬IsPowerOfTwo self.layersPerBank ∨ self.banks = 0 ∨
    self.banks.toNat * self.layersPerBank.toNat ≠ self.model.layers.toNat)) .invalidShape
  require (¬(self.model.dimension > v2ReferenceMaxDimension ∨
    self.model.batch > v2ReferenceMaxBatch ∨ self.model.layers > v2ReferenceMaxLayers))
    .productionDisabled
  let _ ← mapErr .modelBank (self.model.digest P)
  pure ()

structure ForgeMatrixV2Reference where
  descriptor : ForgeMatrixV2Descriptor
  baseInput : List UInt8
  weights : List (List UInt8)

/-- `ForgeMatrixV2Reference::from_explicit_model`. -/
def ForgeMatrixV2Reference.fromExplicitModel (P : Platform) (blake3 : List UInt8 → Bytes32)
    (descriptor : ForgeMatrixV2Descriptor) (baseInput : List UInt8) (weights : List (List UInt8)) :
    Outcome ForgeMatrixV2Error ForgeMatrixV2Reference := do
  descriptor.validateResearch P
  let rebuilt ← mapErr .modelBank (buildSmallModelBank P blake3 {
    modelVersion := descriptor.model.modelVersion
    dimension := descriptor.model.dimension
    batch := descriptor.model.batch
    baseInput := baseInput
    layers := weights
    pcsParameterDigest := descriptor.model.pcsParameterDigest
    pcsCommitmentRoot := descriptor.model.pcsCommitmentRoot })
  require (rebuilt.manifest = descriptor.model) .modelMismatch
  pure { descriptor, baseInput, weights }

/-! ## Witnesses -/

structure ReductionWitness where
  z : Int
  encodedZ : UInt32
  squareQuotient : UInt32
  squareRemainder : UInt32
  cubeQuotient : UInt32
  cubeRemainder : UInt32
  outputQuotient : UInt32
  outputRemainder : UInt16
  deriving DecidableEq

structure LayerWitness where
  accumulators : List Int
  reductions : List ReductionWitness
  output : List Int
  deriving DecidableEq

structure ForgeMatrixV2ReferenceProof where
  nonce : UInt64
  challengeDigest : Bytes32
  initialReductions : List ReductionWitness
  initialActivation : List Int
  layers : List LayerWitness
  finalActivationDigest : Bytes32
  workDigest : Bytes32
  deriving DecidableEq

/-- `checked_add` and `try_from` into `i32`. -/
def checkedI32 (n : Int) : Outcome ForgeMatrixV2Error Int :=
  if -2147483648 ≤ n ∧ n < 2147483648 then .ok n else fail .arithmeticOverflow

/-- `checked_add` of `i64`. -/
def checkedI64 (n : Int) : Outcome ForgeMatrixV2Error Int :=
  if -9223372036854775808 ≤ n ∧ n < 9223372036854775808 then .ok n else fail .arithmeticOverflow

/-- `u32::try_from`. -/
def tryU32 (n : Int) (error : ForgeMatrixV2Error) : Outcome ForgeMatrixV2Error UInt32 :=
  if 0 ≤ n ∧ n < 4294967296 then .ok (UInt32.ofNat n.toNat) else fail error

/-- `u16::try_from`. -/
def tryU16 (n : Nat) (error : ForgeMatrixV2Error) : Outcome ForgeMatrixV2Error UInt16 :=
  if n < 2 ^ 16 then .ok (UInt16.ofNat n) else fail error

/-- `check_reduction`. -/
def checkReduction (z : Int) (witness : ReductionWitness) : Outcome ForgeMatrixV2Error Unit := do
  require (¬(witness.encodedZ.toNat ≥ v2TransitionModulus ∨
    witness.squareQuotient.toNat ≥ v2TransitionModulus ∨
    witness.squareRemainder.toNat ≥ v2TransitionModulus ∨
    witness.cubeQuotient.toNat ≥ v2TransitionModulus ∨
    witness.cubeRemainder.toNat ≥ v2TransitionModulus)) .transitionFieldRange
  require (¬(witness.outputQuotient.toNat > maxOutputQuotient ∨
    witness.outputRemainder.toNat > 250)) .outputRange
  let expectedEncoded ← (if 0 ≤ z then tryU32 z .encodedAccumulator
    else tryU32 (v2TransitionModulus + z) .encodedAccumulator)
  require (¬(witness.z ≠ z ∨ witness.encodedZ ≠ expectedEncoded)) .encodedAccumulator
  require (witness.encodedZ.toNat * witness.encodedZ.toNat =
    v2TransitionModulus * witness.squareQuotient.toNat + witness.squareRemainder.toNat)
    .squareRelation
  require (witness.squareRemainder.toNat * witness.encodedZ.toNat =
    v2TransitionModulus * witness.cubeQuotient.toNat + witness.cubeRemainder.toNat) .cubeRelation
  require (witness.cubeRemainder.toNat =
    outputModulus * witness.outputQuotient.toNat + witness.outputRemainder.toNat) .outputRelation

/-- `reduction_witness`. -/
def reductionWitness (z : Int) : Outcome ForgeMatrixV2Error ReductionWitness := do
  require (¬z.natAbs ≥ v2TransitionModulus) .arithmeticOverflow
  let encodedZ ← (if 0 ≤ z then pure (UInt32.ofNat z.toNat)
    else tryU32 (v2TransitionModulus + z) .arithmeticOverflow)
  let square := encodedZ.toNat * encodedZ.toNat
  let squareQuotient := square / v2TransitionModulus
  let squareRemainder := square % v2TransitionModulus
  let cubeProduct := squareRemainder * encodedZ.toNat
  let cubeQuotient := cubeProduct / v2TransitionModulus
  let cubeRemainder := cubeProduct % v2TransitionModulus
  let outputQuotient := cubeRemainder / outputModulus
  let outputRemainder := cubeRemainder % outputModulus
  let squareQuotient ← tryU32 squareQuotient .arithmeticOverflow
  let squareRemainder ← tryU32 squareRemainder .arithmeticOverflow
  let cubeQuotient ← tryU32 cubeQuotient .arithmeticOverflow
  let cubeRemainder ← tryU32 cubeRemainder .arithmeticOverflow
  let outputQuotient ← tryU32 outputQuotient .arithmeticOverflow
  let outputRemainder ← tryU16 outputRemainder .arithmeticOverflow
  let witness := {
    z, encodedZ, squareQuotient, squareRemainder, cubeQuotient, cubeRemainder, outputQuotient
    outputRemainder }
  checkReduction z witness
  pure witness

/-- `centered_activation`. -/
def centeredActivation (value : UInt16) : Outcome ForgeMatrixV2Error Int := do
  require (¬value.toNat > 250) .outputRange
  pure (value.toNat - center)

/-- `decode_model_byte`. -/
def decodeModelByte (value : UInt8) : Int := value.toNat - center

/-- `activation_bytes`. -/
def activationBytes (values : List Int) : Outcome ForgeMatrixV2Error (List UInt8) :=
  values.mapM fun value =>
    let encoded := value + center
    if 0 ≤ encoded ∧ encoded ≤ 250 then .ok (UInt8.ofNat encoded.toNat)
    else fail .activationEncoding

/-! ## Masks and digests -/

/-- `mask_coefficients`. -/
def maskCoefficients (X : Xof) (challenge : Bytes32) (layer : UInt32) (rows width : Nat) :
    List UInt8 :=
  sample (X.endless maskDomain (challenge.1 ++ leBytes32 layer)) (show 0 < 64 by decide)
    (1 + rows.log2 + width.log2) 0 []

/-- The loop of `mask_value` over the bits of a position. -/
def addMaskBits (coefficients : List UInt8) (offset position bits : Nat) (value : Int) :
    Outcome ForgeMatrixV2Error Int :=
  (List.range bits).foldlM (fun value bit =>
    if position.testBit bit then do
      let coefficient ← itemAt coefficients (offset + bit)
      pure (value + coefficient.toNat)
    else pure value) value

/-- `mask_value`. -/
def maskValue (coefficients : List UInt8) (row col rows width : Nat) :
    Outcome ForgeMatrixV2Error Int := do
  let rowBits := rows.log2
  let colBits := width.log2
  require (coefficients.length = 1 + rowBits + colBits) .invalidShape
  let value ← itemAt coefficients 0
  let value ← addMaskBits coefficients 1 row rowBits value.toNat
  addMaskBits coefficients (1 + rowBits) col colBits value

/-- `challenge_digest`. -/
def challengeDigest (P : Platform) (descriptor : ForgeMatrixV2Descriptor) (block : BlockChallenge)
    (nonce : UInt64) : Outcome ForgeMatrixV2Error Bytes32 := do
  require (block.networkId = descriptor.networkId) .wrongNetwork
  let manifest ← mapErr .modelBank (descriptor.model.digest P)
  pure (P.deriveKey challengeDomain (descriptor.networkId.1 ++
    leBytes32 descriptor.algorithmVersion ++ leBytes32 descriptor.proofVersion ++
    leBytes32 descriptor.banks ++ leBytes32 descriptor.layersPerBank ++ manifest.1 ++
    descriptor.model.rawBlake3Root.1 ++ descriptor.model.pcsParameterDigest.1 ++
    descriptor.model.pcsCommitmentRoot.1 ++ block.previousBlock.1 ++ block.transactionRoot.1 ++
    leBytes64 block.height ++ leBytes64 block.timestamp ++ block.target.1 ++ leBytes64 nonce))

/-- `output_digest`. -/
def outputDigest (P : Platform) (challenge : Bytes32) (finalBytes : List UInt8) : Bytes32 :=
  P.deriveKey outputDomain
    (challenge.1 ++ leBytes64 (UInt64.ofNat finalBytes.length) ++ finalBytes)

/-- `work_digest`. -/
def workDigest (P : Platform) (descriptor : ForgeMatrixV2Descriptor)
    (challenge finalActivationDigest : Bytes32) : Bytes32 :=
  P.deriveKey workDomain (challenge.1 ++ descriptor.model.rawBlake3Root.1 ++
    descriptor.model.pcsCommitmentRoot.1 ++ finalActivationDigest.1)

/-! ## One cell -/

section

variable (mask : List UInt8) (rows width : Nat)

/-- The masked input of a cell. -/
def inputZ (baseInput : List UInt8) (row col : Nat) : Outcome ForgeMatrixV2Error Int := do
  let byte ← itemAt baseInput (row * width + col)
  let value ← maskValue mask row col rows width
  checkedI32 (decodeModelByte byte + value)

/-- A cell of the initial activation, as the prover makes it. -/
def proveInput (baseInput : List UInt8) (cell : Nat × Nat) :
    Outcome ForgeMatrixV2Error (ReductionWitness × Int) := do
  let z ← inputZ mask rows width baseInput cell.1 cell.2
  let reduction ← reductionWitness z
  let activation ← centeredActivation reduction.outputRemainder
  pure (reduction, activation)

/-- A cell of the initial activation, as the verifier checks it. -/
def verifyInput (baseInput : List UInt8) (reductions : List ReductionWitness)
    (activation : List Int) (cell : Nat × Nat) : Outcome ForgeMatrixV2Error Int := do
  let index := cell.1 * width + cell.2
  let z ← inputZ mask rows width baseInput cell.1 cell.2
  let reduction ← itemAt reductions index
  checkReduction z reduction
  let expected ← centeredActivation reduction.outputRemainder
  let found ← itemAt activation index
  require (found = expected) .activationEncoding
  pure expected

/-- One term of a matrix product. -/
def productAt (activation : List Int) (weights : List UInt8) (row col common : Nat) :
    Outcome ForgeMatrixV2Error Int := do
  let value ← itemAt activation (row * width + common)
  let weight ← itemAt weights (common * width + col)
  pure (value * decodeModelByte weight)

/-- A cell of a layer, as the prover makes it. -/
def proveCell (activation : List Int) (weights : List UInt8) (cell : Nat × Nat) :
    Outcome ForgeMatrixV2Error (Int × ReductionWitness × Int) := do
  let accumulator ← (List.range width).foldlM (fun accumulator common => do
    let product ← productAt width activation weights cell.1 cell.2 common
    checkedI64 (accumulator + product)) 0
  let accumulator ← checkedI32 accumulator
  let value ← maskValue mask cell.1 cell.2 rows width
  let z ← checkedI32 (accumulator + value)
  let reduction ← reductionWitness z
  let output ← centeredActivation reduction.outputRemainder
  pure (accumulator, reduction, output)

/-- A cell of a layer, as the verifier checks it. -/
def verifyCell (activation : List Int) (weights : List UInt8) (layer : LayerWitness)
    (cell : Nat × Nat) : Outcome ForgeMatrixV2Error Int := do
  let index := cell.1 * width + cell.2
  let expectedAccumulator ← (List.range width).foldlM (fun accumulator common => do
    let product ← productAt width activation weights cell.1 cell.2 common
    pure (accumulator + product)) 0
  let accumulator ← itemAt layer.accumulators index
  require (accumulator = expectedAccumulator) .accumulator
  let value ← maskValue mask cell.1 cell.2 rows width
  let z ← checkedI32 (accumulator + value)
  let reduction ← itemAt layer.reductions index
  checkReduction z reduction
  let expected ← centeredActivation reduction.outputRemainder
  let found ← itemAt layer.output index
  require (found = expected) .activationEncoding
  pure expected

end

/-! ## Layers -/

section

variable (X : Xof) (challenge : Bytes32) (rows width : Nat)

/-- The layers of `prove_reference`, from `layerIndex` on, and the final activation. -/
def proveLayers : Nat → List Int → List (List UInt8) →
    Outcome ForgeMatrixV2Error (List LayerWitness × List Int)
  | _, activation, [] => pure ([], activation)
  | layerIndex, activation, weights :: rest => do
      let mask := maskCoefficients X challenge (UInt32.ofNat layerIndex) rows width
      let found ← (cells rows width).mapM (proveCell mask rows width activation weights)
      let layer : LayerWitness := {
        accumulators := found.map (·.1)
        reductions := found.map (·.2.1)
        output := found.map (·.2.2) }
      let (layers, final) ← proveLayers (layerIndex + 1) layer.output rest
      pure (layer :: layers, final)

/-- The layers of `verify_reference`, from `layerIndex` on: the final activation. -/
def verifyLayers : Nat → List Int → List (List UInt8 × LayerWitness) →
    Outcome ForgeMatrixV2Error (List Int)
  | _, activation, [] => pure activation
  | layerIndex, activation, (weights, layer) :: rest => do
      require (¬(layer.accumulators.length ≠ rows * width ∨
        layer.reductions.length ≠ rows * width ∨ layer.output.length ≠ rows * width))
        .witnessShape
      let mask := maskCoefficients X challenge (UInt32.ofNat layerIndex) rows width
      let next ← (cells rows width).mapM (verifyCell mask rows width activation weights layer)
      verifyLayers (layerIndex + 1) next rest

end

/-! ## Proofs -/

/-- The mask of the input stands before those of the layers: its index is `u32::MAX`. -/
def inputMaskIndex : UInt32 := UInt32.ofNat (2 ^ 32 - 1)

namespace ForgeMatrixV2Reference

variable (P : Platform) (X : Xof)

def rows (self : ForgeMatrixV2Reference) : Nat := self.descriptor.model.batch.toNat

def width (self : ForgeMatrixV2Reference) : Nat := self.descriptor.model.dimension.toNat

/-- `prove_reference`. -/
def proveReference (self : ForgeMatrixV2Reference) (block : BlockChallenge) (nonce : UInt64) :
    Outcome ForgeMatrixV2Error ForgeMatrixV2ReferenceProof := do
  let challenge ← challengeDigest P self.descriptor block nonce
  let inputMask := maskCoefficients X challenge inputMaskIndex self.rows self.width
  let initial ← (cells self.rows self.width).mapM
    (proveInput inputMask self.rows self.width self.baseInput)
  let initialActivation := initial.map (·.2)
  let (layers, activation) ← proveLayers X challenge self.rows self.width 0 initialActivation
    self.weights
  let finalBytes ← activationBytes activation
  let finalActivationDigest := outputDigest P challenge finalBytes
  pure {
    nonce
    challengeDigest := challenge
    initialReductions := initial.map (·.1)
    initialActivation
    layers
    finalActivationDigest
    workDigest := workDigest P self.descriptor challenge finalActivationDigest }

/-- `verify_reference`. -/
def verifyReference (self : ForgeMatrixV2Reference) (block : BlockChallenge)
    (proof : ForgeMatrixV2ReferenceProof) : Outcome ForgeMatrixV2Error Unit := do
  let challenge ← challengeDigest P self.descriptor block proof.nonce
  require (proof.challengeDigest = challenge) .challengeMismatch
  require (¬(proof.initialReductions.length ≠ self.rows * self.width ∨
    proof.initialActivation.length ≠ self.rows * self.width ∨
    proof.layers.length ≠ self.weights.length)) .witnessShape
  let inputMask := maskCoefficients X challenge inputMaskIndex self.rows self.width
  let activation ← (cells self.rows self.width).mapM
    (verifyInput inputMask self.rows self.width self.baseInput proof.initialReductions
      proof.initialActivation)
  let activation ← verifyLayers X challenge self.rows self.width 0 activation
    (self.weights.zip proof.layers)
  let finalBytes ← activationBytes activation
  let expectedOutput := outputDigest P challenge finalBytes
  require (proof.finalActivationDigest = expectedOutput) .outputDigest
  let expectedWork := workDigest P self.descriptor challenge expectedOutput
  require (proof.workDigest = expectedWork) .workDigest
  require (¬proof.workDigest > block.target) .highHash

/-- `prove_compact`. -/
def proveCompact (self : ForgeMatrixV2Reference) (block : BlockChallenge) (nonce : UInt64) :
    Outcome ForgeMatrixV2Error ForgeMatrixV2CompactProof := do
  let reference ← self.proveReference P X block nonce
  let modelManifestDigest ← mapErr .modelBank (self.descriptor.model.digest P)
  pure {
    algorithmVersion := self.descriptor.algorithmVersion
    proofVersion := self.descriptor.proofVersion
    nonce
    modelManifestDigest
    challengeDigest := reference.challengeDigest
    finalActivationDigest := reference.finalActivationDigest
    workDigest := reference.workDigest }

/-- `mine_compact`, from attempt `offset` on. -/
def mineCompactFrom (self : ForgeMatrixV2Reference) (block : BlockChallenge) (startNonce : UInt64) :
    Nat → Nat → Outcome ForgeMatrixV2Error ForgeMatrixV2CompactProof
  | 0, _ => fail .nonceExhausted
  | attempts + 1, offset => do
      let proof ← self.proveCompact P X block (startNonce + UInt64.ofNat offset)
      if proof.workDigest ≤ block.target then pure proof
      else self.mineCompactFrom block startNonce attempts (offset + 1)

/-- `mine_compact`. -/
def mineCompact (self : ForgeMatrixV2Reference) (block : BlockChallenge) (startNonce : UInt64)
    (attempts : UInt64) : Outcome ForgeMatrixV2Error ForgeMatrixV2CompactProof :=
  self.mineCompactFrom P X block startNonce attempts.toNat 0

/-- `verify_compact_relation`. -/
def verifyCompactRelation (self : ForgeMatrixV2Reference) (block : BlockChallenge)
    (proof : ForgeMatrixV2CompactProof) : Outcome ForgeMatrixV2Error Unit := do
  require (block.networkId = self.descriptor.networkId) .wrongNetwork
  require (proof.algorithmVersion = self.descriptor.algorithmVersion) .algorithmVersion
  require (proof.proofVersion = self.descriptor.proofVersion) .proofVersion
  let manifest ← mapErr .modelBank (self.descriptor.model.digest P)
  require (proof.modelManifestDigest = manifest) .modelManifestDigest
  let expected ← self.proveReference P X block proof.nonce
  require (proof.challengeDigest = expected.challengeDigest) .challengeMismatch
  require (proof.finalActivationDigest = expected.finalActivationDigest) .outputDigest
  require (proof.workDigest = expected.workDigest) .workDigest

/-- `verify_compact`. -/
def verifyCompact (self : ForgeMatrixV2Reference) (block : BlockChallenge)
    (proof : ForgeMatrixV2CompactProof) : Outcome ForgeMatrixV2Error Unit := do
  self.verifyCompactRelation P X block proof
  require (¬proof.workDigest > block.target) .highHash

end ForgeMatrixV2Reference

end CommonFoundry
