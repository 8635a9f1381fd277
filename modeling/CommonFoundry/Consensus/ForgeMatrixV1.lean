/-
# `CommonFoundry.Consensus.ForgeMatrixV1` — the v1 relation

`cmfd-consensus/src/forgematrix.rs`, but for its fixtures and its statistics.  An `i8` is an
`Int`, and the bytes that are hashed are its two's complement.  No number leaves the range
of `i64`: a width fits into 32 bits, so a sum of products of 8-bit numbers stays below
`2 ^ 46`, and the mix of three 32-bit coordinates below `2 ^ 62`.
-/
import CommonFoundry.Consensus.ForgeMatrix

namespace CommonFoundry

open Lib Lib.Outcome

namespace V1

def challengeDomain : String := "CMFD/FORGEMATRIX/CHALLENGE/V1"
def modelDomain : String := "CMFD/FORGEMATRIX/MODEL/V1"
def activationDomain : String := "CMFD/FORGEMATRIX/ACTIVATION/V1"
def maskDomain : String := "CMFD/FORGEMATRIX/MASK/V1"
def outputDomain : String := "CMFD/FORGEMATRIX/OUTPUT/V1"
def workDomain : String := "CMFD/FORGEMATRIX/WORK/V1"

/-- `encode_profile`. -/
def encodeProfile (profile : ForgeMatrixProfile) : List UInt8 :=
  leBytes32 profile.algorithmVersion ++ leBytes32 profile.modelVersion ++
    leBytes32 profile.dimension ++ leBytes32 profile.batch ++ leBytes32 profile.layers ++
    profile.modelSeed.1

/-- `derive_bytes`. -/
def deriveBytes (X : Xof) (domain : String) (seed : Bytes32) (index : UInt32) (len : Nat) :
    List UInt8 :=
  (List.range len).map (X.stream domain (seed.1 ++ leBytes32 index))

/-- `nonzero_i8`. -/
def nonzeroI8 (byte : UInt8) : Int :=
  let value : Int := (byte.toNat % 254 : Nat) - 127
  if value = 0 then 1 else value

/-- `quantize_nonzero`. -/
def quantizeNonzero (accumulator : Int) (mask : UInt8) (layer row col : UInt32) : Int :=
  let coordinateMix : Int :=
    layer.toNat * 0x1f123bb5 + row.toNat * 0x05491333 + col.toNat * 0x0127a2f1
  let value := (accumulator + mask.toNat + coordinateMix) % 254 - 127
  if value = 0 then 1 else value

/-- `as_u8_slice`. -/
def asU8Slice (values : List Int) : List UInt8 :=
  values.map fun value => UInt8.ofNat (value % 256).toNat

/-- `challenge_digest`. -/
def challengeDigest (P : Platform) (profile : ForgeMatrixProfile) (modelRoot : Bytes32)
    (block : BlockChallenge) (nonce : UInt64) : Bytes32 :=
  P.deriveKey challengeDomain (block.networkId.1 ++ encodeProfile profile ++ modelRoot.1 ++
    block.previousBlock.1 ++ block.transactionRoot.1 ++ leBytes64 block.height ++
    leBytes64 block.timestamp ++ block.target.1 ++ leBytes64 nonce)

end V1

structure ForgeMatrixVerifier where
  profile : ForgeMatrixProfile
  model : List (List Int)
  modelRoot : Bytes32

namespace ForgeMatrixVerifier

open V1

variable (P : Platform) (X : Xof)

/-- The weights of a layer. -/
def layerWeights (profile : ForgeMatrixProfile) (layer : Nat) : List Int :=
  (deriveBytes X modelDomain profile.modelSeed (UInt32.ofNat layer)
    (profile.dimension.toNat * profile.dimension.toNat)).map nonzeroI8

def new (profile : ForgeMatrixProfile) : Outcome ForgeMatrixError ForgeMatrixVerifier := do
  require (¬(profile.dimension = 0 ∨ profile.batch = 0 ∨ profile.layers = 0)) .emptyProfile
  require (profile.modelSeed ≠ zero32) .uncommittedModel
  let model := (List.range profile.layers.toNat).map (layerWeights X profile)
  pure {
    profile
    model
    modelRoot := P.deriveKey modelDomain (encodeProfile profile ++
      model.zipIdx.flatMap fun layer => leBytes32 (UInt32.ofNat layer.2) ++ asU8Slice layer.1) }

/-- The layers of `compute_activation`, from layer `layerIndex` on. -/
def computeLayers (challenge : Bytes32) (rows width : Nat) :
    Nat → List Int → List (List Int) → Outcome ForgeMatrixError (List Int)
  | _, input, [] => pure input
  | layerIndex, input, weights :: rest => do
      let masks := deriveBytes X maskDomain challenge (UInt32.ofNat layerIndex) (rows * width)
      let output ← (cells rows width).mapM fun cell => do
        let accumulator ← (List.range width).foldlM (fun accumulator common => do
          let value ← itemAt input (cell.1 * width + common)
          let weight ← itemAt weights (common * width + cell.2)
          pure (accumulator + value * weight)) 0
        let mask ← itemAt masks (cell.1 * width + cell.2)
        pure (quantizeNonzero accumulator mask (UInt32.ofNat layerIndex) (UInt32.ofNat cell.1)
          (UInt32.ofNat cell.2))
      computeLayers challenge rows width (layerIndex + 1) output rest

def computeActivation (self : ForgeMatrixVerifier) (challenge : Bytes32) :
    Outcome ForgeMatrixError (List Int) :=
  let rows := self.profile.batch.toNat
  let width := self.profile.dimension.toNat
  computeLayers X challenge rows width 0
    ((deriveBytes X activationDomain challenge 0 (rows * width)).map nonzeroI8) self.model

/-- `evaluate`: the digests of the output and of the work. -/
def evaluate (self : ForgeMatrixVerifier) (block : BlockChallenge) (nonce : UInt64) :
    Outcome ForgeMatrixError (Bytes32 × Bytes32) := do
  let challenge := V1.challengeDigest P self.profile self.modelRoot block nonce
  let input ← self.computeActivation X challenge
  let outputDigest := P.deriveKey outputDomain (challenge.1 ++ asU8Slice input)
  pure (outputDigest,
    P.deriveKey workDomain (challenge.1 ++ self.modelRoot.1 ++ outputDigest.1))

def prove (self : ForgeMatrixVerifier) (block : BlockChallenge) (nonce : UInt64) :
    Outcome ForgeMatrixError ForgeMatrixProof := do
  let (outputDigest, workDigest) ← self.evaluate P X block nonce
  pure {
    algorithmVersion := self.profile.algorithmVersion
    modelVersion := self.profile.modelVersion
    nonce
    modelRoot := self.modelRoot
    outputDigest
    workDigest }

/-- `mine`, from attempt `offset` on. -/
def mineFrom (self : ForgeMatrixVerifier) (block : BlockChallenge) (startNonce : UInt64) :
    Nat → Nat → Outcome ForgeMatrixError ForgeMatrixProof
  | 0, _ => fail .nonceExhausted
  | attempts + 1, offset => do
      let proof ← self.prove P X block (startNonce + UInt64.ofNat offset)
      if proof.workDigest ≤ block.target then pure proof
      else self.mineFrom block startNonce attempts (offset + 1)

def mine (self : ForgeMatrixVerifier) (block : BlockChallenge) (startNonce attempts : UInt64) :
    Outcome ForgeMatrixError ForgeMatrixProof :=
  self.mineFrom P X block startNonce attempts.toNat 0

def verifyRelation (self : ForgeMatrixVerifier) (block : BlockChallenge)
    (proof : ForgeMatrixProof) : Outcome ForgeMatrixError Unit := do
  require (proof.algorithmVersion = self.profile.algorithmVersion) .algorithmVersion
  require (proof.modelVersion = self.profile.modelVersion) .modelVersion
  require (proof.modelRoot = self.modelRoot) .modelRoot
  let (outputDigest, workDigest) ← self.evaluate P X block proof.nonce
  require (proof.outputDigest = outputDigest) .outputDigest
  require (proof.workDigest = workDigest) .workDigest

def verify (self : ForgeMatrixVerifier) (block : BlockChallenge) (proof : ForgeMatrixProof) :
    Outcome ForgeMatrixError Unit := do
  self.verifyRelation P X block proof
  require (proof.workDigest ≤ block.target) .highHash

end ForgeMatrixVerifier

end CommonFoundry
