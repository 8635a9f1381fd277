/-
# `CommonFoundry.Consensus.Accelerator` — batches for an accelerator, and its outputs

The accelerator part of `cmfd-consensus/src/forgematrix_v2.rs`.  A batch is an interval of
nonces with the masks of each: the mask of the input, then one for every layer.  What an
accelerator gives back for a nonce is a claim about the final activation; it is hashed, and
what looks good enough is computed again.

The capacities that `prepare_accelerator_batch` reserves have no effect and are left out.
-/
import CommonFoundry.Consensus.ForgeMatrix

namespace CommonFoundry

open Lib Lib.Outcome

def v2AcceleratorMaxBatch : UInt32 := 65536

structure ForgeMatrixV2AcceleratorModel where
  rows : UInt32
  width : UInt32
  layers : UInt32
  coefficientCount : UInt32
  baseInput : List UInt8
  weights : List UInt8

structure ForgeMatrixV2AcceleratorBatch where
  descriptor : ForgeMatrixV2Descriptor
  block : BlockChallenge
  startNonce : UInt64
  count : UInt32
  activationLen : Nat
  coefficientCount : Nat
  challenges : List Bytes32
  coefficients : List UInt8

namespace ForgeMatrixV2AcceleratorBatch

def nonceAt (self : ForgeMatrixV2AcceleratorBatch) (index : Nat) : Option UInt64 :=
  if index < self.count.toNat then some (self.startNonce + UInt64.ofNat index) else none

def candidateWorkDigest (P : Platform) (self : ForgeMatrixV2AcceleratorBatch) (index : Nat)
    (finalActivation : List UInt8) : Outcome ForgeMatrixV2Error Bytes32 := do
  require (¬(index ≥ self.count.toNat ∨ finalActivation.length ≠ self.activationLen))
    .acceleratorOutputShape
  require (¬∃ value ∈ finalActivation, value > 250) .activationEncoding
  let challenge ← itemAt self.challenges index
  let output := outputDigest P challenge finalActivation
  pure (workDigest P self.descriptor challenge output)

def matchesStatement (self : ForgeMatrixV2AcceleratorBatch) (descriptor : ForgeMatrixV2Descriptor)
    (block : BlockChallenge) : Bool :=
  self.descriptor = descriptor ∧ self.block = block

end ForgeMatrixV2AcceleratorBatch

/-- The masks of a nonce, one after the other. -/
def nonceCoefficients (X : Xof) (challenge : Bytes32) (rows width layers : Nat) : List UInt8 :=
  maskCoefficients X challenge inputMaskIndex rows width ++
    (List.range layers).flatMap fun layer =>
      maskCoefficients X challenge (UInt32.ofNat layer) rows width

namespace ForgeMatrixV2Reference

variable (P : Platform) (X : Xof)

def acceleratorModel (self : ForgeMatrixV2Reference) : ForgeMatrixV2AcceleratorModel where
  rows := self.descriptor.model.batch
  width := self.descriptor.model.dimension
  layers := self.descriptor.model.layers
  coefficientCount := 1 + UInt32.ofNat self.rows.log2 + UInt32.ofNat self.width.log2
  baseInput := self.baseInput
  weights := self.weights.flatten

def prepareAcceleratorBatch (self : ForgeMatrixV2Reference) (block : BlockChallenge)
    (startNonce : UInt64) (count : UInt32) :
    Outcome ForgeMatrixV2Error ForgeMatrixV2AcceleratorBatch := do
  require (¬(count = 0 ∨ count > v2AcceleratorMaxBatch)) .invalidAcceleratorBatch
  require (block.networkId = self.descriptor.networkId) .wrongNetwork
  let layers := self.descriptor.model.layers.toNat
  let coefficientCount := 1 + self.rows.log2 + self.width.log2
  let coefficientsPerNonce := (layers + 1) * coefficientCount
  require (coefficientsPerNonce < 2 ^ 64) .arithmeticOverflow
  require (count.toNat * coefficientsPerNonce < 2 ^ 64) .arithmeticOverflow
  let challenges ← (List.range count.toNat).mapM fun offset =>
    challengeDigest P self.descriptor block (startNonce + UInt64.ofNat offset)
  pure {
    descriptor := self.descriptor
    block
    startNonce
    count
    activationLen := self.rows * self.width
    coefficientCount
    challenges
    coefficients := challenges.flatMap fun challenge =>
      nonceCoefficients X challenge self.rows self.width layers }

def verifyAcceleratorCandidate (self : ForgeMatrixV2Reference) (block : BlockChallenge)
    (batch : ForgeMatrixV2AcceleratorBatch) (index : Nat) (claimedWorkDigest : Bytes32) :
    Outcome ForgeMatrixV2Error ForgeMatrixV2CompactProof := do
  require (batch.matchesStatement self.descriptor block) .challengeMismatch
  let nonce ← okOr (batch.nonceAt index) .acceleratorOutputShape
  let proof ← self.proveCompact P X block nonce
  require (proof.workDigest = claimedWorkDigest) .acceleratorMismatch
  pure proof

end ForgeMatrixV2Reference

end CommonFoundry
