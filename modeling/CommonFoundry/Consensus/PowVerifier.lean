/-
# `CommonFoundry.Consensus.PowVerifier` — the two proof relations behind one interface

`cmfd-consensus/src/pow.rs`.  `PowVerifier` is `ConsensusPowVerifier` with its two variants;
the structure of that name is what block validation knows of it (`PowVerifier.consensus`).
`PowFault` is `PowError` with the error that its v2 variant carries.
-/
import CommonFoundry.Consensus.Accelerator
import CommonFoundry.Consensus.ForgeMatrixV1

namespace CommonFoundry

open Lib Lib.Outcome

inductive PowFault where
  | v1 (error : ForgeMatrixError)
  | v2 (error : ForgeMatrixV2Error)
  | wrongProofType
  | parameterMismatch
  | wrongNetwork

/-- The error without what the v2 variant carries. -/
def PowFault.powError : PowFault → PowError
  | .v1 error => .v1 error
  | .v2 _ => .v2
  | .wrongProofType => .wrongProofType
  | .parameterMismatch => .parameterMismatch
  | .wrongNetwork => .wrongNetwork

/-- `ConsensusPowVerifier`. -/
inductive PowVerifier where
  | v1Legacy (verifier : ForgeMatrixVerifier)
  | v2Reference (reference : ForgeMatrixV2Reference)

namespace PowVerifier

variable (P : Platform) (X : Xof)

def parameters : PowVerifier → PowParameters
  | .v1Legacy verifier => .v1Legacy verifier.profile
  | .v2Reference reference => .v2Reference reference.descriptor

def verify (self : PowVerifier) (block : BlockChallenge) (proof : BlockProof) :
    Outcome PowFault Unit :=
  match self, proof with
  | .v1Legacy verifier, .v1Legacy proof => mapErr .v1 (verifier.verify P X block proof)
  | .v2Reference reference, .v2Reference proof =>
      mapErr .v2 (reference.verifyCompact P X block proof)
  | _, _ => fail .wrongProofType

def evaluate (self : PowVerifier) (block : BlockChallenge) (nonce : UInt64) :
    Outcome PowFault BlockProof :=
  match self with
  | .v1Legacy verifier => do
      let proof ← mapErr .v1 (verifier.prove P X block nonce)
      pure (.v1Legacy proof)
  | .v2Reference reference => do
      let proof ← mapErr .v2 (reference.proveCompact P X block nonce)
      pure (.v2Reference proof)

def v2AcceleratorModel : PowVerifier → Outcome PowFault ForgeMatrixV2AcceleratorModel
  | .v2Reference reference => pure reference.acceleratorModel
  | .v1Legacy _ => fail .wrongProofType

def prepareV2AcceleratorBatch (self : PowVerifier) (block : BlockChallenge) (startNonce : UInt64)
    (count : UInt32) : Outcome PowFault ForgeMatrixV2AcceleratorBatch :=
  match self with
  | .v2Reference reference => mapErr .v2 (reference.prepareAcceleratorBatch P X block startNonce count)
  | .v1Legacy _ => fail .wrongProofType

def verifyV2AcceleratorCandidate (self : PowVerifier) (block : BlockChallenge)
    (batch : ForgeMatrixV2AcceleratorBatch) (index : Nat) (claimedWorkDigest : Bytes32) :
    Outcome PowFault BlockProof :=
  match self with
  | .v2Reference reference => do
      let proof ← mapErr .v2
        (reference.verifyAcceleratorCandidate P X block batch index claimedWorkDigest)
      pure (.v2Reference proof)
  | .v1Legacy _ => fail .wrongProofType

def validateV2AcceleratorBatch (self : PowVerifier) (block : BlockChallenge)
    (batch : ForgeMatrixV2AcceleratorBatch) : Outcome PowFault Unit :=
  match self with
  | .v2Reference reference =>
      require (batch.matchesStatement reference.descriptor block) .parameterMismatch
  | .v1Legacy _ => fail .wrongProofType

def verifyEvaluation (self : PowVerifier) (block : BlockChallenge) (proof : BlockProof) :
    Outcome PowFault Unit :=
  match self, proof with
  | .v1Legacy verifier, .v1Legacy proof => mapErr .v1 (verifier.verifyRelation P X block proof)
  | .v2Reference reference, .v2Reference proof =>
      mapErr .v2 (reference.verifyCompactRelation P X block proof)
  | _, _ => fail .wrongProofType

def mine (self : PowVerifier) (block : BlockChallenge) (startNonce attempts : UInt64) :
    Outcome PowFault BlockProof :=
  match self with
  | .v1Legacy verifier => do
      let proof ← mapErr .v1 (verifier.mine P X block startNonce attempts)
      pure (.v1Legacy proof)
  | .v2Reference reference => do
      let proof ← mapErr .v2 (reference.mineCompact P X block startNonce attempts)
      pure (.v2Reference proof)

/-- What block validation knows of a verifier. -/
def consensus (self : PowVerifier) : ConsensusPowVerifier where
  parameters := self.parameters
  verify block proof := mapErr PowFault.powError (self.verify P X block proof)

end PowVerifier

end CommonFoundry
