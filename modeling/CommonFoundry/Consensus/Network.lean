/-
# `CommonFoundry.Consensus.Network` — immutable parameters and the proof verifier

`network.rs` and the part of `pow.rs` that block validation reads.

`ConsensusPowVerifier` is taken by its two calls: the parameters it was built
for and its verdict on a challenge and a proof.  Nothing proved over it depends
on which relation it checks, so everything holds of the legacy and of the v2
verifier alike.
-/
import CommonFoundry.Consensus.Economics

namespace CommonFoundry

open Lib Lib.Outcome

/-! ## Limits -/

/-- `NETWORK_PROTOCOL_VERSION`. -/
def networkProtocolVersion : UInt32 := 1
/-- `MAX_FUTURE_OFFSET_SECS`. -/
def maxFutureOffsetSecs : UInt64 := 24 * 60 * 60
/-- `MEDIAN_TIME_WINDOW`. -/
def medianTimeWindow : Nat := 11
/-- `MAX_BLOCK_TRANSACTIONS`. -/
def maxBlockTransactions : Nat := 1024
/-- `MAX_TRANSACTION_INPUTS`. -/
def maxTransactionInputs : Nat := 128
/-- `MAX_TRANSACTION_OUTPUTS`. -/
def maxTransactionOutputs : Nat := 128
/-- `MAX_BLOCK_AGGREGATE_INPUTS`. -/
def maxBlockAggregateInputs : Nat := 4096
/-- `MAX_BLOCK_AGGREGATE_OUTPUTS`. -/
def maxBlockAggregateOutputs : Nat := 4096
/-- `MAX_BLOCK_SIGNATURE_CHECKS`. -/
def maxBlockSignatureChecks : Nat := 2048
/-- `MAX_COINBASE_OUTPUTS`. -/
def maxCoinbaseOutputs : Nat := 3
/-- `CONSENSUS_SIGNATURE_BYTES`. -/
def consensusSignatureBytes : Nat := 64

/-! ## Proof-of-work parameters -/

structure ForgeMatrixProfile where
  algorithmVersion : UInt32
  modelVersion : UInt32
  dimension : UInt32
  batch : UInt32
  layers : UInt32
  modelSeed : Bytes32
  deriving DecidableEq

structure ModelBankManifest where
  modelVersion : UInt32
  dimension : UInt32
  batch : UInt32
  layers : UInt32
  baseInputBytes : UInt64
  bytesPerLayer : UInt64
  payloadBytes : UInt64
  rawBlake3Root : Bytes32
  layerRootsAggregate : Bytes32
  pcsParameterDigest : Bytes32
  pcsCommitmentRoot : Bytes32
  deriving DecidableEq

structure ForgeMatrixV2Descriptor where
  networkId : Bytes32
  algorithmVersion : UInt32
  proofVersion : UInt32
  banks : UInt32
  layersPerBank : UInt32
  model : ModelBankManifest
  deriving DecidableEq

inductive PowParameters where
  | v1Legacy (profile : ForgeMatrixProfile)
  | v2Reference (descriptor : ForgeMatrixV2Descriptor)
  deriving DecidableEq

inductive ForgeMatrixError where
  | emptyProfile
  | profileTooLarge
  | uncommittedModel
  | algorithmVersion
  | modelVersion
  | modelRoot
  | outputDigest
  | workDigest
  | highHash
  | nonceExhausted
  deriving DecidableEq, Repr

/-- The v2 variant carries the v2 verifier's own error, which no caller here reads. -/
inductive PowError where
  | v1 (error : ForgeMatrixError)
  | v2
  | wrongProofType
  | parameterMismatch
  | wrongNetwork
  deriving DecidableEq, Repr

structure BlockChallenge where
  networkId : Bytes32
  previousBlock : Bytes32
  transactionRoot : Bytes32
  height : UInt64
  timestamp : UInt64
  target : Bytes32
  deriving DecidableEq

structure ForgeMatrixProof where
  algorithmVersion : UInt32
  modelVersion : UInt32
  nonce : UInt64
  modelRoot : Bytes32
  outputDigest : Bytes32
  workDigest : Bytes32
  deriving DecidableEq

structure ForgeMatrixV2CompactProof where
  algorithmVersion : UInt32
  proofVersion : UInt32
  nonce : UInt64
  modelManifestDigest : Bytes32
  challengeDigest : Bytes32
  finalActivationDigest : Bytes32
  workDigest : Bytes32
  deriving DecidableEq

inductive BlockProof where
  | v1Legacy (proof : ForgeMatrixProof)
  | v2Reference (proof : ForgeMatrixV2CompactProof)
  deriving DecidableEq

/-- `work_digest` of a proof. -/
def BlockProof.workDigest : BlockProof → Bytes32
  | .v1Legacy proof => proof.workDigest
  | .v2Reference proof => proof.workDigest

/-- `ConsensusPowVerifier`, by the calls block validation makes. -/
structure ConsensusPowVerifier where
  parameters : PowParameters
  verify : BlockChallenge → BlockProof → Outcome PowError Unit

/-! ## Network parameters -/

structure FixedRewardDestinations where
  steward : Bytes32
  community : Bytes32
  deriving DecidableEq

structure NetworkParams where
  networkId : Bytes32
  protocolVersion : UInt32
  genesisHash : Bytes32
  genesisTimestamp : UInt64
  powLimit : Bytes32
  pow : PowParameters
  monetaryPolicy : MonetaryPolicy
  rewards : FixedRewardDestinations
  maxFutureOffsetSecs : UInt64
  deriving DecidableEq

structure BlockValidationContext where
  nowUnixSeconds : UInt64

inductive NetworkError where
  | zeroNetworkId
  | unsupportedProtocolVersion
  | zeroGenesisHash
  | zeroPowLimit
  | zeroFutureOffset
  | futureOffsetTooLarge
  | unusableGenesisTimestamp
  | monetaryPolicy (error : EconomicsError)
  | invalidStewardDestination
  | invalidCommunityDestination
  | forgeMatrix (error : ForgeMatrixError)
  | invalidPowParameters
  | wrongPowNetwork
  deriving DecidableEq

namespace NetworkParams

variable (P : Platform)

def validateWithoutPow (params : NetworkParams) : Outcome NetworkError Unit := do
  require (params.networkId ≠ zero32) .zeroNetworkId
  require (params.protocolVersion = networkProtocolVersion) .unsupportedProtocolVersion
  require (params.genesisHash ≠ zero32) .zeroGenesisHash
  require (params.powLimit ≠ zero32) .zeroPowLimit
  require (params.maxFutureOffsetSecs ≠ 0) .zeroFutureOffset
  require (¬params.maxFutureOffsetSecs > CommonFoundry.maxFutureOffsetSecs) .futureOffsetTooLarge
  let _ ← okOr (checkedAdd params.genesisTimestamp params.maxFutureOffsetSecs)
    .unusableGenesisTimestamp
  mapErr .monetaryPolicy params.monetaryPolicy.validate
  require (P.verifyingKey params.rewards.steward) .invalidStewardDestination
  require (P.verifyingKey params.rewards.community) .invalidCommunityDestination

def validateForBoundVerifier (params : NetworkParams) : Outcome NetworkError Unit := do
  params.validateWithoutPow P
  match params.pow with
  | .v2Reference descriptor => require (descriptor.networkId = params.networkId) .wrongPowNetwork
  | .v1Legacy _ => pure ()

end NetworkParams

end CommonFoundry
