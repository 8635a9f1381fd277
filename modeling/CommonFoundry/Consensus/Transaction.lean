/-
# `CommonFoundry.Consensus.Transaction` — transactions, coinbases, blocks and their identifiers

The data model of `chain.rs` and everything in it that is hashed.

An output is locked to a key or to an inference channel; an input spends an
output by its outpoint and carries the witness for the lock.  A transaction is
an *ordinary* one when every witness is a key witness, and a *channel* one
otherwise.

Two hashes of a transaction differ only in the witnesses: `signingDigest` hashes
them without their signatures, `txid` with them.
-/
import CommonFoundry.Marketplace.Channel
import CommonFoundry.Consensus.Network
import CommonFoundry.Consensus.Difficulty

namespace CommonFoundry

open Lib Lib.Outcome

/-- `TX_SIGNING_DOMAIN`. -/
def txSigningDomain : String := "CMFD/TRANSACTION/SIGNING/V1"
/-- `TX_ID_DOMAIN`. -/
def txIdDomain : String := "CMFD/TRANSACTION/ID/V1"
/-- `COINBASE_ID_DOMAIN`. -/
def coinbaseIdDomain : String := "CMFD/COINBASE/ID/V1"
/-- `MERKLE_LEAF_DOMAIN`. -/
def merkleLeafDomain : String := "CMFD/MERKLE/LEAF/V1"
/-- `MERKLE_NODE_DOMAIN`. -/
def merkleNodeDomain : String := "CMFD/MERKLE/NODE/V1"
/-- `BLOCK_ID_DOMAIN`. -/
def blockIdDomain : String := "CMFD/BLOCK/ID/V1"
/-- `COINBASE_OUTPOINT_DOMAIN`. -/
def coinbaseOutpointDomain : String := "CMFD/COINBASE/OUTPOINT/V1"

/-- `COINBASE_MATURITY`. -/
def coinbaseMaturity : UInt64 := 100
/-- `BLOCK_VERSION`. -/
def blockVersion : UInt32 := 1
/-- `TRANSACTION_VERSION`. -/
def transactionVersion : UInt32 := 1

/-! ## Data -/

structure OutPoint where
  txid : Bytes32
  index : UInt32
  deriving DecidableEq

inductive OutputLock where
  | key (owner : Bytes32)
  | inferenceChannel (channelId : Bytes32)
  deriving DecidableEq

structure TxOutput where
  value : UInt64
  lock : OutputLock
  spendableHeight : UInt64
  deriving DecidableEq

inductive InputWitness where
  | key (publicKey : Bytes32) (signature : List UInt8)
  | inferenceSettlement (terms : ChannelTerms) (settlement : Settlement)
  | inferenceRefund (terms : ChannelTerms)
  deriving DecidableEq

structure TxInput where
  previous : OutPoint
  witness : InputWitness
  deriving DecidableEq

structure Transaction where
  networkId : Bytes32
  version : UInt32
  inputs : List TxInput
  outputs : List TxOutput
  deriving DecidableEq

structure Coinbase where
  height : UInt64
  outputs : List TxOutput
  deriving DecidableEq

structure Block where
  version : UInt32
  challenge : BlockChallenge
  proof : BlockProof
  coinbase : Coinbase
  transactions : List Transaction
  deriving DecidableEq

inductive ChainError where
  | network (error : NetworkError)
  | proof (error : ForgeMatrixError)
  | invalidV2Proof
  | wrongProofType
  | powParameterMismatch
  | economics (error : EconomicsError)
  | channel (error : ChannelError)
  | difficulty (error : DifficultyError)
  | unexpectedHeight (expected actual : UInt64)
  | wrongNetwork
  | unsupportedBlockVersion
  | unsupportedTransactionVersion
  | previousBlock
  | staleValidatedBlock
  | unexpectedTarget
  | timestampNotAfterMedian
  | timestampTooFarInFuture
  | invalidValidationTime
  | heightMismatch
  | merkleRoot
  | noInputs
  | noOutputs
  | zeroValueOutput
  | missingInput
  | duplicateInput
  | immatureInput (spendableHeight : UInt64)
  | wrongOwner
  | wrongWitness
  | malformedSignature
  | invalidSignature
  | createsValue
  | amountOverflow
  | heightExhausted
  | coinbaseLayout
  | txidCollision
  | duplicateChannel
  | channelDeposit
  | channelCloseShape
  | blockTransactionLimit
  | transactionInputLimit
  | transactionOutputLimit
  | blockAggregateLimit
  | blockSignatureLimit
  | coinbaseOutputLimit
  | signatureLength
  | blockEncoding
  deriving DecidableEq

/-- `matches!(witness, InputWitness::Key { .. })`. -/
def InputWitness.isKey : InputWitness → Bool
  | .key .. => true
  | _ => false

/-- The channel an output funds, if it funds one. -/
def TxOutput.channel (output : TxOutput) : Option Bytes32 :=
  match output.lock with
  | .inferenceChannel channelId => some channelId
  | .key _ => none

/-! ## What is hashed -/

def encodeBytes (bytes : List UInt8) : List UInt8 := lengthBytes bytes ++ bytes

def encodeLock : OutputLock → List UInt8
  | .key owner => 0 :: owner.1
  | .inferenceChannel channelId => 1 :: channelId.1

def encodeOutputs (outputs : List TxOutput) : List UInt8 :=
  leBytes64 (UInt64.ofNat outputs.length) ++ outputs.flatMap fun output =>
    leBytes64 output.value ++ encodeLock output.lock ++ leBytes64 output.spendableHeight

section

variable (P : Platform)

def encodeWitness (includeSignatures : Bool) : InputWitness → List UInt8
  | .key publicKey signature =>
      0 :: (publicKey.1 ++ if includeSignatures then encodeBytes signature else [])
  | .inferenceSettlement terms settlement =>
      1 :: (encodeTerms terms ++ encodeState settlement.state.state ++
        if includeSignatures then
          encodeBytes settlement.state.customerSignature ++
            encodeBytes settlement.providerSignature ++ (settlement.witnessDigest P).1
        else [])
  | .inferenceRefund terms => 2 :: encodeTerms terms

def encodeUnsignedTransaction (transaction : Transaction) : List UInt8 :=
  transaction.networkId.1 ++ leBytes32 transaction.version ++
    leBytes64 (UInt64.ofNat transaction.inputs.length) ++
    (transaction.inputs.flatMap fun input =>
      input.previous.txid.1 ++ leBytes32 input.previous.index ++
        encodeWitness P false input.witness) ++
    encodeOutputs transaction.outputs

def Transaction.signingDigest (transaction : Transaction) : Bytes32 :=
  P.deriveKey txSigningDomain (encodeUnsignedTransaction P transaction)

def Transaction.txid (transaction : Transaction) : Bytes32 :=
  P.deriveKey txIdDomain
    (encodeUnsignedTransaction P transaction ++
      transaction.inputs.flatMap fun input => encodeWitness P true input.witness)

/-! ## Merkle tree -/

/-- One level up: nodes over adjacent pairs, the last leaf of an odd level twice. -/
def merkleLevel : List Bytes32 → List Bytes32
  | [] => []
  | [last] => [P.deriveKey merkleNodeDomain (last.1 ++ last.1)]
  | left :: right :: rest =>
      P.deriveKey merkleNodeDomain (left.1 ++ right.1) :: merkleLevel rest

/-- Levels up to the root.  A level of two or more shrinks, so as many rounds as
there are leaves are enough. -/
def merkleFold : Nat → List Bytes32 → Bytes32
  | _, [] => zero32
  | _, [root] => root
  | 0, first :: _ => first
  | rounds + 1, level => merkleFold rounds (merkleLevel P level)

def merkleRoot (txids : List Bytes32) : Bytes32 :=
  match txids with
  | [] => P.deriveKey merkleLeafDomain []
  | _ =>
      let level := txids.map fun txid => P.deriveKey merkleLeafDomain txid.1
      merkleFold P level.length level

/-! ## Coinbase and block -/

/-- The canonical coinbase of an allocation: the miner's output first, then the
fixed shares that are not zero. -/
def Coinbase.new (height : UInt64) (allocation : Allocation) (minerDestination : Bytes32)
    (fixedDestinations : FixedRewardDestinations) : Coinbase :=
  { height
    outputs :=
      { value := allocation.miner, lock := .key minerDestination
        spendableHeight := saturatingAdd height coinbaseMaturity } ::
      ((if allocation.steward > 0 then
          [{ value := allocation.steward, lock := .key fixedDestinations.steward
             spendableHeight := height }]
        else []) ++
       (if allocation.community > 0 then
          [{ value := allocation.community, lock := .key fixedDestinations.community
             spendableHeight := height }]
        else [])) }

def Coinbase.commitment (coinbase : Coinbase) (networkId : Bytes32) : Bytes32 :=
  P.deriveKey coinbaseIdDomain
    (networkId.1 ++ leBytes64 coinbase.height ++ encodeOutputs coinbase.outputs)

/-- `POW_TYPE_V1_LEGACY` and `POW_TYPE_V2_REFERENCE`. -/
def BlockProof.proofType : BlockProof → UInt16
  | .v1Legacy _ => 1
  | .v2Reference _ => 2

/-- `BlockProof::absorb`. -/
def BlockProof.absorb (proof : BlockProof) : List UInt8 :=
  leBytes16 proof.proofType ++
    match proof with
    | .v1Legacy proof =>
        leBytes32 proof.algorithmVersion ++ leBytes32 proof.modelVersion ++
          leBytes64 proof.nonce ++ proof.modelRoot.1 ++ proof.outputDigest.1 ++
          proof.workDigest.1
    | .v2Reference proof =>
        leBytes32 proof.algorithmVersion ++ leBytes32 proof.proofVersion ++
          leBytes64 proof.nonce ++ proof.modelManifestDigest.1 ++ proof.challengeDigest.1 ++
          proof.finalActivationDigest.1 ++ proof.workDigest.1

namespace Block

def transactionRoot (block : Block) : Bytes32 :=
  merkleRoot P (block.coinbase.commitment P block.challenge.networkId ::
    block.transactions.map (·.txid P))

def blockId (block : Block) : Bytes32 :=
  P.deriveKey blockIdDomain
    (leBytes32 block.version ++ block.challenge.networkId.1 ++ block.challenge.previousBlock.1 ++
      block.challenge.transactionRoot.1 ++ leBytes64 block.challenge.height ++
      leBytes64 block.challenge.timestamp ++ block.challenge.target.1 ++ block.proof.absorb)

def coinbaseOutpointId (block : Block) : Bytes32 :=
  P.deriveKey coinbaseOutpointDomain (block.challenge.networkId.1 ++ (block.blockId P).1)

end Block

end

end CommonFoundry
