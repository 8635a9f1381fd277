/-
# `CommonFoundry.Consensus.Wire` — the canonical bounded encoding

`wire.rs`: transactions, proofs and blocks as bytes.  A value becomes a payload
and a payload becomes a frame (magic, network magic, version, kind, flags,
length).  The encoder checks the shape of the value and a size limit at every
append; the decoder checks each count before it reads that many items, every
embedded network identifier, and that nothing is left over.

The definitions follow the source function by function.  `Writer` carries the
payload limit and the object's name, as there; a `Reader` is the bytes that
remain, since the source's reader only ever looks forward from its offset, and a
`usize` sum of lengths is a `Nat`.
-/
import CommonFoundry.Lib.Primitives
import CommonFoundry.Consensus.Transaction

namespace CommonFoundry

open Lib Lib.Outcome Lib.Codec

/-- `WIRE_HEADER_BYTES`. -/
def wireHeaderBytes : Nat := 16
/-- `WIRE_VERSION`. -/
def wireVersion : UInt16 := 1
/-- `TRANSACTION_KIND`. -/
def transactionKind : UInt8 := 1
/-- `FORGEMATRIX_PROOF_KIND`. -/
def forgeMatrixProofKind : UInt8 := 2
/-- `BLOCK_KIND`. -/
def blockKind : UInt8 := 3
/-- `FORGEMATRIX_V1_PROOF_TAG`. -/
def forgeMatrixV1ProofTag : UInt8 := 1
/-- `FORGEMATRIX_V2_PROOF_TAG`. -/
def forgeMatrixV2ProofTag : UInt8 := 2
/-- `MAX_TRANSACTION_BYTES`. -/
def maxTransactionBytes : Nat := 64 * 1024
/-- `MAX_PROOF_BYTES`. -/
def maxProofBytes : Nat := 256 * 1024
/-- `MAX_BLOCK_BYTES`. -/
def maxBlockBytes : Nat := 1024 * 1024
/-- `FRAME_MAGIC`, the bytes of `CMFD`. -/
def frameMagic : List UInt8 := [0x43, 0x4d, 0x46, 0x44]
/-- `NETWORK_MAGIC_DOMAIN`. -/
def networkMagicDomain : String := "CMFD/WIRE/NETWORK-MAGIC/V1"

inductive WireError where
  | truncated (needed remaining : Nat)
  | invalidMagic
  | wrongNetworkMagic
  | wrongNetworkId (field : String)
  | unsupportedVersion (version : UInt16)
  | unexpectedKind (expected actual : UInt8)
  | nonZeroFlags (flags : UInt8)
  | sizeLimit (object : String) (actual max : Nat)
  | trailingBytes (remaining : Nat)
  | countLimit (field : String) (actual max : Nat)
  | unknownTag (field : String) (tag : UInt8)
  | signatureLength (actual : Nat)
  | lengthOverflow
  deriving DecidableEq

def checkCount (actual max : Nat) (field : String) : Outcome WireError Unit :=
  require (¬actual > max) (.countLimit field actual max)

def payloadLimit (maximumFrameBytes : Nat) : Nat := maximumFrameBytes - wireHeaderBytes

def ensurePayloadSize (payloadBytes maximumFrameBytes : Nat) (object : String) :
    Outcome WireError Unit :=
  require (¬wireHeaderBytes + payloadBytes > maximumFrameBytes)
    (.sizeLimit object (wireHeaderBytes + payloadBytes) maximumFrameBytes)

/-- An embedded network identifier is the expected one. -/
def checkNetwork (networkId expectedNetworkId : Bytes32) (field : String) :
    Outcome WireError Unit :=
  require (networkId = expectedNetworkId) (.wrongNetworkId field)

/-- `u32::try_from(length)`. -/
def lengthWord (length : Nat) : Outcome WireError UInt32 :=
  okOr (if length < 2 ^ 32 then some (UInt32.ofNat length) else none) .lengthOverflow

/-! ## Writer and reader -/

structure Writer where
  bytes : List UInt8
  limit : Nat
  object : String

/-- A step that appends to the writer. -/
abbrev Write := Writing Writer WireError Unit

/-- A step that reads from the remaining bytes. -/
abbrev Read := Reader WireError

namespace Writer

def new (limit : Nat) (object : String) : Writer := { bytes := [], limit, object }

/-- `Writer::bytes`, after `Writer::reserve`. -/
def put (value : List UInt8) : Write := fun writer => do
  let actual := writer.bytes.length + value.length
  require (¬actual > writer.limit)
    (.sizeLimit writer.object (actual + wireHeaderBytes) (writer.limit + wireHeaderBytes))
  pure ((), { writer with bytes := writer.bytes ++ value })

def u8 (value : UInt8) : Write := put [value]

def u32 (value : UInt32) : Write := put (leBytes32 value)

def u64 (value : UInt64) : Write := put (leBytes64 value)

def count (count maximum : Nat) (field : String) : Write := do
  checkCount count maximum field
  let count ← lengthWord count
  u32 count

def sizedBytes (value : List UInt8) (maximumFrameBytes : Nat) (object : String) : Write := do
  ensurePayloadSize value.length maximumFrameBytes object
  let length ← lengthWord value.length
  u32 length
  put value

/-- Run a writing program on a fresh writer and `finish`. -/
def payload (limit : Nat) (object : String) (program : Write) :
    Outcome WireError (List UInt8) := do
  let (_, writer) ← program (new limit object)
  pure writer.bytes

end Writer

namespace Read

/-- `Reader::bytes`. -/
def bytes (length : Nat) : Read (List UInt8) := takeBytes .truncated length

/-- `Reader::array`. -/
def array (n : Nat) : Read (Bytes n) := takeArray .truncated n

def u8 : Read UInt8 := takeU8 .truncated

def u32 : Read UInt32 := takeU32 .truncated

def u64 : Read UInt64 := takeU64 .truncated

def count (maximum : Nat) (field : String) : Read Nat := do
  let count ← u32
  checkCount count.toNat maximum field
  pure count.toNat

def sizedBytes (maximumFrameBytes : Nat) (object : String) : Read (List UInt8) := do
  let length ← u32
  ensurePayloadSize length.toNat maximumFrameBytes object
  bytes length.toNat

/-- `Reader::finish`. -/
def finish : Read Unit := fun remaining => do
  require (remaining.length = 0) (.trailingBytes remaining.length)
  pure ((), remaining)

/-- Run a reading program on a payload, from `Reader::new` to `finish`. -/
def run {α : Type} (program : Read α) (payload : List UInt8) : Outcome WireError α := do
  let (value, remaining) ← program payload
  let _ ← finish remaining
  pure value

end Read

/-! ## Shape -/

def checkSignature (signature : List UInt8) : Outcome WireError Unit :=
  require (signature.length = consensusSignatureBytes) (.signatureLength signature.length)

def checkTermsNetwork (terms : ChannelTerms) (expectedNetworkId : Bytes32) :
    Outcome WireError Unit :=
  checkNetwork terms.networkId expectedNetworkId "channel terms"

def checkInputShape (expectedNetworkId : Bytes32) (input : TxInput) : Outcome WireError Unit :=
  match input.witness with
  | .key _ signature => checkSignature signature
  | .inferenceSettlement terms settlement => do
      checkTermsNetwork terms expectedNetworkId
      checkSignature settlement.state.customerSignature
      checkSignature settlement.providerSignature
  | .inferenceRefund terms => checkTermsNetwork terms expectedNetworkId

def validateTransactionShape (transaction : Transaction) (expectedNetworkId : Bytes32) :
    Outcome WireError Unit := do
  checkNetwork transaction.networkId expectedNetworkId "transaction"
  checkCount transaction.inputs.length maxTransactionInputs "transaction inputs"
  checkCount transaction.outputs.length maxTransactionOutputs "transaction outputs"
  transaction.inputs.forM (checkInputShape expectedNetworkId)

/-- The three running totals of a block. -/
structure BlockResources where
  inputs : Nat
  outputs : Nat
  signatureChecks : Nat

/-- Signatures one witness costs. -/
def InputWitness.signatureChecks : InputWitness → Nat
  | .key .. => 1
  | .inferenceSettlement .. => 2
  | .inferenceRefund .. => 0

def addSignatureChecks (total : Nat) (input : TxInput) : Outcome WireError Nat := do
  let total := total + input.witness.signatureChecks
  checkCount total maxBlockSignatureChecks "block signature checks"
  pure total

def addBlockResources (totals : BlockResources) (transaction : Transaction) :
    Outcome WireError BlockResources := do
  let inputs := totals.inputs + transaction.inputs.length
  checkCount inputs maxBlockAggregateInputs "block aggregate inputs"
  let outputs := totals.outputs + transaction.outputs.length
  checkCount outputs maxBlockAggregateOutputs "block aggregate outputs"
  let signatureChecks ← transaction.inputs.foldlM addSignatureChecks totals.signatureChecks
  pure { inputs, outputs, signatureChecks }

def validateBlockShape (block : Block) : Outcome WireError Unit := do
  checkCount block.coinbase.outputs.length maxCoinbaseOutputs "coinbase outputs"
  checkCount block.transactions.length maxBlockTransactions "block transactions"
  let _ ← block.transactions.foldlM (fun totals transaction => do
    validateTransactionShape transaction block.challenge.networkId
    addBlockResources totals transaction) { inputs := 0, outputs := 0, signatureChecks := 0 }

/-! ## Frames -/

section Frame

variable (P : Platform)

def networkMagic (networkId : Bytes32) : List UInt8 :=
  (P.deriveKey networkMagicDomain networkId.1).1.take 4

def encodeFrame (kind : UInt8) (networkId : Bytes32) (payload : List UInt8) (maximumBytes : Nat)
    (object : String) : Outcome WireError (List UInt8) := do
  ensurePayloadSize payload.length maximumBytes object
  let payloadLength ← lengthWord payload.length
  pure (frameMagic ++ networkMagic P networkId ++ leBytes16 wireVersion ++ [kind, 0] ++
    leBytes32 payloadLength ++ payload)

def decodeFrame (bytes : List UInt8) (expectedNetworkId : Bytes32) (expectedKind : UInt8)
    (maximumBytes : Nat) (object : String) : Outcome WireError (List UInt8) := do
  require (¬bytes.length < wireHeaderBytes) (.truncated wireHeaderBytes bytes.length)
  require (¬bytes.length > maximumBytes) (.sizeLimit object bytes.length maximumBytes)
  let magic ← sliceAt bytes 0 4
  require (magic = frameMagic) .invalidMagic
  let network ← sliceAt bytes 4 8
  require (network = networkMagic P expectedNetworkId) .wrongNetworkMagic
  let versionBytes ← sliceAt bytes 8 10
  let version := UInt16.ofNat (ofLe versionBytes)
  require (version = wireVersion) (.unsupportedVersion version)
  let kind ← byteAt bytes 10
  require (kind = expectedKind) (.unexpectedKind expectedKind kind)
  let flags ← byteAt bytes 11
  require (flags = 0) (.nonZeroFlags flags)
  let lengthBytes ← sliceAt bytes 12 16
  let payloadLength := ofLe lengthBytes
  ensurePayloadSize payloadLength maximumBytes object
  let actualPayload := bytes.length - wireHeaderBytes
  require (¬actualPayload < payloadLength) (.truncated payloadLength actualPayload)
  require (¬actualPayload > payloadLength) (.trailingBytes (actualPayload - payloadLength))
  sliceAt bytes wireHeaderBytes bytes.length

end Frame

/-! ## Channel data -/

def writeChannelTerms (terms : ChannelTerms) : Write := do
  Writer.put terms.networkId.1
  Writer.put terms.jobId.1
  Writer.put terms.customerKey.1
  Writer.put terms.providerKey.1
  Writer.put terms.modelDigest.1
  Writer.put terms.runtimeDigest.1
  Writer.put terms.inputDigest.1
  Writer.u64 terms.deposit
  Writer.u64 terms.closeFeeBurn
  Writer.u64 terms.basePrice
  Writer.u64 terms.inputPricePer1000
  Writer.u64 terms.outputPricePer1000
  Writer.u64 terms.maxInputTokens
  Writer.u64 terms.maxOutputTokens
  Writer.u64 terms.outputChunkTokens
  Writer.u64 terms.refundHeight

def decodeChannelTerms (expectedNetworkId : Bytes32) : Read ChannelTerms := do
  let networkId ← Read.array 32
  checkNetwork networkId expectedNetworkId "channel terms"
  let jobId ← Read.array 32
  let customerKey ← Read.array 32
  let providerKey ← Read.array 32
  let modelDigest ← Read.array 32
  let runtimeDigest ← Read.array 32
  let inputDigest ← Read.array 32
  let deposit ← Read.u64
  let closeFeeBurn ← Read.u64
  let basePrice ← Read.u64
  let inputPricePer1000 ← Read.u64
  let outputPricePer1000 ← Read.u64
  let maxInputTokens ← Read.u64
  let maxOutputTokens ← Read.u64
  let outputChunkTokens ← Read.u64
  let refundHeight ← Read.u64
  pure {
    networkId, jobId, customerKey, providerKey, modelDigest, runtimeDigest, inputDigest, deposit
    closeFeeBurn, basePrice, inputPricePer1000, outputPricePer1000, maxInputTokens
    maxOutputTokens, outputChunkTokens, refundHeight }

def writePaymentState (state : PaymentState) : Write := do
  Writer.put state.channelId.1
  Writer.u64 state.sequence
  Writer.u64 state.inputTokens
  Writer.u64 state.authorizedOutputTokens
  Writer.u64 state.providerPayment
  Writer.u64 state.customerRefund
  Writer.u64 state.closeFeeBurn
  Writer.put state.previousReceipt.1

def decodePaymentState : Read PaymentState := do
  let channelId ← Read.array 32
  let sequence ← Read.u64
  let inputTokens ← Read.u64
  let authorizedOutputTokens ← Read.u64
  let providerPayment ← Read.u64
  let customerRefund ← Read.u64
  let closeFeeBurn ← Read.u64
  let previousReceipt ← Read.array 32
  pure {
    channelId, sequence, inputTokens, authorizedOutputTokens, providerPayment, customerRefund
    closeFeeBurn, previousReceipt }

def encodeSignature (signature : List UInt8) : Write := do
  checkSignature signature
  Writer.put signature

def decodeSignature : Read (List UInt8) := do
  let signature ← Read.array consensusSignatureBytes
  pure signature.1

/-! ## Transactions -/

def encodeInput (input : TxInput) : Write := do
  Writer.put input.previous.txid.1
  Writer.u32 input.previous.index
  match input.witness with
  | .key publicKey signature => do
      Writer.u8 0
      Writer.put publicKey.1
      encodeSignature signature
  | .inferenceSettlement terms settlement => do
      Writer.u8 1
      writeChannelTerms terms
      writePaymentState settlement.state.state
      encodeSignature settlement.state.customerSignature
      encodeSignature settlement.providerSignature
  | .inferenceRefund terms => do
      Writer.u8 2
      writeChannelTerms terms

def decodeWitness (expectedNetworkId : Bytes32) (tag : UInt8) : Read InputWitness :=
  if tag = 0 then do
    let publicKey ← Read.array 32
    let signature ← decodeSignature
    pure (.key publicKey signature)
  else if tag = 1 then do
    let terms ← decodeChannelTerms expectedNetworkId
    let state ← decodePaymentState
    let customerSignature ← decodeSignature
    let providerSignature ← decodeSignature
    pure (.inferenceSettlement terms { state := { state, customerSignature }, providerSignature })
  else if tag = 2 then do
    let terms ← decodeChannelTerms expectedNetworkId
    pure (.inferenceRefund terms)
  else fun _ => fail (.unknownTag "input witness" tag)

def decodeInput (expectedNetworkId : Bytes32) : Read TxInput := do
  let txid ← Read.array 32
  let index ← Read.u32
  let tag ← Read.u8
  let witness ← decodeWitness expectedNetworkId tag
  pure { previous := { txid, index }, witness }

def encodeOutput (output : TxOutput) : Write := do
  Writer.u64 output.value
  match output.lock with
  | .key owner => do
      Writer.u8 0
      Writer.put owner.1
  | .inferenceChannel channelId => do
      Writer.u8 1
      Writer.put channelId.1
  Writer.u64 output.spendableHeight

def decodeLock (tag : UInt8) : Read OutputLock :=
  if tag = 0 then do
    let owner ← Read.array 32
    pure (.key owner)
  else if tag = 1 then do
    let channelId ← Read.array 32
    pure (.inferenceChannel channelId)
  else fun _ => fail (.unknownTag "output lock" tag)

def decodeOutput : Read TxOutput := do
  let value ← Read.u64
  let tag ← Read.u8
  let lock ← decodeLock tag
  let spendableHeight ← Read.u64
  pure { value, lock, spendableHeight }

def writeTransaction (transaction : Transaction) : Write := do
  Writer.put transaction.networkId.1
  Writer.u32 transaction.version
  Writer.count transaction.inputs.length maxTransactionInputs "transaction inputs"
  writeMany encodeInput transaction.inputs
  Writer.count transaction.outputs.length maxTransactionOutputs "transaction outputs"
  writeMany encodeOutput transaction.outputs

def encodeTransactionPayload (transaction : Transaction) : Outcome WireError (List UInt8) := do
  validateTransactionShape transaction transaction.networkId
  Writer.payload (payloadLimit maxTransactionBytes) "transaction" (writeTransaction transaction)

def readTransaction (expectedNetworkId : Bytes32) : Read Transaction := do
  let networkId ← Read.array 32
  checkNetwork networkId expectedNetworkId "transaction"
  let version ← Read.u32
  let inputCount ← Read.count maxTransactionInputs "transaction inputs"
  let inputs ← readMany (decodeInput expectedNetworkId) inputCount
  let outputCount ← Read.count maxTransactionOutputs "transaction outputs"
  let outputs ← readMany decodeOutput outputCount
  pure { networkId, version, inputs, outputs }

def decodeTransactionPayload (payload : List UInt8) (expectedNetworkId : Bytes32) :
    Outcome WireError Transaction := do
  ensurePayloadSize payload.length maxTransactionBytes "transaction"
  Read.run (readTransaction expectedNetworkId) payload

/-! ## Proofs -/

def writeProof (proof : BlockProof) (networkId : Bytes32) : Write :=
  match proof with
  | .v1Legacy proof => do
      Writer.u8 forgeMatrixV1ProofTag
      Writer.put networkId.1
      Writer.u32 proof.algorithmVersion
      Writer.u32 proof.modelVersion
      Writer.u64 proof.nonce
      Writer.put proof.modelRoot.1
      Writer.put proof.outputDigest.1
      Writer.put proof.workDigest.1
  | .v2Reference proof => do
      Writer.u8 forgeMatrixV2ProofTag
      Writer.put networkId.1
      Writer.u32 proof.algorithmVersion
      Writer.u32 proof.proofVersion
      Writer.u64 proof.nonce
      Writer.put proof.modelManifestDigest.1
      Writer.put proof.challengeDigest.1
      Writer.put proof.finalActivationDigest.1
      Writer.put proof.workDigest.1

def encodeForgeMatrixProofPayload (proof : BlockProof) (networkId : Bytes32) :
    Outcome WireError (List UInt8) :=
  Writer.payload (payloadLimit maxProofBytes) "ForgeMatrix proof" (writeProof proof networkId)

/-- The fields of a proof after its tag and network identifier. -/
def decodeProofFields (tag : UInt8) : Read BlockProof :=
  if tag = forgeMatrixV1ProofTag then do
    let algorithmVersion ← Read.u32
    let modelVersion ← Read.u32
    let nonce ← Read.u64
    let modelRoot ← Read.array 32
    let outputDigest ← Read.array 32
    let workDigest ← Read.array 32
    pure (.v1Legacy { algorithmVersion, modelVersion, nonce, modelRoot, outputDigest, workDigest })
  else if tag = forgeMatrixV2ProofTag then do
    let algorithmVersion ← Read.u32
    let proofVersion ← Read.u32
    let nonce ← Read.u64
    let modelManifestDigest ← Read.array 32
    let challengeDigest ← Read.array 32
    let finalActivationDigest ← Read.array 32
    let workDigest ← Read.array 32
    pure (.v2Reference {
      algorithmVersion, proofVersion, nonce, modelManifestDigest, challengeDigest
      finalActivationDigest, workDigest })
  else fun _ => fail (.unknownTag "ForgeMatrix proof" tag)

def readProof (expectedNetworkId : Bytes32) : Read BlockProof := do
  let tag ← Read.u8
  let networkId ← Read.array 32
  checkNetwork networkId expectedNetworkId "ForgeMatrix proof"
  decodeProofFields tag

def decodeForgeMatrixProofPayload (payload : List UInt8) (expectedNetworkId : Bytes32) :
    Outcome WireError BlockProof := do
  ensurePayloadSize payload.length maxProofBytes "ForgeMatrix proof"
  Read.run (readProof expectedNetworkId) payload

/-! ## Blocks -/

def encodeChallenge (challenge : BlockChallenge) : Write := do
  Writer.put challenge.networkId.1
  Writer.put challenge.previousBlock.1
  Writer.put challenge.transactionRoot.1
  Writer.u64 challenge.height
  Writer.u64 challenge.timestamp
  Writer.put challenge.target.1

def decodeChallenge (expectedNetworkId : Bytes32) : Read BlockChallenge := do
  let networkId ← Read.array 32
  checkNetwork networkId expectedNetworkId "block challenge"
  let previousBlock ← Read.array 32
  let transactionRoot ← Read.array 32
  let height ← Read.u64
  let timestamp ← Read.u64
  let target ← Read.array 32
  pure { networkId, previousBlock, transactionRoot, height, timestamp, target }

def encodeCoinbase (coinbase : Coinbase) : Write := do
  Writer.u64 coinbase.height
  Writer.count coinbase.outputs.length maxCoinbaseOutputs "coinbase outputs"
  writeMany encodeOutput coinbase.outputs

def decodeCoinbase : Read Coinbase := do
  let height ← Read.u64
  let outputCount ← Read.count maxCoinbaseOutputs "coinbase outputs"
  let outputs ← readMany decodeOutput outputCount
  pure { height, outputs }

/-- One transaction of a block: its payload, prefixed with its length. -/
def writeBlockTransaction (transaction : Transaction) : Write := do
  let payload ← encodeTransactionPayload transaction
  Writer.sizedBytes payload maxTransactionBytes "transaction"

def readBlockTransaction (expectedNetworkId : Bytes32) : Read Transaction := do
  let payload ← Read.sizedBytes maxTransactionBytes "transaction"
  decodeTransactionPayload payload expectedNetworkId

/-- The proof of a block: its payload, prefixed with its length. -/
def writeBlockProof (proof : BlockProof) (networkId : Bytes32) : Write := do
  let payload ← encodeForgeMatrixProofPayload proof networkId
  Writer.sizedBytes payload maxProofBytes "ForgeMatrix proof"

def readBlockProof (expectedNetworkId : Bytes32) : Read BlockProof := do
  let payload ← Read.sizedBytes maxProofBytes "ForgeMatrix proof"
  decodeForgeMatrixProofPayload payload expectedNetworkId

def writeBlock (block : Block) : Write := do
  Writer.u32 block.version
  encodeChallenge block.challenge
  writeBlockProof block.proof block.challenge.networkId
  encodeCoinbase block.coinbase
  Writer.count block.transactions.length maxBlockTransactions "block transactions"
  writeMany writeBlockTransaction block.transactions

/-- The transaction loop of `decode_block`, which keeps the three totals. -/
def readBlockTransactions (expectedNetworkId : Bytes32) :
    Nat → BlockResources → Read (List Transaction)
  | 0, _ => pure []
  | n + 1, totals => do
      let transaction ← readBlockTransaction expectedNetworkId
      let totals ← addBlockResources totals transaction
      let rest ← readBlockTransactions expectedNetworkId n totals
      pure (transaction :: rest)

def readBlock (expectedNetworkId : Bytes32) : Read Block := do
  let version ← Read.u32
  let challenge ← decodeChallenge expectedNetworkId
  let proof ← readBlockProof challenge.networkId
  let coinbase ← decodeCoinbase
  let transactionCount ← Read.count maxBlockTransactions "block transactions"
  let transactions ← readBlockTransactions expectedNetworkId transactionCount
    { inputs := 0, outputs := 0, signatureChecks := 0 }
  pure { version, challenge, proof, coinbase, transactions }

section

variable (P : Platform)

def encodeTransaction (transaction : Transaction) : Outcome WireError (List UInt8) := do
  let payload ← encodeTransactionPayload transaction
  encodeFrame P transactionKind transaction.networkId payload maxTransactionBytes "transaction"

def decodeTransaction (bytes : List UInt8) (expectedNetworkId : Bytes32) :
    Outcome WireError Transaction := do
  let payload ← decodeFrame P bytes expectedNetworkId transactionKind maxTransactionBytes
    "transaction"
  decodeTransactionPayload payload expectedNetworkId

def encodeForgeMatrixProof (proof : BlockProof) (networkId : Bytes32) :
    Outcome WireError (List UInt8) := do
  let payload ← encodeForgeMatrixProofPayload proof networkId
  encodeFrame P forgeMatrixProofKind networkId payload maxProofBytes "ForgeMatrix proof"

def decodeForgeMatrixProof (bytes : List UInt8) (expectedNetworkId : Bytes32) :
    Outcome WireError BlockProof := do
  let payload ← decodeFrame P bytes expectedNetworkId forgeMatrixProofKind maxProofBytes
    "ForgeMatrix proof"
  decodeForgeMatrixProofPayload payload expectedNetworkId

def encodeBlock (block : Block) : Outcome WireError (List UInt8) := do
  validateBlockShape block
  let payload ← Writer.payload (payloadLimit maxBlockBytes) "block" (writeBlock block)
  encodeFrame P blockKind block.challenge.networkId payload maxBlockBytes "block"

def decodeBlock (bytes : List UInt8) (expectedNetworkId : Bytes32) :
    Outcome WireError Block := do
  let payload ← decodeFrame P bytes expectedNetworkId blockKind maxBlockBytes "block"
  Read.run (readBlock expectedNetworkId) payload

end

end CommonFoundry
