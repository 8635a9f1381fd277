/-
# `CommonFoundry.Node.PeerFrame` — the frames that peers exchange

The messages of `peer.rs` and their bytes: thirteen kinds, each a payload behind
a header (magic, version, kind, flags, sequence number, length).  Blocks and
transactions travel as their consensus frames, and the decoder encodes them again
and compares.

The definitions follow the source kind by kind.  A payload is a writing program
on a byte vector, statement by statement as there, and `PayloadReader` is the
bytes that remain.  What would abort in the source (a slice or an index out of
range, the `expect` behind a conversion into an array) aborts here.
-/
import CommonFoundry.Lib.Primitives
import CommonFoundry.Consensus.Wire

namespace CommonFoundry

open Lib Lib.Outcome Lib.Codec

/-- `PEER_MAGIC`, the bytes of `CMFP`. -/
def peerMagic : List UInt8 := [0x43, 0x4d, 0x46, 0x50]
/-- `PEER_PROTOCOL_VERSION`. -/
def peerProtocolVersion : UInt16 := 3
/-- `PEER_FRAME_HEADER_BYTES`. -/
def peerFrameHeaderBytes : Nat := 20
/-- `MAX_PEER_PAYLOAD_BYTES`. -/
def maxPeerPayloadBytes : Nat := maxBlockBytes
/-- `MAX_HEADER_LOCATORS`. -/
def maxHeaderLocators : Nat := 32
/-- `MAX_INVENTORY_ITEMS`. -/
def maxInventoryItems : Nat := 1024

namespace PeerKind

/-- `HELLO_KIND`. -/
def hello : UInt8 := 1
/-- `GET_HEADERS_KIND`. -/
def getHeaders : UInt8 := 2
/-- `INVENTORY_KIND`. -/
def inventory : UInt8 := 3
/-- `GET_BLOCK_KIND`. -/
def getBlock : UInt8 := 4
/-- `BLOCK_KIND`. -/
def block : UInt8 := 5
/-- `GET_MEMPOOL_KIND`. -/
def getMempool : UInt8 := 6
/-- `TRANSACTION_INVENTORY_KIND`. -/
def transactionInventory : UInt8 := 7
/-- `GET_TRANSACTION_KIND`. -/
def getTransaction : UInt8 := 8
/-- `TRANSACTION_KIND`. -/
def transaction : UInt8 := 9
/-- `SUBMIT_BLOCK_KIND`. -/
def submitBlock : UInt8 := 10
/-- `BLOCK_SUBMISSION_RESULT_KIND`. -/
def blockSubmissionResult : UInt8 := 11
/-- `GET_MINING_TEMPLATE_KIND`. -/
def getMiningTemplate : UInt8 := 12
/-- `MINING_TEMPLATE_KIND`. -/
def miningTemplate : UInt8 := 13

end PeerKind

/-- `PeerError`, as far as frames and sessions use it. -/
inductive PeerError where
  | truncated (needed remaining : Nat)
  | invalidMagic
  | unsupportedVersion (version : UInt16)
  | nonZeroFlags
  | unknownKind (kind : UInt8)
  | invalidBlockSubmissionStatus (status : UInt8)
  | payloadTooLarge (actual max : Nat)
  | trailingBytes (remaining : Nat)
  | countLimit (field : String) (actual max : Nat)
  | emptyLocator
  | duplicateIdentifier (field : String)
  | zeroNodeNonce
  | wrongNetwork
  | wrongConsensusFingerprint
  | selfConnect
  | localHelloRequired
  | remoteHelloRequired
  | duplicateHello
  | handshakeRequired
  | unexpectedSequence (expected actual : UInt64)
  | sequenceExhausted
  | peerBudgetExceeded
  | invalidLimits
  | nonCanonicalBlock
  | nonCanonicalTransaction
  | invalidMiningTemplate (reason : String)
  | invalidMiningOutputLockTag (tag : UInt8)
  | consensusWire (error : WireError)
  deriving DecidableEq

/-- Go on only if `p` holds. -/
def peerCheck (p : Prop) [Decidable p] (error : PeerError) : Outcome PeerError Unit :=
  require p error

/-- `From<WireError>`: an error of the consensus codec. -/
def fromWire {α : Type} (result : Outcome WireError α) : Outcome PeerError α :=
  mapErr .consensusWire result

/-- `u32::try_from(length)`. -/
def payloadLengthWord (length max : Nat) : Outcome PeerError UInt32 :=
  okOr (if length < 2 ^ 32 then some (UInt32.ofNat length) else none) (.payloadTooLarge length max)

/-! ## Messages -/

/-- Chain work as 64 bytes, most significant first. -/
abbrev ChainWork := Bytes 64

structure PeerHello where
  networkId : Bytes32
  consensusFingerprint : Bytes32
  nodeNonce : Bytes32
  tip : Bytes32
  height : UInt64
  cumulativeWork : ChainWork
  deriving DecidableEq

inductive BlockSubmissionStatus where
  | accepted
  | alreadyKnown
  | rejected
  deriving DecidableEq

structure BlockSubmissionResult where
  blockId : Bytes32
  status : BlockSubmissionStatus
  peerHeight : UInt64
  peerTip : Bytes32
  deriving DecidableEq

/-- A block without its proof, for a thin miner. -/
structure MiningTemplate where
  challenge : BlockChallenge
  coinbase : Coinbase
  transactions : List Transaction
  deriving DecidableEq

inductive PeerMessage where
  | hello (hello : PeerHello)
  | getHeaders (locator : List Bytes32) (stop : Bytes32)
  | inventory (blockIds : List Bytes32)
  | getBlock (blockId : Bytes32)
  | block (block : Block)
  | submitBlock (block : Block)
  | blockSubmissionResult (result : BlockSubmissionResult)
  | getMempool
  | transactionInventory (txids : List Bytes32)
  | getTransaction (txid : Bytes32)
  | transaction (transaction : Transaction)
  | getMiningTemplate (payout : Bytes32)
  | miningTemplate (template : MiningTemplate)
  deriving DecidableEq

structure PeerFrame where
  sequence : UInt64
  message : PeerMessage
  deriving DecidableEq

/-- `BlockSubmissionStatus as u8`. -/
def BlockSubmissionStatus.toByte : BlockSubmissionStatus → UInt8
  | .accepted => 0
  | .alreadyKnown => 1
  | .rejected => 2

def BlockSubmissionStatus.fromByte (value : UInt8) : Outcome PeerError BlockSubmissionStatus :=
  if value = 0 then .ok .accepted
  else if value = 1 then .ok .alreadyKnown
  else if value = 2 then .ok .rejected
  else fail (.invalidBlockSubmissionStatus value)

/-! ## Payloads -/

/-- A step that appends to a payload. -/
abbrev PayloadWrite := Writing (List UInt8) PeerError Unit

/-- A step of `PayloadReader`. -/
abbrev PayloadRead := Reader PeerError

namespace Payload

/-- `payload.extend_from_slice(value)`. -/
def put (value : List UInt8) : PayloadWrite := fun payload => .ok ((), payload ++ value)

def u8 (value : UInt8) : PayloadWrite := put [value]

def u16 (value : UInt16) : PayloadWrite := put (leBytes16 value)

def u32 (value : UInt32) : PayloadWrite := put (leBytes32 value)

def u64 (value : UInt64) : PayloadWrite := put (leBytes64 value)

/-- The payload a program writes. -/
def build (program : PayloadWrite) : Outcome PeerError (List UInt8) := do
  let (_, payload) ← program []
  pure payload

end Payload

namespace PayloadReader

def take (count : Nat) : PayloadRead (List UInt8) := takeBytes .truncated count

def array (n : Nat) : PayloadRead (Bytes n) := takeArray .truncated n

def u8 : PayloadRead UInt8 := takeU8 .truncated

def u16 : PayloadRead UInt16 := takeU16 .truncated

def u32 : PayloadRead UInt32 := takeU32 .truncated

def u64 : PayloadRead UInt64 := takeU64 .truncated

/-- A program on a payload, from `PayloadReader::new` to `finish`. -/
def run {α : Type} (program : PayloadRead α) (payload : List UInt8) : Outcome PeerError α := do
  let (value, remaining) ← program payload
  peerCheck (remaining.length = 0) (.trailingBytes remaining.length)
  pure value

end PayloadReader

/-! ## Validation -/

def validateHello (hello : PeerHello) : Outcome PeerError Unit :=
  peerCheck (hello.nodeNonce ≠ zero32) .zeroNodeNonce

def validateIdentifiers (identifiers : List Bytes32) (max : Nat) (field : String)
    (requireNonempty : Bool) : Outcome PeerError Unit := do
  peerCheck (¬(requireNonempty = true ∧ identifiers.isEmpty = true)) .emptyLocator
  peerCheck (¬identifiers.length > max) (.countLimit field identifiers.length max)
  peerCheck identifiers.Nodup (.duplicateIdentifier field)

section

variable (P : Platform)

def validateMiningTemplate (template : MiningTemplate) (expectedNetworkId : Bytes32) :
    Outcome PeerError Unit := do
  peerCheck (template.challenge.networkId = expectedNetworkId) .wrongNetwork
  peerCheck (template.coinbase.height = template.challenge.height)
    (.invalidMiningTemplate "coinbase height does not match challenge height")
  peerCheck (¬template.coinbase.outputs.length > maxCoinbaseOutputs)
    (.countLimit "mining template coinbase outputs" template.coinbase.outputs.length
      maxCoinbaseOutputs)
  peerCheck (¬template.transactions.length > maxBlockTransactions)
    (.countLimit "mining template transactions" template.transactions.length maxBlockTransactions)
  peerCheck (∀ transaction ∈ template.transactions, transaction.networkId = expectedNetworkId)
    .wrongNetwork
  let commitments := template.coinbase.commitment P expectedNetworkId ::
    template.transactions.map (·.txid P)
  peerCheck (merkleRoot P commitments = template.challenge.transactionRoot)
    (.invalidMiningTemplate "transaction root does not match template contents")

end

/-! ## The payload of each kind -/

def writeHello (hello : PeerHello) : PayloadWrite := do
  Payload.put hello.networkId.1
  Payload.put hello.consensusFingerprint.1
  Payload.put hello.nodeNonce.1
  Payload.put hello.tip.1
  Payload.u64 hello.height
  Payload.put hello.cumulativeWork.1

def readHello : PayloadRead PeerHello := do
  let networkId ← PayloadReader.array 32
  let consensusFingerprint ← PayloadReader.array 32
  let nodeNonce ← PayloadReader.array 32
  let tip ← PayloadReader.array 32
  let height ← PayloadReader.u64
  let cumulativeWork ← PayloadReader.array 64
  pure { networkId, consensusFingerprint, nodeNonce, tip, height, cumulativeWork }

/-- A 16-bit count, and that many identifiers. -/
def writeIdentifiers (identifiers : List Bytes32) : PayloadWrite := do
  Payload.u16 (UInt16.ofNat identifiers.length)
  writeMany (fun identifier => Payload.put identifier.1) identifiers

/-- The count and the identifiers; an empty list is refused before the limit is
looked at, where one is required not to be empty. -/
def readIdentifiers (max : Nat) (field : String) (requireNonempty : Bool) :
    PayloadRead (List Bytes32) := do
  let count ← PayloadReader.u16
  peerCheck (¬(requireNonempty = true ∧ count.toNat = 0)) .emptyLocator
  peerCheck (¬count.toNat > max) (.countLimit field count.toNat max)
  readMany (PayloadReader.array 32) count.toNat

def writeGetHeaders (locator : List Bytes32) (stop : Bytes32) : PayloadWrite := do
  writeIdentifiers locator
  Payload.put stop.1

def readGetHeaders : PayloadRead (List Bytes32 × Bytes32) := do
  let locator ← readIdentifiers maxHeaderLocators "header locator" true
  let stop ← PayloadReader.array 32
  pure (locator, stop)

def writeSubmissionResult (result : BlockSubmissionResult) : PayloadWrite := do
  Payload.put result.blockId.1
  Payload.u8 result.status.toByte
  Payload.u64 result.peerHeight
  Payload.put result.peerTip.1

def readSubmissionResult : PayloadRead BlockSubmissionResult := do
  let blockId ← PayloadReader.array 32
  let byte ← PayloadReader.u8
  let status ← BlockSubmissionStatus.fromByte byte
  let peerHeight ← PayloadReader.u64
  let peerTip ← PayloadReader.array 32
  pure { blockId, status, peerHeight, peerTip }

def encodeBlockChallenge (challenge : BlockChallenge) : PayloadWrite := do
  Payload.put challenge.networkId.1
  Payload.put challenge.previousBlock.1
  Payload.put challenge.transactionRoot.1
  Payload.u64 challenge.height
  Payload.u64 challenge.timestamp
  Payload.put challenge.target.1

/-- The check behind the fields of a challenge. -/
def challengeOn (expectedNetworkId : Bytes32) (challenge : BlockChallenge) :
    Outcome PeerError BlockChallenge := do
  peerCheck (challenge.networkId = expectedNetworkId) .wrongNetwork
  pure challenge

def decodeBlockChallenge (expectedNetworkId : Bytes32) : PayloadRead BlockChallenge := do
  let networkId ← PayloadReader.array 32
  let previousBlock ← PayloadReader.array 32
  let transactionRoot ← PayloadReader.array 32
  let height ← PayloadReader.u64
  let timestamp ← PayloadReader.u64
  let target ← PayloadReader.array 32
  challengeOn expectedNetworkId {
    networkId, previousBlock, transactionRoot, height, timestamp, target }

def encodeTemplateOutput (output : TxOutput) : PayloadWrite := do
  Payload.u64 output.value
  match output.lock with
  | .key owner => do
      Payload.u8 0
      Payload.put owner.1
  | .inferenceChannel channelId => do
      Payload.u8 1
      Payload.put channelId.1
  Payload.u64 output.spendableHeight

def decodeTemplateLock (tag : UInt8) : PayloadRead OutputLock :=
  if tag = 0 then do
    let owner ← PayloadReader.array 32
    pure (.key owner)
  else if tag = 1 then do
    let channelId ← PayloadReader.array 32
    pure (.inferenceChannel channelId)
  else fun _ => fail (.invalidMiningOutputLockTag tag)

def decodeTemplateOutput : PayloadRead TxOutput := do
  let value ← PayloadReader.u64
  let tag ← PayloadReader.u8
  let lock ← decodeTemplateLock tag
  let spendableHeight ← PayloadReader.u64
  pure { value, lock, spendableHeight }

section

variable (P : Platform)

/-- A consensus transaction frame, checked by encoding it again. -/
def decodeCanonicalTransaction (encoded : List UInt8) (expectedNetworkId : Bytes32) :
    Outcome PeerError Transaction := do
  let transaction ← fromWire (decodeTransaction P encoded expectedNetworkId)
  let again ← fromWire (encodeTransaction P transaction)
  peerCheck (again = encoded) .nonCanonicalTransaction
  pure transaction

/-- A consensus block frame, checked by encoding it again. -/
def decodeCanonicalBlock (payload : List UInt8) (expectedNetworkId : Bytes32) :
    Outcome PeerError Block := do
  let block ← fromWire (decodeBlock P payload expectedNetworkId)
  let again ← fromWire (encodeBlock P block)
  peerCheck (again = payload) .nonCanonicalBlock
  pure block

def writeTemplateTransaction (transaction : Transaction) : PayloadWrite := do
  let encoded ← fromWire (encodeTransaction P transaction)
  let length ← payloadLengthWord encoded.length maxTransactionBytes
  Payload.u32 length
  Payload.put encoded

def readTemplateTransaction (expectedNetworkId : Bytes32) : PayloadRead Transaction := do
  let length ← PayloadReader.u32
  peerCheck (¬length.toNat > maxTransactionBytes) (.payloadTooLarge length.toNat maxTransactionBytes)
  let encoded ← PayloadReader.take length.toNat
  decodeCanonicalTransaction P encoded expectedNetworkId

def writeMiningTemplate (template : MiningTemplate) : PayloadWrite := do
  encodeBlockChallenge template.challenge
  Payload.u64 template.coinbase.height
  Payload.u8 (UInt8.ofNat template.coinbase.outputs.length)
  writeMany encodeTemplateOutput template.coinbase.outputs
  Payload.u16 (UInt16.ofNat template.transactions.length)
  writeMany (writeTemplateTransaction P) template.transactions

def readMiningTemplate (expectedNetworkId : Bytes32) : PayloadRead MiningTemplate := do
  let challenge ← decodeBlockChallenge expectedNetworkId
  let height ← PayloadReader.u64
  let outputCount ← PayloadReader.u8
  peerCheck (¬outputCount.toNat > maxCoinbaseOutputs)
    (.countLimit "mining template coinbase outputs" outputCount.toNat maxCoinbaseOutputs)
  let outputs ← readMany decodeTemplateOutput outputCount.toNat
  let transactionCount ← PayloadReader.u16
  peerCheck (¬transactionCount.toNat > maxBlockTransactions)
    (.countLimit "mining template transactions" transactionCount.toNat maxBlockTransactions)
  let transactions ← readMany (readTemplateTransaction P expectedNetworkId) transactionCount.toNat
  pure { challenge, coinbase := { height, outputs }, transactions }

def encodeMiningTemplate (template : MiningTemplate) : Outcome PeerError (List UInt8) := do
  validateMiningTemplate P template template.challenge.networkId
  Payload.build (writeMiningTemplate P template)

def decodeMiningTemplate (payload : List UInt8) (expectedNetworkId : Bytes32) :
    Outcome PeerError MiningTemplate := do
  let template ← PayloadReader.run (readMiningTemplate P expectedNetworkId) payload
  validateMiningTemplate P template expectedNetworkId
  pure template

/-! ## Messages and frames -/

def encodeMessage : PeerMessage → Outcome PeerError (UInt8 × List UInt8)
  | .hello hello => do
      validateHello hello
      let payload ← Payload.build (writeHello hello)
      pure (PeerKind.hello, payload)
  | .getHeaders locator stop => do
      validateIdentifiers locator maxHeaderLocators "header locator" true
      let payload ← Payload.build (writeGetHeaders locator stop)
      pure (PeerKind.getHeaders, payload)
  | .inventory blockIds => do
      validateIdentifiers blockIds maxInventoryItems "inventory" false
      let payload ← Payload.build (writeIdentifiers blockIds)
      pure (PeerKind.inventory, payload)
  | .getBlock blockId => pure (PeerKind.getBlock, blockId.1)
  | .block block => do
      let payload ← fromWire (encodeBlock P block)
      pure (PeerKind.block, payload)
  | .submitBlock block => do
      let payload ← fromWire (encodeBlock P block)
      pure (PeerKind.submitBlock, payload)
  | .blockSubmissionResult result => do
      let payload ← Payload.build (writeSubmissionResult result)
      pure (PeerKind.blockSubmissionResult, payload)
  | .getMempool => pure (PeerKind.getMempool, [])
  | .transactionInventory txids => do
      validateIdentifiers txids maxInventoryItems "transaction inventory" false
      let payload ← Payload.build (writeIdentifiers txids)
      pure (PeerKind.transactionInventory, payload)
  | .getTransaction txid => pure (PeerKind.getTransaction, txid.1)
  | .transaction transaction => do
      let payload ← fromWire (encodeTransaction P transaction)
      peerCheck (¬payload.length > maxTransactionBytes)
        (.payloadTooLarge payload.length maxTransactionBytes)
      pure (PeerKind.transaction, payload)
  | .getMiningTemplate payout => pure (PeerKind.getMiningTemplate, payout.1)
  | .miningTemplate template => do
      let payload ← encodeMiningTemplate P template
      pure (PeerKind.miningTemplate, payload)

def decodeMessage (kind : UInt8) (payload : List UInt8) (expectedNetworkId : Bytes32) :
    Outcome PeerError PeerMessage :=
  if kind = PeerKind.hello then do
    let hello ← PayloadReader.run readHello payload
    validateHello hello
    peerCheck (hello.networkId = expectedNetworkId) .wrongNetwork
    pure (.hello hello)
  else if kind = PeerKind.getHeaders then do
    let (locator, stop) ← PayloadReader.run readGetHeaders payload
    validateIdentifiers locator maxHeaderLocators "header locator" true
    pure (.getHeaders locator stop)
  else if kind = PeerKind.inventory then do
    let blockIds ← PayloadReader.run (readIdentifiers maxInventoryItems "inventory" false) payload
    validateIdentifiers blockIds maxInventoryItems "inventory" false
    pure (.inventory blockIds)
  else if kind = PeerKind.getBlock then do
    let blockId ← PayloadReader.run (PayloadReader.array 32) payload
    pure (.getBlock blockId)
  else if kind = PeerKind.block then do
    let block ← decodeCanonicalBlock P payload expectedNetworkId
    pure (.block block)
  else if kind = PeerKind.submitBlock then do
    let block ← decodeCanonicalBlock P payload expectedNetworkId
    pure (.submitBlock block)
  else if kind = PeerKind.blockSubmissionResult then do
    let result ← PayloadReader.run readSubmissionResult payload
    pure (.blockSubmissionResult result)
  else if kind = PeerKind.getMempool then do
    PayloadReader.run (pure ()) payload
    pure .getMempool
  else if kind = PeerKind.transactionInventory then do
    let txids ← PayloadReader.run
      (readIdentifiers maxInventoryItems "transaction inventory" false) payload
    validateIdentifiers txids maxInventoryItems "transaction inventory" false
    pure (.transactionInventory txids)
  else if kind = PeerKind.getTransaction then do
    let txid ← PayloadReader.run (PayloadReader.array 32) payload
    pure (.getTransaction txid)
  else if kind = PeerKind.transaction then do
    peerCheck (¬payload.length > maxTransactionBytes)
      (.payloadTooLarge payload.length maxTransactionBytes)
    let transaction ← decodeCanonicalTransaction P payload expectedNetworkId
    pure (.transaction transaction)
  else if kind = PeerKind.getMiningTemplate then do
    let payout ← PayloadReader.run (PayloadReader.array 32) payload
    pure (.getMiningTemplate payout)
  else if kind = PeerKind.miningTemplate then do
    let template ← decodeMiningTemplate P payload expectedNetworkId
    pure (.miningTemplate template)
  else fail (.unknownKind kind)

def encodePeerFrame (frame : PeerFrame) : Outcome PeerError (List UInt8) := do
  let (kind, payload) ← encodeMessage P frame.message
  peerCheck (¬payload.length > maxPeerPayloadBytes)
    (.payloadTooLarge payload.length maxPeerPayloadBytes)
  let payloadLength ← payloadLengthWord payload.length maxPeerPayloadBytes
  pure (peerMagic ++ leBytes16 peerProtocolVersion ++ [kind, 0] ++ leBytes64 frame.sequence ++
    leBytes32 payloadLength ++ payload)

/-- The payload limit of a kind. -/
def payloadLimitOf (kind : UInt8) : Nat :=
  if kind = PeerKind.transaction then maxTransactionBytes else maxPeerPayloadBytes

def decodePeerFrame (bytes : List UInt8) (expectedNetworkId : Bytes32) :
    Outcome PeerError PeerFrame := do
  peerCheck (¬bytes.length < peerFrameHeaderBytes) (.truncated peerFrameHeaderBytes bytes.length)
  let magic ← sliceAt bytes 0 4
  peerCheck (magic = peerMagic) .invalidMagic
  let versionBytes ← sliceAt bytes 4 6
  let version := UInt16.ofNat (ofLe versionBytes)
  peerCheck (version = peerProtocolVersion) (.unsupportedVersion version)
  let kind ← byteAt bytes 6
  let flags ← byteAt bytes 7
  peerCheck (flags = 0) .nonZeroFlags
  let sequenceSlice ← sliceAt bytes 8 16
  let sequenceBytes ← toArray 8 sequenceSlice
  let lengthSlice ← sliceAt bytes 16 20
  let lengthBytes ← toArray 4 lengthSlice
  let payloadLength := ofLe lengthBytes.1
  peerCheck (¬payloadLength > payloadLimitOf kind)
    (.payloadTooLarge payloadLength (payloadLimitOf kind))
  let expectedLength := peerFrameHeaderBytes + payloadLength
  peerCheck (¬bytes.length < expectedLength) (.truncated expectedLength bytes.length)
  peerCheck (¬bytes.length > expectedLength) (.trailingBytes (bytes.length - expectedLength))
  let payload ← sliceAt bytes peerFrameHeaderBytes bytes.length
  let message ← decodeMessage P kind payload expectedNetworkId
  pure { sequence := UInt64.ofNat (ofLe sequenceBytes.1), message }

end

end CommonFoundry
