/-
# `CommonFoundry.Node.PeerClient` — the sessions that a node or a miner opens

`perform_sync_from_peer_once`, `perform_relay_blocks_to_peer_once`,
`request_mining_template_once` and `submit_mined_block_once` as programs: sections on the node
between messages, and a question for each request.  Nothing holds the lock while a message is
under way.

Alone with a node that serves it, a sync is the pull of blocks and then of the mempool
(`sync_refines_pull`): what is known about these holds of the session.
-/
import CommonFoundry.Node.PeerService

namespace CommonFoundry

open Lib Lib.Outcome

structure SyncReport where
  remoteHello : PeerHello
  inventoryItems : Nat
  requestedBlocks : Nat
  acceptedBlocks : Nat
  alreadyKnown : Nat
  transactionInventoryItems : Nat
  requestedTransactions : Nat
  acceptedTransactions : Nat
  alreadyKnownTransactions : Nat
  rejectedTransactions : Nat

structure RelayReport where
  remoteHello : PeerHello
  offeredBlocks : Nat
  acceptedBlocks : Nat
  alreadyKnown : Nat
  peerHeight : UInt64
  peerTip : Bytes32

structure MiningTemplateResponse where
  remoteHello : PeerHello
  template : MiningTemplate

/-- A session of a node, over a connection that delivers a message or fails. -/
abbrev PeerTalk (R : Type) := Dialogue Node PeerCall (Outcome ConnectionError PeerMessage) SessionError R

/-! ## Requests and their answers -/

/-- `connection.send(request)` and `connection.receive()`, or the greetings. -/
def exchange (call : PeerCall) : PeerTalk PeerMessage := do
  let answer ← Dialogue.question call
  liftM (mapErr SessionError.peer answer)

/-- A check of the program itself. -/
def sessionCheck (p : Prop) [Decidable p] (error : SessionError) : PeerTalk Unit :=
  .done (require p error)

def expectHello : PeerMessage → Outcome SessionError PeerHello
  | .hello hello => .ok hello
  | other => fail (.unexpectedMessage "Hello" (messageName other))

def expectInventory : PeerMessage → Outcome SessionError (List Bytes32)
  | .inventory blockIds => .ok blockIds
  | other => fail (.unexpectedMessage "Inventory" (messageName other))

def expectBlock : PeerMessage → Outcome SessionError Block
  | .block block => .ok block
  | other => fail (.unexpectedMessage "Block" (messageName other))

def expectTransactionInventory : PeerMessage → Outcome SessionError (List Bytes32)
  | .transactionInventory txids => .ok txids
  | other => fail (.unexpectedMessage "TransactionInventory" (messageName other))

def expectTransaction : PeerMessage → Outcome SessionError Transaction
  | .transaction transaction => .ok transaction
  | other => fail (.unexpectedMessage "Transaction" (messageName other))

def expectBlockSubmissionResult : PeerMessage → Outcome SessionError BlockSubmissionResult
  | .blockSubmissionResult result => .ok result
  | other => fail (.unexpectedMessage "BlockSubmissionResult" (messageName other))

def expectMiningTemplate : PeerMessage → Outcome SessionError MiningTemplate
  | .miningTemplate template => .ok template
  | other => fail (.unexpectedMessage "MiningTemplate" (messageName other))

section

variable (P : Platform) (surroundings : Bytes32 → Surroundings)

/-! ## Sync -/

/-- The loop over the inventory.  `surroundings` is what the clock and the disk answer when the
block with an identifier is submitted. -/
def syncBlocks : Option Bytes32 → List Bytes32 → SyncReport → PeerTalk SyncReport
  | _, [], report => pure report
  | previous, requested :: rest, report => do
      let known ← Dialogue.read fun node : Node => node.index.contains requested
      if known then
        syncBlocks (some requested) rest { report with alreadyKnown := report.alreadyKnown + 1 }
      else
        let message ← exchange (.send (.getBlock requested))
        let block ← expectBlock message
        sessionCheck (block.blockId P = requested) (.wrongBlock requested (block.blockId P))
        let ordered ← Dialogue.read fun node : Node => parentIsOrdered node previous block
        sessionCheck (ordered = true) (.nonContiguousInventory requested)
        let _ ← Dialogue.critical fun node : Node =>
          let submitted := node.submitBlock P (surroundings requested).append block
            (surroundings requested).now
          (mapErr .node submitted.1, submitted.2)
        syncBlocks (some requested) rest { report with
          requestedBlocks := report.requestedBlocks + 1
          acceptedBlocks := report.acceptedBlocks + 1 }

/-- The loop over the transactions that are requested. -/
def syncTransactions : List Bytes32 → SyncReport → PeerTalk SyncReport
  | [], report => pure report
  | requested :: rest, report => do
      let message ← exchange (.send (.getTransaction requested))
      let transaction ← expectTransaction message
      sessionCheck (transaction.txid P = requested)
        (.wrongTransaction requested (transaction.txid P))
      let admitted ← Dialogue.critical fun node : Node =>
        let submitted := node.submitTransaction P transaction
        (.ok submitted.1.isOk, submitted.2)
      let report := { report with requestedTransactions := report.requestedTransactions + 1 }
      if admitted then
        syncTransactions rest
          { report with acceptedTransactions := report.acceptedTransactions + 1 }
      else
        syncTransactions rest
          { report with rejectedTransactions := report.rejectedTransactions + 1 }

/-- `perform_sync_from_peer_once_inner_with_policy`, from the node's greeting on. -/
def syncFromPeer (identity : ProcessIdentity) : PeerTalk SyncReport := do
  let (hello, locator) ← Dialogue.read fun node : Node =>
    (node.peerHello identity, node.blockLocator maxBlocksPerSync)
  let message ← exchange (.connect hello)
  let remoteHello ← expectHello message
  let message ← exchange (.send (.getHeaders locator remoteHello.tip))
  let inventory ← expectInventory message
  sessionCheck (¬inventory.length > maxBlocksPerSync)
    (.peer (.frame (.countLimit "sync inventory" inventory.length maxBlocksPerSync)))
  let report ← syncBlocks P surroundings none inventory {
    remoteHello
    inventoryItems := inventory.length
    requestedBlocks := 0
    acceptedBlocks := 0
    alreadyKnown := 0
    transactionInventoryItems := 0
    requestedTransactions := 0
    acceptedTransactions := 0
    alreadyKnownTransactions := 0
    rejectedTransactions := 0 }
  let message ← exchange (.send .getMempool)
  let transactionInventory ← expectTransactionInventory message
  let known ← Dialogue.read Node.transactionInventory
  let missing := transactionInventory.filter fun txid => !known.contains txid
  syncTransactions P (missing.take maxTransactionsPerSync) { report with
    transactionInventoryItems := transactionInventory.length
    alreadyKnownTransactions := transactionInventory.countP fun txid => known.contains txid }

/-! ## Relay -/

/-- The loop over the blocks that are offered.  The identifier of the network is a constant of
the node, so what it serves itself is what it submits. -/
def relayBlocks : List Bytes32 → RelayReport → PeerTalk RelayReport
  | [], report => pure report
  | blockId :: rest, report => do
      let block ← Dialogue.critical fun node : Node =>
        (mapErr P2pError.toSession (node.serveBlock P blockId), node)
      let message ← exchange (.send (.submitBlock block))
      let result ← expectBlockSubmissionResult message
      sessionCheck (result.blockId = blockId) (.wrongBlockSubmission blockId result.blockId)
      let report := { report with peerHeight := result.peerHeight, peerTip := result.peerTip }
      match result.status with
      | .accepted => relayBlocks rest { report with acceptedBlocks := report.acceptedBlocks + 1 }
      | .alreadyKnown => relayBlocks rest { report with alreadyKnown := report.alreadyKnown + 1 }
      | .rejected => .done (fail (.rejectedBlockSubmission blockId))

/-- `perform_relay_blocks_to_peer_once_inner_with_policy`, from the node's greeting on. -/
def relayBlocksToPeer (identity : ProcessIdentity) : PeerTalk RelayReport := do
  let hello ← Dialogue.read fun node : Node => node.peerHello identity
  let message ← exchange (.connect hello)
  let remoteHello ← expectHello message
  let blockIds ← Dialogue.read fun node : Node =>
    node.relayInventoryAfter remoteHello.tip maxBlocksPerSync
  relayBlocks P blockIds {
    remoteHello
    offeredBlocks := blockIds.length
    acceptedBlocks := 0
    alreadyKnown := 0
    peerHeight := remoteHello.height
    peerTip := remoteHello.tip }

/-! ## Thin miners -/

/-- `thin_miner_hello`. -/
def thinMinerHello (params : NetworkParams) (identity : ProcessIdentity) : PeerHello where
  networkId := params.networkId
  consensusFingerprint := identity.consensusFingerprint
  nodeNonce := identity.nodeNonce
  tip := params.genesisHash
  height := 0
  cumulativeWork := chainWorkBytes 0

/-- The first output of a template goes to the miner. -/
def MiningTemplate.pays (template : MiningTemplate) (payout : Bytes32) : Bool :=
  match template.coinbase.outputs.head? with
  | some output => decide (output.lock = .key payout)
  | none => false

/-- `request_mining_template_once_with_policy`. -/
def requestMiningTemplate (hello : PeerHello) (payout : Bytes32) :
    PeerTalk MiningTemplateResponse := do
  let message ← exchange (.connect hello)
  let remoteHello ← expectHello message
  let message ← exchange (.send (.getMiningTemplate payout))
  let template ← expectMiningTemplate message
  sessionCheck (¬(template.challenge.previousBlock ≠ remoteHello.tip ∨
    template.challenge.height ≠ saturatingAdd remoteHello.height 1)) .unexpectedMiningTemplate
  sessionCheck (template.pays payout) .unexpectedMiningPayout
  pure { remoteHello, template }

/-- `submit_mined_block_once_with_policy`. -/
def submitMinedBlock (hello : PeerHello) (block : Block) : PeerTalk BlockSubmissionResult := do
  let submitted := block.blockId P
  let message ← exchange (.connect hello)
  let _ ← expectHello message
  let message ← exchange (.send (.submitBlock block))
  let result ← expectBlockSubmissionResult message
  sessionCheck (result.blockId = submitted) (.wrongBlockSubmission submitted result.blockId)
  pure result

end

/-! ## A session alone with a node -/

section

variable {P : Platform} {params params' : NetworkParams} {verifier verifier' : ConsensusPowVerifier}
  {accepted accepted' : List Acceptance} {node remote : Node}
  {identity identity' : ProcessIdentity} {surroundings : Bytes32 → Surroundings}
  {theirs : PeerCall → Surroundings}

/-- The answer of a node that nobody else uses.  Where its handler fails it closes the
connection, and the next header is cut off. -/
def Node.reply (P : Platform) (identity : ProcessIdentity) (theirs : PeerCall → Surroundings)
    (call : PeerCall) (remote : Node) : Outcome ConnectionError PeerMessage × Node :=
  let served := (serveCall P identity (theirs call) call).answer remote
  (match served.1 with
    | .ok message => .ok message
    | .error _ => fail (.frame (.truncated peerFrameHeaderBytes 0)), served.2)

/-- What submitting a block adds to an index. -/
theorem contains_submitBlock (h : NodeRun P params verifier accepted node) {append : AppendOutcome}
    {block : Block} {acceptedAt fees : UInt64} {node' : Node}
    (hsubmit : node.submitBlock P append block acceptedAt = (.ok fees, node')) (id : Bytes32) :
    node'.index.contains id = true ↔ node.index.contains id = true ∨ id = block.blockId P := by
  have htree := h.consistent.follows.tree
  have htree' := (h.accepted hsubmit).consistent.follows.tree
  rw [htree'.contains_iff, htree.contains_iff, acceptedIds_snoc,
    htree'.genesis.trans htree.genesis.symm, List.mem_append, List.mem_singleton]
  rfl

theorem serveTransaction_txid {txid : Bytes32} {transaction : Transaction}
    (h : remote.serveTransaction P txid = .ok transaction) : transaction.txid P = txid := by
  simp only [Node.serveTransaction, bind_eq_ok, okOr_eq_ok, require_eq_ok, pure_eq_ok] at h
  obtain ⟨_, _, _, htxid, rfl⟩ := h
  exact htxid

end

end CommonFoundry
