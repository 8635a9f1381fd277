/-
# `CommonFoundry.Node.Node` — the node: blocks, templates and transactions

`Node` with `open`, `build_template`, `submit_transaction` and `submit_block`.

`submit_block` has three steps with a failure point each: the block is validated
against the state, its record is appended to the log and synced, and the result
is committed in memory.  What the operating system does with the record is an
input here (`AppendOutcome`).  Every call returns the node it leaves, also when
it fails.
-/
import CommonFoundry.Node.BlockLog
import CommonFoundry.Node.Mempool

namespace CommonFoundry

open Lib Lib.Outcome

/-- The fields of a node that blocks and transactions use; `log` is the content
of the block log. -/
structure Node where
  params : NetworkParams
  verifier : ConsensusPowVerifier
  state : ChainState
  index : BlockIndex
  mempool : Mempool
  log : List UInt8
  storageFaulted : Bool

/-- How `write_all` and `sync_all` of a record end: a failed write leaves any
number of its bytes in the file. -/
inductive AppendOutcome where
  | synced
  | writeFailed (written : Nat)
  | syncFailed

structure BlockTemplate where
  challenge : BlockChallenge
  coinbase : Coinbase
  transactions : List Transaction
  totalFeesBurned : UInt64

namespace Node

section

variable (P : Platform)

/-- `Node::open` on a data directory whose block log has these bytes. -/
def «open» (params : NetworkParams) (verifier : ConsensusPowVerifier) (log : List UInt8) :
    Outcome NodeError Node := do
  let state ← mapErr .chain (ChainState.new P params verifier)
  let (state, index) ← replayLog P params verifier log state (.new params.genesisHash)
  pure { params, verifier, state, index, mempool := .empty, log, storageFaulted := false }

def buildTemplate (node : Node) (minerDestination : Bytes32) (nowUnixSeconds : UInt64) :
    Outcome NodeError BlockTemplate := do
  require (¬node.storageFaulted) .storageFaulted
  require (P.verifyingKey minerDestination) .invalidMinerDestination
  let earliest ← okOr (checkedAdd node.state.medianTimePast 1) .templateTimeUnavailable
  let latest ← okOr (checkedAdd nowUnixSeconds node.params.maxFutureOffsetSecs)
    .templateTimeUnavailable
  let timestamp := max nowUnixSeconds earliest
  require (¬timestamp > latest) .templateTimeUnavailable
  let height := node.state.nextHeight
  let transactions := node.mempool.entries.values.map (·.transaction)
  let validation ← mapErr .chain (node.state.validateTransactionsForNextBlock P transactions)
  let allocation ← mapErr .economics
    (node.params.monetaryPolicy.allocation height validation.totalBurnedFees)
  let coinbase := Coinbase.new height allocation minerDestination node.params.rewards
  let target ← mapErr .chain node.state.expectedTarget
  let challenge : BlockChallenge := {
    networkId := node.params.networkId
    previousBlock := node.state.tip
    transactionRoot := merkleRoot P (coinbase.commitment P node.params.networkId ::
      transactions.map (·.txid P))
    height, timestamp, target }
  pure { challenge, coinbase, transactions, totalFeesBurned := validation.totalBurnedFees }

def submitTransaction (node : Node) (transaction : Transaction) :
    Outcome NodeError MempoolEntry × Node :=
  match node.mempool.submit P node.state transaction with
  | .ok (entry, mempool) => (.ok entry, { node with mempool })
  | .error fault => (.error fault, node)

/-! ## `submit_block` -/

/-- The part of `submit_block` before the log: the prepared block and its record. -/
def stageBlock (node : Node) (block : Block) (acceptedAt : UInt64) :
    Outcome NodeError (PreparedBlock × List UInt8) := do
  require (¬node.storageFaulted) .storageFaulted
  let canonical ← mapErr .wire (encodeBlock P block)
  let prepared ← prepareBlock P node.state node.index node.params node.verifier block acceptedAt
    canonical
  let record ← encodeRecord P acceptedAt canonical
  pure (prepared, record)

/-- The part after the log: the commit, and the pool at a new tip. -/
def commitBlock (node : Node) (block : Block) (prepared : PreparedBlock) :
    Outcome NodeError UInt64 × Node :=
  let previousTip := node.state.tip
  let confirmedTxids := (block.transactions.map (·.txid P)).toFinset
  let committed := commitPrepared node.state node.index prepared
  let node := { node with state := committed.state, index := committed.index }
  match committed.result with
  | .ok fees =>
      if node.state.tip ≠ previousTip then
        (.ok fees,
          { node with mempool := node.mempool.revalidate P node.state confirmedTxids })
      else (.ok fees, node)
  | .error fault => (.error fault, { node with storageFaulted := true })

def submitBlock (node : Node) (append : AppendOutcome) (block : Block) (acceptedAt : UInt64) :
    Outcome NodeError UInt64 × Node :=
  match node.stageBlock P block acceptedAt with
  | .error fault => (.error fault, node)
  | .ok (prepared, record) =>
      match append with
      | .writeFailed written =>
          (fail (.io "append block record"),
            { node with log := node.log ++ record.take written, storageFaulted := true })
      | .syncFailed =>
          (fail (.io "sync block record"),
            { node with log := node.log ++ record, storageFaulted := true })
      | .synced => commitBlock P { node with log := node.log ++ record } block prepared

end

end Node

end CommonFoundry
