/-
# `CommonFoundry.Node.WalletHistory` — the history of a wallet, recomputed from blocks

`confirmed_wallet_history` reads the active chain block by block and keeps a set of unspent
outputs of its own: it takes out what an input spends and puts in what a transaction creates.
From what it finds it writes one entry for every coinbase that pays the wallet and one for
every transaction that takes from it or pays it, and keeps the newest of them.

The consensus rules keep another such set, and fill it in another order: there a coinbase
comes after the transactions of its block, here before them.
-/
import CommonFoundry.Node.Wallet

namespace CommonFoundry

open Lib Lib.Outcome

/-- The numbers of atoms are texts in the source. -/
structure WalletHistoryEntry where
  kind : String
  txid : String
  height : Option UInt64
  timestamp : Option UInt64
  confirmations : UInt64
  status : String
  netAmountAtoms : String
  feeBurnedAtoms : String
  counterparty : Option String
  deriving DecidableEq

/-- The reasons behind the `NodeError::CorruptLog` of a history. -/
inductive WalletLogFault where
  /-- "active wallet history refers to an absent block" -/
  | absentBlock
  /-- "active wallet history cannot decode: {error}" -/
  | decode (error : WireError)
  /-- "active wallet history transaction refers to an absent output" -/
  | absentOutput
  /-- "active wallet history transaction creates value" -/
  | createsValue

inductive WalletHistoryError where
  | corruptLog (fault : WalletLogFault)
  | wallet (error : WalletError)

/-- Credits less debits, with a sign only where it is negative. -/
def signedWalletDelta (credits debits : UInt64) : String :=
  if credits ≥ debits then toString (credits - debits)
  else "-" ++ toString (debits - credits)

def retainNewestWalletHistory (limit : Nat) (history : List WalletHistoryEntry)
    (entry : WalletHistoryEntry) : List WalletHistoryEntry :=
  if limit = 0 then history
  else (if history.length = limit then history.drop 1 else history) ++ [entry]

def walletStatus (immature : Bool) : String := if immature then "immature" else "confirmed"

/-- The outputs that a history has found and not seen spent. -/
abbrev HistoryOutputs := Finmap fun _ : OutPoint => TxOutput

/-! ## One transaction -/

/-- What the outputs on one side of a transaction come to: all of them, those of the wallet,
and the first key among the others. -/
structure WalletFlow where
  total : UInt64
  wallet : UInt64
  counterparty : Option String

namespace WalletFlow

def zero : WalletFlow := { total := 0, wallet := 0, counterparty := none }

/-- What both loops over a transaction do with an output. -/
def add (destination : Bytes32) (flow : WalletFlow) (output : TxOutput) :
    Outcome WalletHistoryError WalletFlow := do
  let total ← mapErr .wallet (checkedWalletAdd flow.total output.value)
  match output.lock with
  | .key owner =>
      if owner = destination then
        let wallet ← mapErr .wallet (checkedWalletAdd flow.wallet output.value)
        pure { flow with total, wallet }
      else if flow.counterparty.isNone then
        pure { flow with total, counterparty := some (hexEncode owner.1) }
      else pure { flow with total }
  | .inferenceChannel _ => pure { flow with total }

end WalletFlow

section

variable (P : Platform) (destination : Bytes32) (nextHeight : UInt64) (historyLimit : Nat)

/-- Whether an output is the wallet's and cannot be spent yet. -/
def walletImmature (output : TxOutput) : Bool :=
  output.lock = .key destination ∧ nextHeight < output.spendableHeight

def replayInput (scan : HistoryOutputs × WalletFlow) (input : TxInput) :
    Outcome WalletHistoryError (HistoryOutputs × WalletFlow) := do
  let (outputs, flow) := scan
  let previous ← okOr (outputs.lookup input.previous) (.corruptLog .absentOutput)
  let flow ← flow.add destination previous
  pure (outputs.erase input.previous, flow)

def replayOutput (scan : HistoryOutputs × WalletFlow × Bool) (created : OutPoint × TxOutput) :
    Outcome WalletHistoryError (HistoryOutputs × WalletFlow × Bool) := do
  let (outputs, flow, immature) := scan
  let (outpoint, output) := created
  let flow ← flow.add destination output
  pure (outputs.insert outpoint output, flow,
    immature || walletImmature destination nextHeight output)

/-- The outputs so far, and the history, oldest entry first. -/
structure HistoryScan where
  outputs : HistoryOutputs
  history : List WalletHistoryEntry

/-- What an entry has from its block. -/
structure HistoryBlock where
  height : UInt64
  timestamp : UInt64
  confirmations : UInt64

def replayTransaction (found : HistoryBlock) (scan : HistoryScan) (transaction : Transaction) :
    Outcome WalletHistoryError HistoryScan := do
  let (outputs, inputs) ← transaction.inputs.foldlM (replayInput destination)
    (scan.outputs, .zero)
  let txid := transaction.txid P
  let (outputs, created, immature) ← (outpointsOf txid transaction.outputs).foldlM
    (replayOutput destination nextHeight) (outputs, .zero, false)
  let feeBurned ← okOr (checkedSub inputs.total created.total) (.corruptLog .createsValue)
  let described : Option (String × Option String) :=
    if inputs.wallet > 0 then some ("sent", created.counterparty)
    else if created.wallet > 0 then some ("received", inputs.counterparty)
    else none
  match described with
  | none => pure { scan with outputs }
  | some (kind, counterparty) =>
      pure {
        outputs
        history := retainNewestWalletHistory historyLimit scan.history {
          kind
          txid := hexEncode txid.1
          height := some found.height
          timestamp := some found.timestamp
          confirmations := found.confirmations
          status := walletStatus immature
          netAmountAtoms := signedWalletDelta created.wallet inputs.wallet
          feeBurnedAtoms := toString feeBurned
          counterparty } }

/-! ## One block -/

def replayCoinbaseOutput (scan : HistoryOutputs × UInt64 × Bool) (created : OutPoint × TxOutput) :
    Outcome WalletHistoryError (HistoryOutputs × UInt64 × Bool) := do
  let (outputs, mined, immature) := scan
  let (outpoint, output) := created
  let mined ←
    if output.lock = .key destination then mapErr .wallet (checkedWalletAdd mined output.value)
    else pure mined
  pure (outputs.insert outpoint output, mined,
    immature || walletImmature destination nextHeight output)

def replayCoinbase (found : HistoryBlock) (scan : HistoryScan) (block : Block) :
    Outcome WalletHistoryError HistoryScan := do
  let coinbaseTxid := block.coinbaseOutpointId P
  let (outputs, mined, immature) ← (outpointsOf coinbaseTxid block.coinbase.outputs).foldlM
    (replayCoinbaseOutput destination nextHeight) (scan.outputs, 0, false)
  if mined > 0 then
    pure {
      outputs
      history := retainNewestWalletHistory historyLimit scan.history {
        kind := "mined"
        txid := hexEncode coinbaseTxid.1
        height := some found.height
        timestamp := some found.timestamp
        confirmations := found.confirmations
        status := walletStatus immature
        netAmountAtoms := toString mined
        feeBurnedAtoms := "0"
        counterparty := none } }
  else pure { scan with outputs }

/-- `accepted_height.saturating_sub(height).saturating_add(1)`. -/
def walletConfirmations (acceptedHeight height : UInt64) : UInt64 :=
  saturatingAdd (if height ≤ acceptedHeight then acceptedHeight - height else 0) 1

def replayBlock (acceptedHeight : UInt64) (scan : HistoryScan) (block : Block) :
    Outcome WalletHistoryError HistoryScan := do
  let found : HistoryBlock := {
    height := block.challenge.height
    timestamp := block.challenge.timestamp
    confirmations := walletConfirmations acceptedHeight block.challenge.height }
  let scan ← replayCoinbase P destination nextHeight historyLimit found scan block
  block.transactions.foldlM (replayTransaction P destination nextHeight historyLimit found) scan

end

/-! ## The active chain -/

namespace Node

variable (P : Platform) (node : Node) (destination : Bytes32) (acceptedHeight : UInt64)
  (historyLimit : Nat)

def replayActive (scan : HistoryScan) (blockId : Bytes32) :
    Outcome WalletHistoryError HistoryScan := do
  let indexed ← okOr (node.index.blocks.lookup blockId) (.corruptLog .absentBlock)
  let block ← mapErr (fun error => .corruptLog (.decode error))
    (decodeBlock P indexed.canonical node.params.networkId)
  replayBlock P destination node.state.nextHeight historyLimit acceptedHeight scan block

def confirmedWalletHistory : Outcome WalletHistoryError (List WalletHistoryEntry) := do
  let scan ← (node.index.activeChain.drop 1).foldlM
    (node.replayActive P destination acceptedHeight historyLimit) { outputs := ∅, history := [] }
  pure scan.history

end Node

/-! ## What a key owns -/

def ownedValue (destination : Bytes32) (output : TxOutput) : Nat :=
  if output.lock = .key destination then output.value.toNat else 0

def UtxoSet.ownedValue (destination : Bytes32) (utxos : UtxoSet) : Nat :=
  weight (CommonFoundry.ownedValue destination) utxos.outputs

end CommonFoundry
