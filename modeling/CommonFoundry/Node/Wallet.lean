/-
# `CommonFoundry.Node.Wallet` — the two ways a node's test wallet spends

`send_from_dev_wallet` pays an amount out of the largest outputs of the wallet, and
`consolidate_dev_wallet` puts its smallest ones together.  Both read the unspent outputs that
no pending transaction spends, sign one transaction, and submit it.

The unspent outputs are in a hash map, which is read in any order: `iteration` is that order.
-/
import CommonFoundry.Lib.Greedy
import CommonFoundry.Node.MempoolInvariant
import CommonFoundry.Node.Pool
import Mathlib.Data.List.Sort
import Mathlib.Data.Prod.Lex

namespace CommonFoundry

open Lib Lib.Outcome

/-- The variants of `NodeError` that only the wallet returns. -/
inductive WalletError where
  | invalidWalletRecipient
  | walletAmountOverflow
  | walletZeroAmount
  | walletFundsImmature (immature required : UInt64)
  | walletInsufficientFunds (available required : UInt64)
  | walletInputLimit (selected required : UInt64)
  | invalidConsolidationMaxInputs
  | walletNotEnoughUtxos (count : Nat)
  | walletConsolidationFee (input : UInt64)
  | node (error : NodeError)

/-- The key that a node read from its data directory, and whether it is the shared one. -/
structure DevWallet where
  signingKey : SigningKey
  legacyShared : Bool

def legacyDevWalletWarning : String :=
  "Devnet-0 legacy wallet: this upgraded data directory retains its original demonstration key " ++
    "so existing test coins remain available."

def localDevWalletWarning : String :=
  "Devnet-0 test wallet: back up wallet.key if you want to test wallet recovery."

namespace DevWallet

def destination (P : Platform) (wallet : DevWallet) : Bytes32 := P.publicKey wallet.signingKey

def warning (wallet : DevWallet) : String :=
  if wallet.legacyShared then legacyDevWalletWarning else localDevWalletWarning

end DevWallet

/-! ## Signing -/

/-- `sign_all`: the public keys first, and then the signatures over all of them. -/
def Transaction.signAll (P : Platform) (transaction : Transaction) (keys : List SigningKey) :
    Outcome ChainError Transaction := do
  require (keys.length = transaction.inputs.length) .malformedSignature
  let inputs ← (transaction.inputs.zip keys).mapM fun (input, key) =>
    match input.witness with
    | .key _ _ => pure { input with witness := .key (P.publicKey key) [] }
    | _ => fail .wrongWitness
  let digest := { transaction with inputs }.signingDigest P
  let inputs ← (inputs.zip keys).mapM fun (input, key) =>
    match input.witness with
    | .key publicKey _ => pure { input with witness := .key publicKey (P.sign key digest).1 }
    | _ => fail .wrongWitness
  pure { transaction with inputs }

/-- The input that a wallet makes, before it is signed. -/
def unsignedInput (previous : OutPoint) : TxInput where
  previous
  witness := .key zero32 []

/-! ## Choosing outputs -/

def checkedWalletAdd (left right : UInt64) : Outcome WalletError UInt64 :=
  okOr (checkedAdd left right) .walletAmountOverflow

/-- The sum of values in the order of a list, or an overflow. -/
def checkedWalletSum (values : List UInt64) : Outcome WalletError UInt64 :=
  values.foldlM checkedWalletAdd 0

/-- The comparison of outpoints: the transaction, and then the index. -/
def outPointKey (outpoint : OutPoint) : Bytes32 ×ₗ Nat :=
  toLex (outpoint.txid, outpoint.index.toNat)

/-- The comparison of a send: the larger value first. -/
def sendKey (candidate : OutPoint × UInt64) : Natᵒᵈ ×ₗ Bytes32 ×ₗ Nat :=
  toLex (OrderDual.toDual candidate.2.toNat, outPointKey candidate.1)

/-- The comparison of a consolidation: the smaller value first. -/
def consolidateKey (candidate : OutPoint × UInt64) : Nat ×ₗ Bytes32 ×ₗ Nat :=
  toLex (candidate.2.toNat, outPointKey candidate.1)

/-- `sort_unstable_by` with the comparison of the keys. -/
def sortBy {α K : Type} [LinearOrder K] (key : α → K) (l : List α) : List α :=
  l.insertionSort fun left right => key left ≤ key right

structure WalletCoinSelection where
  outpoints : List OutPoint
  selectedValue : UInt64
  available : UInt64

/-- The loop of `select_send_utxos`. -/
def selectLoop (required : UInt64) : List (OutPoint × UInt64) → List OutPoint → UInt64 →
    Outcome WalletError (List OutPoint × UInt64)
  | [], outpoints, selectedValue => pure (outpoints, selectedValue)
  | (outpoint, value) :: rest, outpoints, selectedValue => do
      let selectedValue ← checkedWalletAdd selectedValue value
      if selectedValue ≥ required then pure (outpoints ++ [outpoint], selectedValue)
      else selectLoop required rest (outpoints ++ [outpoint]) selectedValue

def selectSendUtxos (candidates : List (OutPoint × UInt64)) (required : UInt64) :
    Outcome WalletError WalletCoinSelection := do
  let available ← checkedWalletSum (candidates.map (·.2))
  let (outpoints, selectedValue) ←
    selectLoop required ((sortBy sendKey candidates).take maxTransactionInputs) [] 0
  pure { outpoints, selectedValue, available }

/-! ## Sending -/

/-- The numbers are texts in the source. -/
structure WalletSendResponse where
  network : String
  devnetOnly : Bool
  insecureDemoWallet : Bool
  warning : String
  txid : String
  amountAtoms : String
  feeBurnedAtoms : String
  changeAtoms : String
  mempoolTransactions : Nat
  mempoolBytes : Nat

structure WalletConsolidateResponse where
  network : String
  devnetOnly : Bool
  insecureDemoWallet : Bool
  warning : String
  txid : String
  inputsConsolidated : Nat
  inputAtoms : String
  outputAtoms : String
  feeBurnedAtoms : String
  mempoolTransactions : Nat
  mempoolBytes : Nat

def walletNetwork : String := "CommonFoundry Devnet-0"

section

variable (P : Platform)

/-- Signing, and the fee of the transaction that comes of it. -/
def signWalletTransaction (wallet : DevWallet) (transaction : Transaction) (feeBurned : UInt64) :
    Outcome WalletError Transaction := do
  let signed ← mapErr (fun error => .node (.chain error))
    (transaction.signAll P (List.replicate transaction.inputs.length wallet.signingKey))
  let encoded ← mapErr (fun error => .node (.wire error)) (encodeTransaction P signed)
  let minimumFee := requiredRelayFee encoded.length
  require (¬feeBurned < minimumFee) (.node (.mempoolFeeTooLow minimumFee feeBurned))
  pure signed

namespace Node

variable (wallet : DevWallet) (iteration : List (OutPoint × TxOutput)) (node : Node)

/-- One turn of the loop of `send_from_dev_wallet` over the unspent outputs. -/
def collectCandidate (reserved : Finset OutPoint) (found : List (OutPoint × UInt64) × UInt64)
    (entry : OutPoint × TxOutput) : Outcome WalletError (List (OutPoint × UInt64) × UInt64) := do
  let (candidates, immature) := found
  let (outpoint, output) := entry
  if output.lock ≠ .key (wallet.destination P) then pure (candidates, immature)
  else if node.state.nextHeight < output.spendableHeight then
    let immature ← checkedWalletAdd immature output.value
    pure (candidates, immature)
  else if outpoint ∉ reserved then pure (candidates ++ [(outpoint, output.value)], immature)
  else pure (candidates, immature)

/-- `send_from_dev_wallet` up to the transaction, with the change. -/
def buildSend (recipient : Bytes32) (amount feeBurned : UInt64) :
    Outcome WalletError (Transaction × UInt64) := do
  require (P.verifyingKey recipient) .invalidWalletRecipient
  require (¬amount = 0) .walletZeroAmount
  let required ← okOr (checkedAdd amount feeBurned) .walletAmountOverflow
  let destination := wallet.destination P
  let reserved := mempoolSpentInputs node.mempool.entries
  let (candidates, immature) ← iteration.foldlM (node.collectCandidate P wallet reserved) ([], 0)
  let selection ← selectSendUtxos candidates required
  if selection.selectedValue < required then
    if selection.available ≥ required then
      fail (.walletInputLimit selection.selectedValue required)
    else do
      let availableWithImmature ← checkedWalletAdd selection.available immature
      if availableWithImmature ≥ required then fail (.walletFundsImmature immature required)
      else fail (.walletInsufficientFunds selection.available required)
  else do
    let change := selection.selectedValue - required
    let payment : TxOutput :=
      { value := amount, lock := .key recipient, spendableHeight := node.state.nextHeight }
    let changeOutput : TxOutput :=
      { value := change, lock := .key destination, spendableHeight := node.state.nextHeight }
    let transaction ← signWalletTransaction P wallet {
      networkId := node.params.networkId
      version := transactionVersion
      inputs := selection.outpoints.map unsignedInput
      outputs := payment :: if change > 0 then [changeOutput] else [] } feeBurned
    pure (transaction, change)

def sendFromDevWallet (recipient : Bytes32) (amount feeBurned : UInt64) :
    Outcome WalletError WalletSendResponse × Node :=
  match node.buildSend P wallet iteration recipient amount feeBurned with
  | .error fault => (.error fault, node)
  | .ok (transaction, change) =>
      match node.submitTransaction P transaction with
      | (.error fault, node) => (mapErr .node (.error fault), node)
      | (.ok entry, node) =>
          (.ok {
            network := walletNetwork
            devnetOnly := true
            insecureDemoWallet := true
            warning := wallet.warning
            txid := hexEncode entry.txid.1
            amountAtoms := toString amount
            feeBurnedAtoms := toString entry.feeBurned
            changeAtoms := toString change
            mempoolTransactions := node.mempool.entries.length
            mempoolBytes := node.mempool.bytes }, node)

/-! ## Consolidating -/

/-- The unspent outputs that `consolidate_dev_wallet` may take. -/
def consolidationCandidates : List (OutPoint × UInt64) :=
  (iteration.filter fun (outpoint, output) =>
    output.lock = .key (wallet.destination P) ∧ node.state.nextHeight ≥ output.spendableHeight ∧
      outpoint ∉ mempoolSpentInputs node.mempool.entries).map
    fun (outpoint, output) => (outpoint, output.value)

/-- `consolidate_dev_wallet` up to the transaction, with the values on both sides. -/
def buildConsolidation (feeBurned : UInt64) (maxInputs : Nat) :
    Outcome WalletError (Transaction × UInt64 × UInt64) := do
  require (2 ≤ maxInputs ∧ maxInputs ≤ maxTransactionInputs) .invalidConsolidationMaxInputs
  let candidates := sortBy consolidateKey (node.consolidationCandidates P wallet iteration)
  let selected := candidates.take maxInputs
  require (¬selected.length < 2) (.walletNotEnoughUtxos selected.length)
  let inputAtoms ← checkedWalletSum (selected.map (·.2))
  let outputAtoms ← okOr ((checkedSub inputAtoms feeBurned).filter (· > 0))
    (.walletConsolidationFee inputAtoms)
  let transaction ← signWalletTransaction P wallet {
    networkId := node.params.networkId
    version := transactionVersion
    inputs := selected.map fun (previous, _) => unsignedInput previous
    outputs := [{
      value := outputAtoms
      lock := .key (wallet.destination P)
      spendableHeight := node.state.nextHeight }] } feeBurned
  pure (transaction, inputAtoms, outputAtoms)

def consolidateDevWallet (feeBurned : UInt64) (maxInputs : Nat) :
    Outcome WalletError WalletConsolidateResponse × Node :=
  match node.buildConsolidation P wallet iteration feeBurned maxInputs with
  | .error fault => (.error fault, node)
  | .ok (transaction, inputAtoms, outputAtoms) =>
      match node.submitTransaction P transaction with
      | (.error fault, node) => (mapErr .node (.error fault), node)
      | (.ok entry, node) =>
          (.ok {
            network := walletNetwork
            devnetOnly := true
            insecureDemoWallet := true
            warning := wallet.warning
            txid := hexEncode entry.txid.1
            inputsConsolidated := transaction.inputs.length
            inputAtoms := toString inputAtoms
            outputAtoms := toString outputAtoms
            feeBurnedAtoms := toString entry.feeBurned
            mempoolTransactions := node.mempool.entries.length
            mempoolBytes := node.mempool.bytes }, node)

end Node

end

end CommonFoundry
