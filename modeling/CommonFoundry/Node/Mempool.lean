/-
# `CommonFoundry.Node.Mempool` — admission to the pool, and its revalidation

`submit_transaction`, `revalidate_mempool` and what they call.  The pool is an
ordered map by transaction identifier: the loops of the source run through it in
that order, and a template takes its transactions in that order.

The functions here take the chain state and the pool; the node puts them
together.
-/
import CommonFoundry.Lib.KeyMap
import CommonFoundry.Node.BlockIndex

namespace CommonFoundry

open Lib Lib.Outcome

def maxMempoolTransactions : Nat := 1024
def maxMempoolBytes : Nat := 512 * 1024
def minRelayFeePerKib : UInt64 := 1

structure MempoolEntry where
  txid : Bytes32
  transaction : Transaction
  encodedBytes : Nat
  feeBurned : UInt64

/-- The pool of a node: its entries, and the sum of their encoded sizes. -/
structure Mempool where
  entries : KeyMap Bytes32 MempoolEntry
  bytes : Nat

def Mempool.empty : Mempool := { entries := .empty, bytes := 0 }

/-- `mempool_spent_inputs`. -/
def mempoolSpentInputs (entries : KeyMap Bytes32 MempoolEntry) : Finset OutPoint :=
  (entries.values.flatMap fun entry => entry.transaction.inputs.map (·.previous)).toFinset

/-- `required_relay_fee`: one unit for each started kibibyte. -/
def requiredRelayFee (encodedBytes : Nat) : UInt64 :=
  let kib := min (encodedBytes + 1023) (2 ^ 64 - 1) / 1024
  let fee := (tryWord64 kib).bind fun kib => tryWord64 (kib.toNat * minRelayFeePerKib.toNat)
  max (fee.getD (UInt64.ofNat (2 ^ 64 - 1))) minRelayFeePerKib

section

variable (P : Platform)

/-- One turn of the loop of `validate_mempool_transaction`. -/
def checkMempoolInput (state : ChainState) (mempoolSpends : Finset OutPoint) (input : TxInput) :
    Outcome NodeError Unit := do
  let _ ← okOr (state.utxos.get input.previous) (.mempoolUnconfirmedInput input.previous)
  require (input.previous ∉ mempoolSpends) (.mempoolInputConflict input.previous)

def validateMempoolTransaction (state : ChainState) (transaction : Transaction)
    (encodedBytes : Nat) (mempoolSpends : Finset OutPoint) : Outcome NodeError UInt64 := do
  transaction.inputs.forM (checkMempoolInput state mempoolSpends)
  let validation ← mapErr .chain (state.validateTransactionsForNextBlock P [transaction])
  let required := requiredRelayFee encodedBytes
  require (¬validation.totalBurnedFees < required)
    (.mempoolFeeTooLow required validation.totalBurnedFees)
  pure validation.totalBurnedFees

/-- The transactions of the pool with a new one in its place. -/
def orderedTransactions (txid : Bytes32) (transaction : Transaction) :
    List (Bytes32 × MempoolEntry) → List Transaction
  | [] => [transaction]
  | (existingTxid, entry) :: rest =>
      if txid < existingTxid then
        transaction :: entry.transaction :: rest.map (·.2.transaction)
      else entry.transaction :: orderedTransactions txid transaction rest

/-- `submit_transaction`: the new entry, and the pool with it. -/
def Mempool.submit (mempool : Mempool) (state : ChainState) (transaction : Transaction) :
    Outcome NodeError (MempoolEntry × Mempool) := do
  let canonical ← mapErr .wire (encodeTransaction P transaction)
  let txid := transaction.txid P
  require (¬mempool.entries.contains txid) (.duplicateMempoolTransaction txid)
  require (¬mempool.entries.length ≥ maxMempoolTransactions) .mempoolTransactionLimit
  let nextBytes := mempool.bytes + canonical.length
  require (¬nextBytes > maxMempoolBytes) .mempoolByteLimit
  let feeBurned ← validateMempoolTransaction P state transaction canonical.length
    (mempoolSpentInputs mempool.entries)
  let _ ← mapErr .chain (state.validateTransactionsForNextBlock P
    (orderedTransactions txid transaction mempool.entries.entries))
  let entry : MempoolEntry := { txid, transaction, encodedBytes := canonical.length, feeBurned }
  pure (entry, { entries := mempool.entries.insert txid entry, bytes := nextBytes })

/-! ## After the tip has moved -/

/-- What the loop of `revalidate_mempool` has kept so far. -/
structure Retained where
  mempool : Mempool
  transactions : List Transaction
  spends : Finset OutPoint

/-- One turn of the loop: an entry stays if no transaction of the block is the
same, and it is still valid by itself and with those kept before it. -/
def retainEntry (state : ChainState) (confirmedTxids : Finset Bytes32) (retained : Retained)
    (item : Bytes32 × MempoolEntry) : Retained :=
  let (txid, entry) := item
  if txid ∈ confirmedTxids then retained
  else
    match validateMempoolTransaction P state entry.transaction entry.encodedBytes
        retained.spends with
    | .error _ => retained
    | .ok feeBurned =>
        let transactions := retained.transactions ++ [entry.transaction]
        match state.validateTransactionsForNextBlock P transactions with
        | .error _ => retained
        | .ok _ => {
            mempool := {
              entries := retained.mempool.entries.insert txid { entry with feeBurned }
              bytes := retained.mempool.bytes + entry.encodedBytes }
            transactions
            spends := retained.spends ∪ (entry.transaction.inputs.map (·.previous)).toFinset }

def Mempool.revalidate (mempool : Mempool) (state : ChainState)
    (confirmedTxids : Finset Bytes32) : Mempool :=
  (mempool.entries.entries.foldl (retainEntry P state confirmedTxids)
    { mempool := .empty, transactions := [], spends := ∅ }).mempool

end

end CommonFoundry
