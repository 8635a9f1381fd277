/-
# `CommonFoundry.Consensus.ChainState` — validating a block and committing it

`ChainState` of `chain.rs`, and the checks a block passes on its way into it.

Validation does not change the state: `validateBlock` returns a token with the
delta and the facts of the state it was checked against, and `commitValidated`
applies the token if those facts still hold.  The caller writes the block to
disk in between.

The list of raw timestamps is never empty, which is what lets the median of its
last eleven entries be taken without a bounds check.
-/
import Mathlib.Data.List.Sort
import CommonFoundry.Consensus.Wire
import CommonFoundry.Consensus.ApplyTransaction

namespace CommonFoundry

open Lib Lib.Outcome

/-! ## Resource limits -/

structure TransactionSetValidation where
  totalBurnedFees : UInt64
  aggregateInputs : Nat
  aggregateOutputs : Nat
  signatureChecks : Nat
  deriving DecidableEq

/-- The signatures of one witness have the canonical length. -/
def checkSignatureLengths : InputWitness → Outcome ChainError Unit
  | .key _ signature =>
      require (signature.length = consensusSignatureBytes) .signatureLength
  | .inferenceSettlement _ settlement =>
      require (¬(settlement.state.customerSignature.length ≠ consensusSignatureBytes ∨
        settlement.providerSignature.length ≠ consensusSignatureBytes)) .signatureLength
  | .inferenceRefund _ => pure ()

/-- One turn of the loop of `validate_transaction_resources`. -/
def addTransactionResources (totals : TransactionSetValidation) (transaction : Transaction) :
    Outcome ChainError TransactionSetValidation := do
  require (¬transaction.inputs.length > maxTransactionInputs) .transactionInputLimit
  require (¬transaction.outputs.length > maxTransactionOutputs) .transactionOutputLimit
  let signatureChecks ← transaction.inputs.foldlM (fun total input => do
    checkSignatureLengths input.witness
    pure (total + input.witness.signatureChecks)) totals.signatureChecks
  pure { totals with
    aggregateInputs := totals.aggregateInputs + transaction.inputs.length
    aggregateOutputs := totals.aggregateOutputs + transaction.outputs.length
    signatureChecks }

def validateTransactionResources (transactions : List Transaction) :
    Outcome ChainError TransactionSetValidation := do
  let totals ← transactions.foldlM addTransactionResources
    { totalBurnedFees := 0, aggregateInputs := 0, aggregateOutputs := 0, signatureChecks := 0 }
  require (¬(totals.aggregateInputs > maxBlockAggregateInputs ∨
    totals.aggregateOutputs > maxBlockAggregateOutputs)) .blockAggregateLimit
  require (¬totals.signatureChecks > maxBlockSignatureChecks) .blockSignatureLimit
  pure totals

def validateTransactionSetResources (transactions : List Transaction) :
    Outcome ChainError TransactionSetValidation := do
  require (¬transactions.length > maxBlockTransactions) .blockTransactionLimit
  validateTransactionResources transactions

def validateBlockResources (block : Block) : Outcome ChainError Unit := do
  require (¬block.transactions.length > maxBlockTransactions) .blockTransactionLimit
  require (¬block.coinbase.outputs.length > maxCoinbaseOutputs) .coinbaseOutputLimit
  let _ ← validateTransactionResources block.transactions

/-! ## Coinbase and proof -/

/-- The key the first coinbase output pays. -/
def minerDestination (coinbase : Coinbase) : Outcome ChainError Bytes32 :=
  match coinbase.outputs with
  | { lock := .key destination, .. } :: _ => pure destination
  | _ => fail .coinbaseLayout

def outputValueAt (outputs : List TxOutput) (index : Nat) : UInt64 :=
  match outputs[index]? with
  | some output => output.value
  | none => 0

def validateCoinbase (P : Platform) (coinbase : Coinbase) (allocation : Allocation)
    (fixedDestinations : FixedRewardDestinations) : Outcome ChainError Unit := do
  let destination ← minerDestination coinbase
  require (P.verifyingKey destination) .coinbaseLayout
  let expected := Coinbase.new coinbase.height allocation destination fixedDestinations
  require (coinbase.outputs = expected.outputs) .coinbaseLayout
  let claim : CoinbaseClaim := {
    miner := outputValueAt coinbase.outputs 0
    steward := outputValueAt coinbase.outputs 1
    community := outputValueAt coinbase.outputs 2 }
  require (¬(claim.miner ≠ allocation.miner ∨ claim.steward ≠ allocation.steward ∨
    claim.community ≠ allocation.community)) .coinbaseLayout

def mapPowError : PowError → ChainError
  | .v1 error => .proof error
  | .v2 => .invalidV2Proof
  | .wrongProofType => .wrongProofType
  | .parameterMismatch => .powParameterMismatch
  | .wrongNetwork => .wrongNetwork

/-- Every transaction is of this network and of the supported version. -/
def checkTransactionHeaders (networkId : Bytes32) (transactions : List Transaction) :
    Outcome ChainError Unit :=
  transactions.forM fun transaction => do
    require (transaction.networkId = networkId) .wrongNetwork
    require (transaction.version = transactionVersion) .unsupportedTransactionVersion

/-! ## `UtxoSet::validate_delta` -/

section

variable (P : Platform)

/-- The checks of `validate_delta` that do not look at the unspent set. -/
def validateBlockHeader (block : Block) (verifier : ConsensusPowVerifier)
    (params : NetworkParams) : Outcome ChainError Unit := do
  validateBlockResources block
  require (block.version = blockVersion) .unsupportedBlockVersion
  require (block.challenge.networkId = params.networkId) .wrongNetwork
  checkTransactionHeaders params.networkId block.transactions
  let _ ← mapErr (fun _ => .blockEncoding) (encodeBlock P block)
  require (block.challenge.height = block.coinbase.height) .heightMismatch
  require (block.transactionRoot P = block.challenge.transactionRoot) .merkleRoot
  mapErr mapPowError (verifier.verify block.challenge block.proof)

/-- The transactions of a block, then its coinbase, over any view of the set. -/
def applyBlock {σ : Type} [UtxoView σ] (view : σ) (block : Block) (params : NetworkParams) :
    Outcome ChainError (UInt64 × σ) := do
  let applied ← applyTransactions P block.challenge.height params.networkId
    { fee := 0, view, spent := ∅ } block.transactions
  let allocation ← mapErr .economics
    (params.monetaryPolicy.allocation block.challenge.height applied.fee)
  validateCoinbase P block.coinbase allocation params.rewards
  let view ← insertOutputs applied.view (block.coinbaseOutpointId P) block.coinbase.outputs
  pure (applied.fee, view)

def UtxoSet.validateDelta (utxos : UtxoSet) (block : Block) (verifier : ConsensusPowVerifier)
    (params : NetworkParams) : Outcome ChainError (UInt64 × UtxoDelta) := do
  validateBlockHeader P block verifier params
  let (fees, candidate) ← applyBlock P (UtxoOverlay.new utxos) block params
  pure (fees, candidate.delta)

end

/-! ## Chain state -/

/-- The median of the last eleven timestamps, the upper one of two. -/
def medianTimestamp (timestamps : List UInt64) (h : timestamps ≠ []) : UInt64 :=
  let window :=
    (timestamps.drop (timestamps.length - medianTimeWindow)).insertionSort (· ≤ ·)
  have hwindow : window.length / 2 < window.length := by
    have hpos : 0 < timestamps.length := List.length_pos_iff.mpr h
    have hlen : window.length = timestamps.length - (timestamps.length - medianTimeWindow) := by
      rw [List.length_insertionSort, List.length_drop]
    have hw : medianTimeWindow = 11 := rfl
    omega
  window[window.length / 2]

structure ChainState where
  params : NetworkParams
  utxos : UtxoSet
  history : List HeaderWork
  rawTimestamps : List UInt64
  tip : Bytes32
  nextHeight : UInt64
  verifier : ConsensusPowVerifier
  rawTimestamps_ne : rawTimestamps ≠ []

/-- `ValidatedBlock`: the transition, and the facts of the state it starts from. -/
structure ValidatedBlock where
  params : NetworkParams
  baseTip : Bytes32
  baseNextHeight : UInt64
  baseExpectedTarget : Bytes32
  baseMedianTimePast : UInt64
  baseHistoryLen : Nat
  baseTimestampLen : Nat
  delta : UtxoDelta
  fees : UInt64
  timestamp : UInt64
  effectiveTimestamp : UInt64
  target : Bytes32
  nextTip : Bytes32
  nextHeight : UInt64

namespace ChainState

section

variable (P : Platform)

def new (params : NetworkParams) (verifier : ConsensusPowVerifier) :
    Outcome ChainError ChainState := do
  mapErr .network (params.validateForBoundVerifier P)
  require (verifier.parameters = params.pow) .powParameterMismatch
  pure {
    params
    utxos := .empty
    history := [{ timestamp := params.genesisTimestamp, target := params.powLimit }]
    rawTimestamps := [params.genesisTimestamp]
    tip := params.genesisHash
    nextHeight := 1
    verifier
    rawTimestamps_ne := List.cons_ne_nil _ _ }

def expectedTarget (state : ChainState) : Outcome ChainError Bytes32 :=
  mapErr .difficulty (nextWorkTarget state.history state.params.powLimit)

def medianTimePast (state : ChainState) : UInt64 :=
  medianTimestamp state.rawTimestamps state.rawTimestamps_ne

/-- A transaction set against the unspent set at the next height. -/
def validateTransactionsForNextBlock (state : ChainState) (transactions : List Transaction) :
    Outcome ChainError TransactionSetValidation := do
  let validation ← validateTransactionSetResources transactions
  checkTransactionHeaders state.params.networkId transactions
  transactions.forM fun transaction => do
    let _ ← mapErr (fun _ => .blockEncoding) (encodeTransaction P transaction)
  let applied ← applyTransactions P state.nextHeight state.params.networkId
    { fee := validation.totalBurnedFees, view := UtxoOverlay.new state.utxos, spent := ∅ }
    transactions
  pure { validation with totalBurnedFees := applied.fee }

/-- `HeaderWork::timestamp` of the successor: the median of the window it ends. -/
def effectiveTimestamp (state : ChainState) (timestamp : UInt64) : UInt64 :=
  medianTimestamp
    (state.rawTimestamps.drop (state.rawTimestamps.length - (medianTimeWindow - 1)) ++ [timestamp])
    (List.append_ne_nil_of_right_ne_nil _ (List.cons_ne_nil _ _))

def validateBlock (state : ChainState) (block : Block) (context : BlockValidationContext) :
    Outcome ChainError ValidatedBlock := do
  require (block.version = blockVersion) .unsupportedBlockVersion
  require (block.challenge.networkId = state.params.networkId) .wrongNetwork
  require (block.challenge.height = state.nextHeight)
    (.unexpectedHeight state.nextHeight block.challenge.height)
  let nextHeight ← okOr (checkedAdd state.nextHeight 1) .heightExhausted
  let _ ← okOr (checkedAdd block.challenge.height coinbaseMaturity) .heightExhausted
  require (block.challenge.previousBlock = state.tip) .previousBlock
  require (¬block.challenge.timestamp ≤ state.medianTimePast) .timestampNotAfterMedian
  let maximumTimestamp ← okOr (checkedAdd context.nowUnixSeconds state.params.maxFutureOffsetSecs)
    .invalidValidationTime
  require (¬block.challenge.timestamp > maximumTimestamp) .timestampTooFarInFuture
  let expectedTarget ← state.expectedTarget
  require (block.challenge.target = expectedTarget) .unexpectedTarget
  let (fees, delta) ← state.utxos.validateDelta P block state.verifier state.params
  pure {
    params := state.params
    baseTip := state.tip
    baseNextHeight := state.nextHeight
    baseExpectedTarget := expectedTarget
    baseMedianTimePast := state.medianTimePast
    baseHistoryLen := state.history.length
    baseTimestampLen := state.rawTimestamps.length
    delta
    fees
    timestamp := block.challenge.timestamp
    effectiveTimestamp := state.effectiveTimestamp block.challenge.timestamp
    target := block.challenge.target
    nextTip := block.blockId P
    nextHeight }

end

/-- The facts of the state that a token is checked against. -/
def Current (state : ChainState) (validated : ValidatedBlock) : Prop :=
  state.params = validated.params ∧ state.tip = validated.baseTip ∧
    state.nextHeight = validated.baseNextHeight ∧
    state.history.length = validated.baseHistoryLen ∧
    state.rawTimestamps.length = validated.baseTimestampLen ∧
    state.medianTimePast = validated.baseMedianTimePast ∧
    state.expectedTarget.toOption = some validated.baseExpectedTarget ∧
    validated.delta.Matches state.utxos

instance (state : ChainState) (validated : ValidatedBlock) :
    Decidable (state.Current validated) :=
  inferInstanceAs (Decidable (_ ∧ _ ∧ _ ∧ _ ∧ _ ∧ _ ∧ _ ∧ _))

/-- The state after a transition. -/
def advance (state : ChainState) (validated : ValidatedBlock) : ChainState where
  params := state.params
  utxos := validated.delta.apply state.utxos
  history := state.history ++
    [{ timestamp := validated.effectiveTimestamp, target := validated.target }]
  rawTimestamps := state.rawTimestamps ++ [validated.timestamp]
  tip := validated.nextTip
  nextHeight := validated.nextHeight
  verifier := state.verifier
  rawTimestamps_ne := List.append_ne_nil_of_left_ne_nil state.rawTimestamps_ne _

/-- `commit_validated`: nothing is changed when the token is stale. -/
def commitValidated (state : ChainState) (validated : ValidatedBlock) :
    Outcome ChainError (UInt64 × ChainState) := do
  require (state.Current validated) .staleValidatedBlock
  pure (validated.fees, state.advance validated)

def validateAndApply (P : Platform) (state : ChainState) (block : Block)
    (context : BlockValidationContext) : Outcome ChainError (UInt64 × ChainState) := do
  let validated ← state.validateBlock P block context
  state.commitValidated validated

end ChainState

end CommonFoundry
