/-
# `CommonFoundry.Consensus.ApplyTransaction` — the two transaction rules

`UtxoOverlay::apply_transaction`, `apply_channel_transaction` and
`insert_output`, over anything that offers the six operations of `UtxoView`.

The outpoints spent so far in the block are a set beside the view: an output
that is created, spent and created again inside one block would otherwise be
spendable twice.  An ordinary transaction reads all its inputs before it stages
anything; a channel transaction has exactly one.

`applyTransaction_refines` carries a run on the overlay to the same run on the
set it stands for.
-/
import CommonFoundry.Consensus.Utxo

namespace CommonFoundry

open Lib Lib.Outcome

section Rules

variable {σ : Type} [UtxoView σ]

/-! ## Creating outputs -/

/-- `insert_output`. -/
def insertOutput (view : σ) (outpoint : OutPoint) (output : TxOutput) : Outcome ChainError σ := do
  require (¬output.value = 0) .zeroValueOutput
  require (∀ channelId ∈ output.channel,
    ¬(UtxoView.containsActiveChannel view channelId ∨
      UtxoView.containsRetiredChannel view channelId)) .duplicateChannel
  require (¬(UtxoView.get view outpoint).isSome) .txidCollision
  let view :=
    match output.channel with
    | some channelId => UtxoView.stageActiveChannel view channelId true
    | none => view
  pure (UtxoView.stageOutput view outpoint (some output))

/-- The outpoints of the outputs of one transaction: its identifier and the
position, `index as u32`. -/
def outpointsOf (txid : Bytes32) (outputs : List TxOutput) : List (OutPoint × TxOutput) :=
  outputs.zipIdx.map fun (output, index) => ({ txid, index := UInt32.ofNat index }, output)

/-- `insert_output` for every output of a transaction or coinbase. -/
def insertOutputs (view : σ) (txid : Bytes32) (outputs : List TxOutput) :
    Outcome ChainError σ :=
  (outpointsOf txid outputs).foldlM
    (fun view (outpoint, output) => insertOutput view outpoint output) view

/-- The checked sum of the output values. -/
def outputTotal (outputs : List TxOutput) : Outcome ChainError UInt64 :=
  outputs.foldlM (fun sum output => okOr (checkedAdd sum output.value) .amountOverflow) 0

/-- The set of outpoints spent so far, with one more that must be new. -/
def markSpent (spent : Finset OutPoint) (outpoint : OutPoint) :
    Outcome ChainError (Finset OutPoint) := do
  require (outpoint ∉ spent) .duplicateInput
  pure (insert outpoint spent)

/-! ## Ordinary transactions -/

section

variable (P : Platform)

/-- The checks on one input of an ordinary transaction, and its value. -/
def checkKeyInput (view : σ) (height : UInt64) (digest : Bytes32) (input : TxInput) :
    Outcome ChainError UInt64 := do
  let previous ← okOr (UtxoView.get view input.previous) .missingInput
  require (¬height < previous.spendableHeight) (.immatureInput previous.spendableHeight)
  match previous.lock, input.witness with
  | .key owner, .key publicKey signature => do
      require (publicKey = owner) .wrongOwner
      require (P.verifyingKey publicKey) .malformedSignature
      require (P.signature signature) .malformedSignature
      require (P.verify publicKey digest signature) .invalidSignature
      pure previous.value
  | _, _ => fail .wrongWitness

/-- One turn of the input loop: the outpoints spent and the total so far. -/
def spendKeyInput (view : σ) (height : UInt64) (digest : Bytes32)
    (acc : Finset OutPoint × UInt64) (input : TxInput) :
    Outcome ChainError (Finset OutPoint × UInt64) := do
  let spent ← markSpent acc.1 input.previous
  let value ← checkKeyInput P view height digest input
  let total ← okOr (checkedAdd acc.2 value) .amountOverflow
  pure (spent, total)

/-- `stage_output(input.previous, None)` for every input. -/
def eraseInputs (view : σ) (inputs : List TxInput) : σ :=
  inputs.foldl (fun view input => UtxoView.stageOutput view input.previous none) view

/-- What the application of a transaction leaves: the fee, the view and the
outpoints spent so far in the block. -/
structure Applied (σ : Type) where
  fee : UInt64
  view : σ
  spent : Finset OutPoint

/-- The part of `apply_transaction` after the channel branch. -/
def applyKeyTransaction (view : σ) (transaction : Transaction) (height : UInt64)
    (spent : Finset OutPoint) : Outcome ChainError (Applied σ) := do
  let digest := transaction.signingDigest P
  let (spent, inputTotal) ←
    transaction.inputs.foldlM (spendKeyInput P view height digest) (spent, 0)
  let total ← outputTotal transaction.outputs
  require (¬total > inputTotal) .createsValue
  let view ← insertOutputs (eraseInputs view transaction.inputs) (transaction.txid P)
    transaction.outputs
  pure { fee := inputTotal - total, view, spent }

/-! ## Channel transactions -/

/-- `channel_outputs`: the payouts that are not zero, provider first. -/
def channelOutputs (providerValue : UInt64) (providerKey : Bytes32) (customerValue : UInt64)
    (customerKey : Bytes32) (height : UInt64) : List TxOutput :=
  (if providerValue > 0 then
      [{ value := providerValue, lock := .key providerKey, spendableHeight := height }]
    else []) ++
  (if customerValue > 0 then
      [{ value := customerValue, lock := .key customerKey, spendableHeight := height }]
    else [])

/-- What both closing witnesses show first: terms of this network, of this
channel, for this deposit. -/
def checkTerms (terms : ChannelTerms) (networkId channelId : Bytes32) (value : UInt64) :
    Outcome ChainError Unit := do
  require (terms.networkId = networkId) .wrongNetwork
  let termsId ← mapErr .channel (terms.channelId P)
  require (termsId = channelId) .wrongWitness
  require (terms.deposit = value) .channelDeposit

/-- The outputs a closing witness commits to, and its fee. -/
def closePayout (witness : InputWitness) (networkId channelId : Bytes32) (value height : UInt64) :
    Outcome ChainError (List TxOutput × UInt64) :=
  match witness with
  | .inferenceSettlement terms settlement => do
      checkTerms P terms networkId channelId value
      mapErr .channel (settlement.verify P terms)
      let state := settlement.state.state
      pure (channelOutputs state.providerPayment terms.providerKey state.customerRefund
        terms.customerKey height, state.closeFeeBurn)
  | .inferenceRefund terms => do
      checkTerms P terms networkId channelId value
      let refund ← mapErr .channel (terms.refund P height)
      pure (channelOutputs 0 terms.providerKey refund.customerAmount terms.customerKey height,
        refund.feeBurn)
  | .key .. => fail .wrongWitness

/-- The one input of a channel transaction. -/
def soleInput (transaction : Transaction) : Outcome ChainError TxInput :=
  match transaction.inputs with
  | [input] => pure input
  | _ => fail .channelCloseShape

/-- The channel an output is locked to. -/
def lockedChannel (output : TxOutput) : Outcome ChainError Bytes32 :=
  okOr output.channel .wrongWitness

/-- `apply_channel_transaction`. -/
def applyChannelTransaction (view : σ) (transaction : Transaction) (height : UInt64)
    (networkId : Bytes32) (spent : Finset OutPoint) : Outcome ChainError (Applied σ) := do
  let input ← soleInput transaction
  let spent ← markSpent spent input.previous
  let previous ← okOr (UtxoView.get view input.previous) .missingInput
  require (¬height < previous.spendableHeight) (.immatureInput previous.spendableHeight)
  let channelId ← lockedChannel previous
  let (expectedOutputs, fee) ← closePayout P input.witness networkId channelId previous.value height
  require (transaction.outputs = expectedOutputs) .channelCloseShape
  let total ← outputTotal transaction.outputs
  let paid ← okOr (checkedAdd total fee) .amountOverflow
  require (paid = previous.value) .channelCloseShape
  let view := UtxoView.stageOutput view input.previous none
  let view := UtxoView.stageActiveChannel view channelId false
  let view := UtxoView.stageRetiredChannel view channelId true
  let view ← insertOutputs view (transaction.txid P) transaction.outputs
  pure { fee, view, spent }

/-- `apply_transaction`. -/
def applyTransaction (view : σ) (transaction : Transaction) (height : UInt64)
    (networkId : Bytes32) (spent : Finset OutPoint) : Outcome ChainError (Applied σ) := do
  require (transaction.networkId = networkId) .wrongNetwork
  require (transaction.version = transactionVersion) .unsupportedTransactionVersion
  require (¬transaction.inputs.isEmpty) .noInputs
  require (¬transaction.outputs.isEmpty) .noOutputs
  require (¬transaction.outputs.any fun output => output.value = 0) .zeroValueOutput
  if transaction.inputs.any fun input => !input.witness.isKey then
    applyChannelTransaction P view transaction height networkId spent
  else
    applyKeyTransaction P view transaction height spent

/-- The transaction loop of a block or a transaction set: fees are summed, the
view and the spent outpoints are threaded through. -/
def applyTransactions (height : UInt64) (networkId : Bytes32) (acc : Applied σ)
    (transactions : List Transaction) : Outcome ChainError (Applied σ) :=
  transactions.foldlM (fun acc transaction => do
    let applied ← applyTransaction P acc.view transaction height networkId acc.spent
    let fee ← okOr (checkedAdd acc.fee applied.fee) .amountOverflow
    pure { applied with fee }) acc

end

end Rules

/-! ## A run on the overlay is a run on the set

Each lemma says: the two outcomes are related by `view`, errors included. -/

section Refines

variable {σ τ : Type} [UtxoView σ] [UtxoView τ] {ok : σ → Prop} {view : σ → τ}

/-- `y` is the outcome `x` with the value mapped by `f`, and the value of `x` is good. -/
def Tracks {α β : Type} (good : α → Prop) (f : α → β) (x : Outcome ChainError α)
    (y : Outcome ChainError β) : Prop :=
  y = f <$> x ∧ ∀ a, x = .ok a → good a

theorem Tracks.pure {α β : Type} {good : α → Prop} {f : α → β} {a : α} (h : good a) :
    Tracks good f (pure a) (pure (f a)) :=
  ⟨rfl, fun b hb => by rw [pure_eq_ok] at hb; exact hb ▸ h⟩

theorem Tracks.bind {α β γ δ : Type} {good : α → Prop} {f : α → β} {good' : γ → Prop} {g : γ → δ}
    {x : Outcome ChainError α} {y : Outcome ChainError β} {k : α → Outcome ChainError γ}
    {l : β → Outcome ChainError δ} (h : Tracks good f x y)
    (hk : ∀ a, good a → Tracks good' g (k a) (l (f a))) : Tracks good' g (x >>= k) (y >>= l) := by
  obtain ⟨rfl, hgood⟩ := h
  cases x with
  | ok a => exact hk a (hgood a rfl)
  | error e => exact ⟨rfl, fun b hb => by cases hb⟩

/-- A step both runs make alike. -/
theorem Tracks.same {α γ δ : Type} {good' : γ → Prop} {g : γ → δ} {x : Outcome ChainError α}
    {k : α → Outcome ChainError γ} {l : α → Outcome ChainError δ}
    (hk : ∀ a, Tracks good' g (k a) (l a)) : Tracks good' g (x >>= k) (x >>= l) := by
  cases x with
  | ok a => exact hk a
  | error e => exact ⟨rfl, fun b hb => by cases hb⟩

theorem Tracks.foldlM {α β : Type} {ι : Type} {good : α → Prop} {f : α → β}
    {step : α → ι → Outcome ChainError α} {step' : β → ι → Outcome ChainError β} {l : List ι}
    (h : ∀ a i, good a → Tracks good f (step a i) (step' (f a) i)) :
    ∀ {a : α}, good a → Tracks good f (l.foldlM step a) (l.foldlM step' (f a)) := by
  induction l with
  | nil => exact fun ha => Tracks.pure ha
  | cons i l ih =>
      intro a ha
      rw [List.foldlM_cons, List.foldlM_cons]
      exact (h a i ha).bind fun b hb => ih hb

theorem insertOutput_refines (R : UtxoView.Refines ok view) {s : σ} (hs : ok s)
    (outpoint : OutPoint) (output : TxOutput) :
    Tracks ok view (insertOutput s outpoint output) (insertOutput (view s) outpoint output) := by
  simp only [insertOutput, R.get, R.containsActiveChannel, R.containsRetiredChannel]
  refine Tracks.same fun _ => Tracks.same fun _ => Tracks.same fun _ => ?_
  cases output.channel with
  | none =>
      obtain ⟨hok, heq⟩ := R.stageOutput outpoint (some output) hs
      exact heq ▸ Tracks.pure hok
  | some channelId =>
      obtain ⟨hactive, hactiveEq⟩ := R.stageActiveChannel channelId true hs
      obtain ⟨hok, heq⟩ := R.stageOutput outpoint (some output) hactive
      rw [hactiveEq] at heq
      exact heq ▸ Tracks.pure hok

theorem insertOutputs_refines (R : UtxoView.Refines ok view) {s : σ} (hs : ok s)
    (txid : Bytes32) (outputs : List TxOutput) :
    Tracks ok view (insertOutputs s txid outputs) (insertOutputs (view s) txid outputs) :=
  Tracks.foldlM (fun _ _ h => insertOutput_refines R h _ _) hs

theorem eraseInputs_refines (R : UtxoView.Refines ok view) (inputs : List TxInput) :
    ∀ {s : σ}, ok s → ok (eraseInputs s inputs) ∧
      view (eraseInputs s inputs) = eraseInputs (view s) inputs := by
  induction inputs with
  | nil => exact fun hs => ⟨hs, rfl⟩
  | cons input inputs ih =>
      intro s hs
      obtain ⟨hok, heq⟩ := R.stageOutput input.previous none hs
      obtain ⟨hok', heq'⟩ := ih hok
      refine ⟨hok', heq'.trans ?_⟩
      rw [heq]
      rfl

/-- The result of applying a transaction, with its view mapped. -/
def Applied.map (f : σ → τ) (applied : Applied σ) : Applied τ :=
  { fee := applied.fee, view := f applied.view, spent := applied.spent }

theorem applyKeyTransaction_refines (R : UtxoView.Refines ok view) (P : Platform) {s : σ}
    (hs : ok s) (transaction : Transaction) (height : UInt64) (spent : Finset OutPoint) :
    Tracks (fun applied => ok applied.view) (Applied.map view)
      (applyKeyTransaction P s transaction height spent)
      (applyKeyTransaction P (view s) transaction height spent) := by
  have hread : spendKeyInput P (view s) height (transaction.signingDigest P) =
      spendKeyInput P s height (transaction.signingDigest P) := by
    funext acc input
    simp only [spendKeyInput, checkKeyInput, R.get]
  simp only [applyKeyTransaction, hread]
  refine Tracks.same fun _ => Tracks.same fun _ => Tracks.same fun _ => ?_
  obtain ⟨hok, heq⟩ := eraseInputs_refines R transaction.inputs hs
  rw [← heq]
  exact (insertOutputs_refines R hok _ _).bind fun _ hview => Tracks.pure hview

theorem applyChannelTransaction_refines (R : UtxoView.Refines ok view) (P : Platform) {s : σ}
    (hs : ok s) (transaction : Transaction) (height : UInt64) (networkId : Bytes32)
    (spent : Finset OutPoint) :
    Tracks (fun applied => ok applied.view) (Applied.map view)
      (applyChannelTransaction P s transaction height networkId spent)
      (applyChannelTransaction P (view s) transaction height networkId spent) := by
  simp only [applyChannelTransaction, R.get]
  refine Tracks.same fun input => Tracks.same fun _ => Tracks.same fun _ => Tracks.same fun _ =>
    Tracks.same fun channelId => Tracks.same fun _ => Tracks.same fun _ => Tracks.same fun _ =>
    Tracks.same fun _ => Tracks.same fun _ => ?_
  obtain ⟨hok, heq⟩ := R.stageOutput input.previous none hs
  obtain ⟨hok₁, heq₁⟩ := R.stageActiveChannel channelId false hok
  obtain ⟨hok₂, heq₂⟩ := R.stageRetiredChannel channelId true hok₁
  rw [← heq, ← heq₁, ← heq₂]
  exact (insertOutputs_refines R hok₂ _ _).bind fun _ hview => Tracks.pure hview

theorem applyTransaction_refines (R : UtxoView.Refines ok view) (P : Platform) {s : σ}
    (hs : ok s) (transaction : Transaction) (height : UInt64) (networkId : Bytes32)
    (spent : Finset OutPoint) :
    Tracks (fun applied => ok applied.view) (Applied.map view)
      (applyTransaction P s transaction height networkId spent)
      (applyTransaction P (view s) transaction height networkId spent) := by
  simp only [applyTransaction]
  refine Tracks.same fun _ => Tracks.same fun _ => Tracks.same fun _ => Tracks.same fun _ =>
    Tracks.same fun _ => ?_
  split
  · exact applyChannelTransaction_refines R P hs transaction height networkId spent
  · exact applyKeyTransaction_refines R P hs transaction height spent

theorem applyTransactions_refines (R : UtxoView.Refines ok view) (P : Platform)
    {acc : Applied σ} (hs : ok acc.view) (height : UInt64) (networkId : Bytes32)
    (transactions : List Transaction) :
    Tracks (fun applied => ok applied.view) (Applied.map view)
      (applyTransactions P height networkId acc transactions)
      (applyTransactions P height networkId (acc.map view) transactions) :=
  Tracks.foldlM (f := Applied.map view)
    (fun _ _ h => (applyTransaction_refines R P h _ _ _ _).bind fun applied hview =>
      Tracks.same fun fee => Tracks.pure (f := Applied.map view) (a := { applied with fee }) hview)
    hs

end Refines

end CommonFoundry
