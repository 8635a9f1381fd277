/-
# `CommonFoundry.Consensus.TransactionLedger` — every accepted transaction is a ledger step

Run in place, both transaction rules do one thing to the unspent set: they
consume the outpoints of the inputs and create the outputs under the
transaction's identifier.  `TransactionApplied` says so in the terms of
`Lib.Ledger`, with what the step owes to the rules of this repository: each
consumed output is authorised by its input, no outpoint is consumed twice in a
block, and the fee is what the outputs leave of the inputs.

`Authorised` is the whole list of ways to spend: a key signature over this
transaction, a settlement that both parties of the channel signed, or a refund
once its height has come.
-/
import CommonFoundry.Lib.Ledger
import CommonFoundry.Consensus.ApplyTransaction
import CommonFoundry.Marketplace.Verification

namespace CommonFoundry

open Lib Lib.Outcome Lib.Ledger

/-! ## Who may spend an output -/

/-- The terms are those of this channel: their identifier is its identifier, and
the deposit is its value. -/
structure ChannelTerms.Own (P : Platform) (terms : ChannelTerms) (networkId channelId : Bytes32)
    (value : UInt64) : Prop where
  network : terms.networkId = networkId
  channel : terms.channelId P = .ok channelId
  deposit : terms.deposit = value

/-- The lock of `previous` is satisfied by the witness of `input`. -/
inductive LockSatisfied (P : Platform) (networkId : Bytes32) (height : UInt64)
    (transaction : Transaction) (input : TxInput) (previous : TxOutput) : Prop
  | key (owner : Bytes32) (signature : List UInt8) :
      previous.lock = .key owner → input.witness = .key owner signature →
      P.Verifies owner (transaction.signingDigest P) signature →
      LockSatisfied P networkId height transaction input previous
  | settlement (channelId : Bytes32) (terms : ChannelTerms) (settlement : Settlement) :
      previous.lock = .inferenceChannel channelId →
      input.witness = .inferenceSettlement terms settlement →
      terms.Own P networkId channelId previous.value → DualSigned P terms settlement →
      transaction.outputs = channelOutputs settlement.state.state.providerPayment
        terms.providerKey settlement.state.state.customerRefund terms.customerKey height →
      LockSatisfied P networkId height transaction input previous
  | refund (channelId : Bytes32) (terms : ChannelTerms) :
      previous.lock = .inferenceChannel channelId → input.witness = .inferenceRefund terms →
      terms.Own P networkId channelId previous.value → terms.refundHeight ≤ height →
      transaction.outputs = channelOutputs 0 terms.providerKey
        (terms.deposit - terms.closeFeeBurn) terms.customerKey height →
      LockSatisfied P networkId height transaction input previous

/-- `input` of `transaction` may spend `previous` in a block of this height. -/
structure Authorised (P : Platform) (networkId : Bytes32) (height : UInt64)
    (transaction : Transaction) (input : TxInput) (previous : TxOutput) : Prop where
  mature : previous.spendableHeight ≤ height
  satisfied : LockSatisfied P networkId height transaction input previous

/-! ## Transactions as ledger entries -/

/-- The unspent set as a ledger, an output labelled with the channel it funds. -/
def UtxoSet.ledger (utxos : UtxoSet) : State OutPoint TxOutput Bytes32 :=
  { entries := utxos.outputs, active := utxos.activeChannels, retired := utxos.retiredChannels }

/-- The outpoints a transaction spends. -/
def Transaction.consumed (transaction : Transaction) : List OutPoint :=
  transaction.inputs.map (·.previous)

/-- The outputs a transaction creates, under their outpoints. -/
def Transaction.created (P : Platform) (transaction : Transaction) : List (OutPoint × TxOutput) :=
  outpointsOf (transaction.txid P) transaction.outputs

def Transaction.entry (P : Platform) (transaction : Transaction) : Entry OutPoint TxOutput :=
  { consumed := transaction.consumed, created := transaction.created P }

/-- The value of an output, as a number. -/
def outputValue (output : TxOutput) : Nat := output.value.toNat

/-- The sum of the values of a list of outputs. -/
def valueOf (outputs : List TxOutput) : Nat := (outputs.map outputValue).sum

theorem map_outpointsOf {α : Type} (f : TxOutput → α) (txid : Bytes32) (outputs : List TxOutput) :
    (outpointsOf txid outputs).map (fun kv => f kv.2) = outputs.map f := by
  have hzip : outputs.zipIdx.map Prod.fst = outputs := List.zipIdx_map_fst 0 outputs
  rw [outpointsOf, List.map_map]
  conv_rhs => rw [← hzip, List.map_map]
  rfl

/-- What the application of one transaction, in place, amounts to. -/
structure TransactionApplied (P : Platform) (networkId : Bytes32) (height : UInt64)
    (utxos : UtxoSet) (spent : Finset OutPoint) (transaction : Transaction)
    (applied : Applied UtxoSet) : Prop where
  step : Step TxOutput.channel utxos.ledger (transaction.entry P) applied.view.ledger
  unspent : ∀ outpoint ∈ transaction.consumed, outpoint ∉ spent
  spent_eq : applied.spent = spent ∪ transaction.consumed.toFinset
  authorised : ∀ input ∈ transaction.inputs, ∃ previous,
    utxos.get input.previous = some previous ∧
      Authorised P networkId height transaction input previous
  fee : held outputValue utxos.outputs transaction.consumed =
    valueOf transaction.outputs + applied.fee.toNat
  inputs_lt : held outputValue utxos.outputs transaction.consumed < 2 ^ 64

/-! ## Creating outputs, in place -/

section InPlace

variable {P : Platform} {networkId : Bytes32} {height : UInt64}

/-- What a loop of `insert_output` leaves. -/
structure OutputsCreated (utxos : UtxoSet) (created : List (OutPoint × TxOutput))
    (utxos' : UtxoSet) : Prop where
  fresh : Fresh utxos.outputs created
  opens_nodup : (created.filterMap fun kv => kv.2.channel).Nodup
  opens_fresh : ∀ channelId ∈ created.filterMap fun kv => kv.2.channel,
    channelId ∉ utxos.activeChannels ∧ channelId ∉ utxos.retiredChannels
  outputs_eq : utxos'.outputs = create utxos.outputs created
  active_eq : utxos'.activeChannels =
    utxos.activeChannels ∪ (created.filterMap fun kv => kv.2.channel).toFinset
  retired_eq : utxos'.retiredChannels = utxos.retiredChannels

theorem insertOutput_inPlace {utxos utxos' : UtxoSet} {outpoint : OutPoint} {output : TxOutput}
    (h : insertOutput utxos outpoint output = .ok utxos') :
    (∀ channelId ∈ output.channel,
        channelId ∉ utxos.activeChannels ∧ channelId ∉ utxos.retiredChannels) ∧
      utxos.outputs.lookup outpoint = none ∧
      utxos'.outputs = utxos.outputs.insert outpoint output ∧
      utxos'.activeChannels = utxos.activeChannels ∪ output.channel.toList.toFinset ∧
      utxos'.retiredChannels = utxos.retiredChannels := by
  simp only [insertOutput, bind_eq_ok, require_eq_ok, pure_eq_ok] at h
  obtain ⟨_, _, _, hchannel, _, habsent, rfl⟩ := h
  have habsent' : utxos.outputs.lookup outpoint = none := by
    rwa [Option.not_isSome_iff_eq_none] at habsent
  refine ⟨fun channelId hmem => ?_, habsent', ?_⟩
  · have hnot := hchannel channelId hmem
    simp only [UtxoView.containsActiveChannel, UtxoView.containsRetiredChannel, Store.get,
      decide_eq_true_eq, not_or] at hnot
    exact hnot
  · cases output.channel with
    | none => exact ⟨rfl, (by simp [UtxoView.stageOutput]), rfl⟩
    | some channelId =>
        refine ⟨rfl, ?_, rfl⟩
        simp only [UtxoView.stageOutput, UtxoView.stageActiveChannel, Store.set, if_true,
          Option.toList_some, List.toFinset_cons, List.toFinset_nil, insert_empty_eq]
        rw [Finset.union_comm]
        rfl

theorem channels_cons (kv : OutPoint × TxOutput) (created : List (OutPoint × TxOutput)) :
    (kv :: created).filterMap (fun kv => kv.2.channel) =
      kv.2.channel.toList ++ created.filterMap fun kv => kv.2.channel := by
  cases hchannel : kv.2.channel <;> simp [hchannel]

theorem insertOutputs_inPlace {created : List (OutPoint × TxOutput)} :
    ∀ {utxos utxos' : UtxoSet},
      created.foldlM (fun view (outpoint, output) => insertOutput view outpoint output) utxos =
        .ok utxos' → OutputsCreated utxos created utxos' := by
  induction created with
  | nil =>
      intro utxos utxos' h
      rw [List.foldlM_nil, pure_eq_ok] at h
      subst h
      exact ⟨trivial, List.nodup_nil, fun _ hmem => (by cases hmem), rfl, (by simp), rfl⟩
  | cons kv created ih =>
      intro utxos utxos'' h
      rw [foldlM_cons_eq_ok] at h
      obtain ⟨utxos', hinsert, h⟩ := h
      obtain ⟨hchannel, habsent, houtputs, hactive, hretired⟩ := insertOutput_inPlace hinsert
      obtain ⟨hfresh, hnodup, hopens, houtputs', hactive', hretired'⟩ := ih h
      rw [houtputs] at hfresh houtputs'
      rw [hactive, hretired] at hopens
      refine ⟨⟨habsent, hfresh⟩, ?_, ?_, houtputs', ?_, hretired'.trans hretired⟩
      · rw [channels_cons, List.nodup_append]
        refine ⟨(by cases kv.2.channel <;> simp), hnodup, ?_⟩
        rintro c hc c' hc' rfl
        exact (hopens c hc').1 (Finset.mem_union_right _ (List.mem_toFinset.mpr hc))
      · rw [channels_cons]
        intro c hc
        rcases List.mem_append.mp hc with hc | hc
        · exact hchannel c (Option.mem_toList.mp hc)
        · have ⟨hc₁, hc₂⟩ := hopens c hc
          exact ⟨fun hmem => hc₁ (Finset.mem_union_left _ hmem), hc₂⟩
      · rw [hactive', hactive, channels_cons, List.toFinset_append, Finset.union_assoc]

theorem insertOutput_ok {utxos : UtxoSet} {outpoint : OutPoint} {output : TxOutput}
    (hvalue : output.value ≠ 0) (habsent : utxos.outputs.lookup outpoint = none)
    (hchannel : ∀ channelId ∈ output.channel,
      channelId ∉ utxos.activeChannels ∧ channelId ∉ utxos.retiredChannels) :
    ∃ utxos', insertOutput utxos outpoint output = .ok utxos' := by
  have habsent' : ¬(UtxoView.get utxos outpoint).isSome := by
    rw [Option.not_isSome_iff_eq_none]
    exact habsent
  have hchannel' : ∀ channelId ∈ output.channel,
      ¬(UtxoView.containsActiveChannel utxos channelId ∨
        UtxoView.containsRetiredChannel utxos channelId) := by
    intro channelId hmem
    simp only [UtxoView.containsActiveChannel, UtxoView.containsRetiredChannel, Store.get,
      decide_eq_true_eq, not_or]
    exact hchannel channelId hmem
  rw [insertOutput, require_pos hvalue, ok_bind, require_pos hchannel', ok_bind,
    require_pos habsent', ok_bind]
  exact ⟨_, rfl⟩

/-- Outputs that are worth something can be created under free outpoints, where the
channels they fund are new. -/
theorem insertOutputs_ok {created : List (OutPoint × TxOutput)} :
    ∀ {utxos : UtxoSet},
      (∀ kv ∈ created, kv.2.value ≠ 0) → Fresh utxos.outputs created →
      (created.filterMap fun kv => kv.2.channel).Nodup →
      (∀ channelId ∈ created.filterMap fun kv => kv.2.channel,
        channelId ∉ utxos.activeChannels ∧ channelId ∉ utxos.retiredChannels) →
      ∃ utxos', created.foldlM (fun view (outpoint, output) => insertOutput view outpoint output)
        utxos = .ok utxos' := by
  induction created with
  | nil => exact fun _ _ _ _ => ⟨_, rfl⟩
  | cons kv created ih =>
      intro utxos hvalues hfresh hnodup hchannels
      obtain ⟨habsent, hrest⟩ := hfresh
      obtain ⟨hvalue, hvalues⟩ := List.forall_mem_cons.mp hvalues
      rw [channels_cons] at hnodup hchannels
      obtain ⟨-, hnodup, hdisjoint⟩ := List.nodup_append.mp hnodup
      obtain ⟨utxos₁, hinsert⟩ := insertOutput_ok hvalue habsent fun channelId hmem =>
        hchannels channelId (List.mem_append_left _ (Option.mem_toList.mpr hmem))
      obtain ⟨-, -, houtputs, hactive, hretired⟩ := insertOutput_inPlace hinsert
      have hlater : ∀ channelId ∈ created.filterMap fun kv => kv.2.channel,
          channelId ∉ utxos₁.activeChannels ∧ channelId ∉ utxos₁.retiredChannels := by
        intro channelId hmem
        obtain ⟨hunknown, hnever⟩ := hchannels channelId (List.mem_append_right _ hmem)
        rw [hactive, hretired, Finset.mem_union, List.mem_toFinset, not_or]
        exact ⟨⟨hunknown, fun hother => hdisjoint _ hother _ hmem rfl⟩, hnever⟩
      obtain ⟨utxos', hcreated⟩ := ih hvalues (houtputs ▸ hrest) hnodup hlater
      exact ⟨utxos', foldlM_cons_eq_ok.mpr ⟨utxos₁, hinsert, hcreated⟩⟩

/-- Outputs that fund no channel can be created wherever their outpoints are free. -/
theorem insertKeyOutputs_ok {created : List (OutPoint × TxOutput)} {utxos : UtxoSet}
    (hkey : ∀ kv ∈ created, kv.2.value ≠ 0 ∧ kv.2.channel = none)
    (hnodup : (created.map Prod.fst).Nodup) (hfree : ∀ kv ∈ created, utxos.get kv.1 = none) :
    ∃ utxos', created.foldlM (fun view (outpoint, output) => insertOutput view outpoint output)
      utxos = .ok utxos' := by
  have hnone : created.filterMap (fun kv => kv.2.channel) = [] :=
    List.filterMap_eq_nil_iff.mpr fun kv hmem => (hkey kv hmem).2
  refine insertOutputs_ok (fun kv hmem => (hkey kv hmem).1) (fresh_iff.mpr ⟨hnodup, hfree⟩) ?_ ?_
  · rw [hnone]
    exact List.nodup_nil
  · rw [hnone]
    exact fun _ hmem => by cases hmem

/-- The outpoints of one transaction are distinct, as long as a position fits its word. -/
theorem nodup_outpointsOf (txid : Bytes32) {outputs : List TxOutput}
    (h : outputs.length ≤ 2 ^ 32) : ((outpointsOf txid outputs).map Prod.fst).Nodup := by
  have hmap : (outpointsOf txid outputs).map Prod.fst =
      (List.range outputs.length).map fun index =>
        ({ txid, index := UInt32.ofNat index } : OutPoint) := by
    rw [List.range_eq_range', ← List.zipIdx_map_snd 0 outputs, outpointsOf, List.map_map,
      List.map_map]
    rfl
  rw [hmap]
  refine List.Nodup.map_on ?_ List.nodup_range
  intro a ha b hb heq
  rw [List.mem_range] at ha hb
  have hword := congrArg (fun outpoint => outpoint.index.toNat) heq
  simp only [UInt32.toNat_ofNat'] at hword
  rwa [Nat.mod_eq_of_lt (by omega), Nat.mod_eq_of_lt (by omega)] at hword

theorem opens_outpointsOf (txid : Bytes32) (outputs : List TxOutput) :
    (outpointsOf txid outputs).filterMap (fun kv => kv.2.channel) =
      outputs.filterMap TxOutput.channel := by
  have hmap : (outpointsOf txid outputs).map (fun kv => kv.2) = outputs := by
    rw [map_outpointsOf (fun output => output), List.map_id']
  conv_rhs => rw [← hmap, List.filterMap_map]
  rfl

theorem mem_outpointsOf {txid : Bytes32} {outputs : List TxOutput} {kv : OutPoint × TxOutput}
    (h : kv ∈ outpointsOf txid outputs) : kv.1.txid = txid ∧ kv.2 ∈ outputs := by
  obtain ⟨⟨output, index⟩, hmem, rfl⟩ := List.mem_map.mp h
  exact ⟨rfl, List.fst_mem_of_mem_zipIdx hmem⟩

/-- The sum of the outputs is computed whenever it fits a word. -/
theorem outputTotal_ok {outputs : List TxOutput} (h : valueOf outputs < 2 ^ 64) :
    ∃ total, outputTotal outputs = .ok total := by
  have hloop : ∀ (outputs : List TxOutput) (sum : UInt64), sum.toNat + valueOf outputs < 2 ^ 64 →
      ∃ total, outputs.foldlM (fun sum output =>
        (okOr (checkedAdd sum output.value) ChainError.amountOverflow)) sum = .ok total := by
    intro outputs
    induction outputs with
    | nil => exact fun sum _ => ⟨sum, rfl⟩
    | cons output outputs ih =>
        intro sum hsum
        rw [valueOf, List.map_cons, List.sum_cons, ← valueOf, outputValue] at hsum
        have hadd : sum.toNat + output.value.toNat < 2 ^ 64 := by omega
        obtain ⟨total, htotal⟩ := ih (sum + output.value) (by
          rw [toNat_add_of_lt hadd]
          omega)
        refine ⟨total, foldlM_cons_eq_ok.mpr ⟨sum + output.value, ?_, htotal⟩⟩
        rw [checkedAdd, if_pos hadd]
        rfl
  exact hloop outputs 0 (by rwa [UInt64.toNat_zero, Nat.zero_add])

theorem outputTotal_toNat {outputs : List TxOutput} {total : UInt64}
    (h : outputTotal outputs = .ok total) : total.toNat = valueOf outputs := by
  have hloop : ∀ (outputs : List TxOutput) (sum total : UInt64),
      outputs.foldlM (fun sum output =>
        (okOr (checkedAdd sum output.value) ChainError.amountOverflow)) sum = .ok total →
      total.toNat = sum.toNat + valueOf outputs := by
    intro outputs
    induction outputs with
    | nil =>
        intro sum total h
        rw [List.foldlM_nil, pure_eq_ok] at h
        rw [h]
        rfl
    | cons output outputs ih =>
        intro sum total h
        rw [foldlM_cons_eq_ok] at h
        obtain ⟨next, hnext, h⟩ := h
        rw [okOr_eq_ok, checkedAdd_eq_some] at hnext
        rw [ih next total h, hnext, valueOf, valueOf, List.map_cons, List.sum_cons, outputValue]
        omega
  have := hloop outputs 0 total h
  rwa [UInt64.toNat_zero, Nat.zero_add] at this

/-! ## Ordinary transactions, in place -/

/-- What the checks on an input of an ordinary transaction establish. -/
theorem checkKeyInput_inPlace {utxos : UtxoSet} {digest : Bytes32} {input : TxInput}
    {value : UInt64} (h : checkKeyInput P utxos height digest input = .ok value) :
    ∃ previous owner signature, utxos.get input.previous = some previous ∧
      previous.value = value ∧ previous.spendableHeight ≤ height ∧ previous.lock = .key owner ∧
      input.witness = .key owner signature ∧ P.Verifies owner digest signature := by
  simp only [checkKeyInput, bind_eq_ok, okOr_eq_ok, require_eq_ok] at h
  obtain ⟨previous, hget, _, hmature, h⟩ := h
  split at h
  · next owner publicKey signature hlock hwitness =>
      simp only [bind_eq_ok, require_eq_ok, pure_eq_ok] at h
      obtain ⟨_, rfl, _, hkey, _, hsignature, _, hverify, hvalue⟩ := h
      refine ⟨previous, publicKey, signature, hget, hvalue, ?_, hlock, hwitness,
        ⟨hkey, hsignature, hverify⟩⟩
      exact UInt64.not_lt.mp hmature
  · exact absurd h fail_ne_ok

theorem markSpent_eq_ok {spent spent' : Finset OutPoint} {outpoint : OutPoint} :
    markSpent spent outpoint = .ok spent' ↔ outpoint ∉ spent ∧ spent' = insert outpoint spent := by
  simp only [markSpent, bind_eq_ok, require_eq_ok, pure_eq_ok, exists_const]
  exact and_congr_right fun _ => eq_comm

/-- The input loop: outpoints spent once, each checked, and their values summed. -/
theorem spendKeyInputs_inPlace {utxos : UtxoSet} {digest : Bytes32} {inputs : List TxInput} :
    ∀ {spent spent' : Finset OutPoint} {total total' : UInt64},
      inputs.foldlM (spendKeyInput P utxos height digest) (spent, total) = .ok (spent', total') →
      (inputs.map (·.previous)).Nodup ∧ (∀ o ∈ inputs.map (·.previous), o ∉ spent) ∧
        spent' = spent ∪ (inputs.map (·.previous)).toFinset ∧
        (∀ input ∈ inputs, ∃ value, checkKeyInput P utxos height digest input = .ok value) ∧
        total'.toNat = total.toNat + held outputValue utxos.outputs (inputs.map (·.previous)) := by
  induction inputs with
  | nil =>
      intro spent spent' total total' h
      rw [List.foldlM_nil, pure_eq_ok, Prod.mk.injEq] at h
      obtain ⟨rfl, rfl⟩ := h
      exact ⟨List.nodup_nil, fun _ hmem => (by cases hmem), (by simp), fun _ hmem => (by cases hmem),
        rfl⟩
  | cons input inputs ih =>
      intro spent spent' total total' h
      rw [foldlM_cons_eq_ok] at h
      obtain ⟨⟨spent₁, total₁⟩, hstep, h⟩ := h
      simp only [spendKeyInput, bind_eq_ok, okOr_eq_ok, pure_eq_ok, markSpent_eq_ok,
        Prod.mk.injEq] at hstep
      obtain ⟨_, ⟨hunspent, rfl⟩, value, hcheck, sum, hsum, rfl, rfl⟩ := hstep
      obtain ⟨hnodup, hlater, hspent, hchecks, htotal⟩ := ih h
      have hnew : input.previous ∉ inputs.map (·.previous) := fun hmem =>
        hlater _ hmem (Finset.mem_insert_self _ _)
      rw [checkedAdd_eq_some] at hsum
      obtain ⟨previous, _, _, hget, hvalue, -⟩ := checkKeyInput_inPlace hcheck
      have hlookup : utxos.outputs.lookup input.previous = some previous := hget
      refine ⟨List.nodup_cons.mpr ⟨hnew, hnodup⟩, ?_, ?_, ?_, ?_⟩
      · intro o ho
        rcases List.mem_cons.mp ho with rfl | ho
        · exact hunspent
        · exact fun hmem => hlater o ho (Finset.mem_insert_of_mem hmem)
      · rw [hspent, List.map_cons, List.toFinset_cons, Finset.insert_union, Finset.union_insert]
      · intro input' hmem
        rcases List.mem_cons.mp hmem with rfl | hmem
        · exact ⟨value, hcheck⟩
        · exact hchecks input' hmem
      · rw [htotal, hsum, List.map_cons, held, held, List.map_cons, List.sum_cons, hlookup,
          Option.elim_some, outputValue, hvalue]
        omega

theorem eraseInputs_inPlace (inputs : List TxInput) : ∀ utxos : UtxoSet,
    eraseInputs utxos inputs =
      { utxos with outputs := consume utxos.outputs (inputs.map (·.previous)) } := by
  induction inputs with
  | nil => exact fun _ => rfl
  | cons input inputs ih => exact fun utxos => ih _

/-- Nothing a key transaction consumes is labelled. -/
theorem closes_eq_nil {utxos : UtxoSet} {entry : Entry OutPoint TxOutput}
    (h : ∀ o ∈ entry.consumed, ∃ previous owner, utxos.get o = some previous ∧
      previous.lock = .key owner) : entry.closes TxOutput.channel utxos.ledger = [] := by
  rw [List.eq_nil_iff_forall_not_mem]
  intro channelId hmem
  obtain ⟨o, ho, output, hlookup, hchannel⟩ := mem_closes.mp hmem
  obtain ⟨previous, owner, hget, hlock⟩ := h o ho
  obtain rfl : previous = output := Option.some.inj (hget.symm.trans hlookup)
  rw [TxOutput.channel, hlock] at hchannel
  cases hchannel

theorem applyKeyTransaction_inPlace {utxos : UtxoSet} {transaction : Transaction}
    {spent : Finset OutPoint} {applied : Applied UtxoSet}
    (h : applyKeyTransaction P utxos transaction height spent = .ok applied) :
    TransactionApplied P networkId height utxos spent transaction applied := by
  simp only [applyKeyTransaction, bind_eq_ok, require_eq_ok, pure_eq_ok] at h
  obtain ⟨⟨spent', inputTotal⟩, hinputs, total, htotal, _, hcreates, view, hview, rfl⟩ := h
  obtain ⟨hnodup, hunspent, hspent, hchecks, hheld⟩ := spendKeyInputs_inPlace hinputs
  obtain ⟨hfresh, hopensNodup, hopens, houtputs, hactive, hretired⟩ :=
    insertOutputs_inPlace hview
  rw [eraseInputs_inPlace] at hfresh hopens houtputs hactive hretired
  have hkey : ∀ input ∈ transaction.inputs, ∃ previous owner signature,
      utxos.get input.previous = some previous ∧ previous.spendableHeight ≤ height ∧
      previous.lock = .key owner ∧ input.witness = .key owner signature ∧
      P.Verifies owner (transaction.signingDigest P) signature := by
    intro input hmem
    obtain ⟨value, hcheck⟩ := hchecks input hmem
    obtain ⟨previous, owner, signature, hget, -, hrest⟩ := checkKeyInput_inPlace hcheck
    exact ⟨previous, owner, signature, hget, hrest⟩
  have hcloses : (transaction.entry P).closes TxOutput.channel utxos.ledger = [] := by
    refine closes_eq_nil fun o ho => ?_
    obtain ⟨input, hmem, rfl⟩ := List.mem_map.mp ho
    obtain ⟨previous, owner, _, hget, -, hlock, -⟩ := hkey input hmem
    exact ⟨previous, owner, hget, hlock⟩
  rw [UInt64.toNat_zero, Nat.zero_add] at hheld
  refine ⟨⟨hnodup, ?_, hfresh, hopensNodup, hopens, houtputs, ?_, ?_⟩, hunspent, hspent, ?_, ?_,
    ?_⟩
  · intro o ho
    obtain ⟨input, hmem, rfl⟩ := List.mem_map.mp ho
    obtain ⟨previous, _, _, hget, -⟩ := hkey input hmem
    exact ⟨previous, hget⟩
  · rw [hcloses, List.toFinset_nil, Finset.sdiff_empty]
    exact hactive
  · rw [hcloses, List.toFinset_nil, Finset.union_empty]
    exact hretired
  · intro input hmem
    obtain ⟨previous, owner, signature, hget, hmature, hlock, hwitness, hverify⟩ := hkey input hmem
    exact ⟨previous, hget, hmature, .key owner signature hlock hwitness hverify⟩
  · have hle : total.toNat ≤ inputTotal.toNat :=
      UInt64.le_iff_toNat_le.mp (UInt64.not_lt.mp hcreates)
    show held outputValue utxos.outputs (transaction.inputs.map (·.previous)) = _
    rw [toNat_sub_of_le hle, ← outputTotal_toNat htotal]
    omega
  · exact hheld ▸ toNat_lt inputTotal

/-! ## Channel transactions, in place -/

theorem channelOutputs_channel {providerValue customerValue height : UInt64}
    {providerKey customerKey : Bytes32} :
    ∀ output ∈ channelOutputs providerValue providerKey customerValue customerKey height,
      output.channel = none := by
  intro output hmem
  unfold channelOutputs at hmem
  rcases List.mem_append.mp hmem with hmem | hmem
  · split at hmem
    · rw [List.mem_singleton] at hmem; rw [hmem]; rfl
    · cases hmem
  · split at hmem
    · rw [List.mem_singleton] at hmem; rw [hmem]; rfl
    · cases hmem

theorem checkTerms_eq_ok {terms : ChannelTerms} {channelId : Bytes32} {value : UInt64} {u : Unit} :
    checkTerms P terms networkId channelId value = .ok u ↔
      terms.Own P networkId channelId value := by
  simp only [checkTerms, bind_eq_ok, require_eq_ok, mapErr_eq_ok]
  constructor
  · rintro ⟨_, hnetwork, termsId, hid, _, rfl, hdeposit⟩
    exact ⟨hnetwork, hid, hdeposit⟩
  · rintro ⟨hnetwork, hid, hdeposit⟩
    exact ⟨(), hnetwork, channelId, hid, (), rfl, hdeposit⟩

/-- A closing witness that yields a payout authorises a transaction with exactly
that payout. -/
theorem closePayout_satisfied {transaction : Transaction} {input : TxInput} {previous : TxOutput}
    {channelId : Bytes32} {outputs : List TxOutput} {fee : UInt64}
    (hlock : previous.lock = .inferenceChannel channelId)
    (h : closePayout P input.witness networkId channelId previous.value height =
      .ok (outputs, fee)) (houtputs : transaction.outputs = outputs) :
    LockSatisfied P networkId height transaction input previous ∧
      ∀ output ∈ outputs, output.channel = none := by
  unfold closePayout at h
  split at h
  · next terms settlement hwitness =>
      simp only [bind_eq_ok, mapErr_eq_ok, pure_eq_ok, Prod.mk.injEq] at h
      obtain ⟨_, hterms, _, hverify, rfl, _⟩ := h
      have hsigned := (settlement_verify_iff.mp hverify).1
      exact ⟨.settlement channelId terms settlement hlock hwitness (checkTerms_eq_ok.mp hterms)
        hsigned houtputs, channelOutputs_channel⟩
  · next terms hwitness =>
      simp only [bind_eq_ok, mapErr_eq_ok, pure_eq_ok, Prod.mk.injEq] at h
      obtain ⟨_, hterms, refund, hrefund, rfl, _⟩ := h
      obtain ⟨hheight, hamount, _⟩ := refund_eq_ok hrefund
      rw [hamount] at houtputs ⊢
      exact ⟨.refund channelId terms hlock hwitness (checkTerms_eq_ok.mp hterms) hheight houtputs,
        channelOutputs_channel⟩
  · exact absurd h fail_ne_ok

theorem soleInput_eq_ok {transaction : Transaction} {input : TxInput} :
    soleInput transaction = .ok input ↔ transaction.inputs = [input] := by
  unfold soleInput
  split
  · next only h => rw [pure_eq_ok, h]; simp
  · next hne => exact ⟨fun h => absurd h fail_ne_ok, fun h => absurd h (hne input)⟩

theorem lockedChannel_eq_ok {output : TxOutput} {channelId : Bytes32} :
    lockedChannel output = .ok channelId ↔ output.lock = .inferenceChannel channelId := by
  rw [lockedChannel, okOr_eq_ok, TxOutput.channel]
  cases output.lock with
  | key owner => simp
  | inferenceChannel id => simp

theorem applyChannelTransaction_inPlace {utxos : UtxoSet} {transaction : Transaction}
    {spent : Finset OutPoint} {applied : Applied UtxoSet}
    (h : applyChannelTransaction P utxos transaction height networkId spent = .ok applied) :
    TransactionApplied P networkId height utxos spent transaction applied := by
  simp only [applyChannelTransaction, bind_eq_ok, require_eq_ok, pure_eq_ok, okOr_eq_ok,
    soleInput_eq_ok, markSpent_eq_ok, lockedChannel_eq_ok] at h
  obtain ⟨input, hinput, _, ⟨hunspent, rfl⟩, previous, hget, _, hmature, channelId, hlock,
    ⟨outputs, fee⟩, hpayout, _, houtputs, total, htotal, paid, hpaid, _, hvalue, view, hview,
    rfl⟩ := h
  obtain ⟨hsatisfied, hkeys⟩ := closePayout_satisfied hlock hpayout houtputs
  obtain ⟨hfresh, hopensNodup, hopens, hcreated, hactive, hretired⟩ :=
    insertOutputs_inPlace hview
  have hconsumed : transaction.consumed = [input.previous] := by
    rw [Transaction.consumed, hinput]
    rfl
  have hlookup : utxos.outputs.lookup input.previous = some previous := hget
  have hcloses : (transaction.entry P).closes TxOutput.channel utxos.ledger = [channelId] := by
    have hchannel : previous.channel = some channelId := by rw [TxOutput.channel, hlock]
    show transaction.consumed.filterMap
      (fun o => (utxos.outputs.lookup o).bind TxOutput.channel) = [channelId]
    rw [hconsumed]
    simp only [List.filterMap_cons, hlookup, Option.bind_some, hchannel, List.filterMap_nil]
  have hnone : (outpointsOf (transaction.txid P) transaction.outputs).filterMap
      (fun kv => kv.2.channel) = [] := by
    rw [opens_outpointsOf, List.filterMap_eq_nil_iff, houtputs]
    exact hkeys
  rw [hnone, List.toFinset_nil, Finset.union_empty] at hactive
  have hopensNil : (transaction.entry P).opens TxOutput.channel = [] := hnone
  have hheld : held outputValue utxos.outputs transaction.consumed = previous.value.toNat := by
    rw [hconsumed, held, List.map_cons, List.map_nil, hlookup, List.sum_cons, List.sum_nil,
      Option.elim_some, outputValue, Nat.add_zero]
  refine ⟨⟨?_, ?_, ?_, ?_, ?_, ?_, ?_, ?_⟩, ?_, ?_, ?_, ?_, ?_⟩
  · show transaction.consumed.Nodup
    rw [hconsumed]
    exact List.nodup_singleton _
  · show ∀ o ∈ transaction.consumed, _
    rw [hconsumed]
    intro o ho
    rw [List.mem_singleton] at ho
    exact ⟨previous, ho ▸ hlookup⟩
  · show Fresh (consume utxos.outputs transaction.consumed) _
    rw [hconsumed]
    exact hfresh
  · rw [hopensNil]
    exact List.nodup_nil
  · rw [hopensNil]
    exact fun _ hmem => by cases hmem
  · show _ = create (consume utxos.outputs transaction.consumed) _
    rw [hconsumed]
    exact hcreated
  · rw [hcloses, hopensNil, List.toFinset_nil, Finset.union_empty, List.toFinset_cons,
      List.toFinset_nil, insert_empty_eq, Finset.sdiff_singleton_eq_erase]
    exact hactive
  · rw [hcloses, List.toFinset_cons, List.toFinset_nil, insert_empty_eq, Finset.union_comm]
    exact hretired
  · rw [hconsumed]
    intro o ho
    rw [List.mem_singleton] at ho
    exact ho ▸ hunspent
  · rw [hconsumed, List.toFinset_cons, List.toFinset_nil, insert_empty_eq, Finset.union_comm]
    rfl
  · rw [hinput]
    intro input' hmem
    obtain rfl := List.mem_singleton.mp hmem
    exact ⟨previous, hget, UInt64.not_lt.mp hmature, hsatisfied⟩
  · rw [checkedAdd_eq_some, outputTotal_toNat htotal] at hpaid
    rw [hheld, ← hvalue, hpaid]
  · exact hheld ▸ toNat_lt previous.value

/-- Either way. -/
theorem applyTransaction_inPlace {utxos : UtxoSet} {transaction : Transaction}
    {spent : Finset OutPoint} {applied : Applied UtxoSet}
    (h : applyTransaction P utxos transaction height networkId spent = .ok applied) :
    TransactionApplied P networkId height utxos spent transaction applied := by
  simp only [applyTransaction, bind_eq_ok] at h
  obtain ⟨_, _, _, _, _, _, _, _, _, _, h⟩ := h
  split at h
  · exact applyChannelTransaction_inPlace h
  · exact applyKeyTransaction_inPlace h

end InPlace

end CommonFoundry
