/-
# `CommonFoundry.Consensus.KeySpend` — when transactions pass, from their parts

What an ordinary transaction needs to pass the preflight by itself (`KeySpend.passes`), when it
pays keys only.  Transactions that each pass by themselves pass together if they spend
different outputs, have different identifiers and keep to the limits of a set
(`Apart.passes`).
-/
import CommonFoundry.Consensus.OrderIndependence
import CommonFoundry.Consensus.WireLimits

namespace CommonFoundry

open Lib Lib.Outcome Lib.Ledger

variable {P : Platform} {state : ChainState}

/-! ## One transaction -/

/-- Signed inputs whose values are the outputs and a fee, and outputs to keys under free
outpoints. -/
structure KeySpend (P : Platform) (state : ChainState) (transaction : Transaction) (fee : UInt64) :
    Prop where
  network : transaction.networkId = state.params.networkId
  version : transaction.version = transactionVersion
  inputs_ne : transaction.inputs ≠ []
  outputs_ne : transaction.outputs ≠ []
  sized : transaction.Sized
  small : wireHeaderBytes + transaction.wireSize ≤ maxTransactionBytes
  consumed : transaction.consumed.Nodup
  keyed : transaction.Keyed
  signed : ∀ input ∈ transaction.inputs, ∃ value,
    checkKeyInput P state.utxos state.nextHeight (transaction.signingDigest P) input = .ok value
  paid : ∀ output ∈ transaction.outputs, output.value ≠ 0 ∧ output.channel = none
  balance : held outputValue state.utxos.outputs transaction.consumed =
    valueOf transaction.outputs + fee.toNat
  fits : valueOf transaction.outputs + fee.toNat < 2 ^ 64
  free : ∀ kv ∈ transaction.created P, state.utxos.get kv.1 = none

theorem spendKeyInputs_ok {utxos : UtxoSet} {height : UInt64} {digest : Bytes32}
    {inputs : List TxInput} (spent : Finset OutPoint) (total : UInt64)
    (hnodup : (inputs.map (·.previous)).Nodup) (hspent : ∀ o ∈ inputs.map (·.previous), o ∉ spent)
    (hsigned : ∀ input ∈ inputs, ∃ value, checkKeyInput P utxos height digest input = .ok value)
    (hfits : total.toNat + held outputValue utxos.outputs (inputs.map (·.previous)) < 2 ^ 64) :
    ∃ after, inputs.foldlM (spendKeyInput P utxos height digest) (spent, total) = .ok after := by
  induction inputs generalizing spent total with
  | nil => exact ⟨_, rfl⟩
  | cons input rest ih =>
      obtain ⟨hnew, hnodup⟩ := List.nodup_cons.mp hnodup
      obtain ⟨hunspent, hspent⟩ := List.forall_mem_cons.mp hspent
      obtain ⟨⟨value, hcheck⟩, hsigned⟩ := List.forall_mem_cons.mp hsigned
      obtain ⟨previous, _, _, hget, hvalue, -⟩ := checkKeyInput_inPlace hcheck
      have hlookup : utxos.outputs.lookup input.previous = some previous := hget
      rw [List.map_cons, held, List.map_cons, List.sum_cons, hlookup, Option.elim_some,
        outputValue, hvalue, ← held] at hfits
      have hadd : checkedAdd total value = some (total + value) := by
        rw [checkedAdd_eq_some, toNat_add_of_lt (by omega)]
      obtain ⟨after, hafter⟩ := ih (insert input.previous spent) (total + value) hnodup
        (fun o ho => by
          rw [Finset.mem_insert, not_or]
          exact ⟨ne_of_mem_of_not_mem ho hnew, hspent o ho⟩)
        hsigned (by rw [toNat_add_of_lt (by omega)]; omega)
      refine ⟨after, foldlM_cons_eq_ok.mpr ⟨(insert input.previous spent, total + value), ?_, hafter⟩⟩
      simp only [spendKeyInput, bind_eq_ok, okOr_eq_ok, pure_eq_ok, markSpent_eq_ok, Prod.mk.injEq]
      exact ⟨_, ⟨hunspent, rfl⟩, value, hcheck, _, hadd, rfl, rfl⟩

theorem KeySpend.applies {transaction : Transaction} {fee : UInt64}
    (h : KeySpend P state transaction fee) : ∃ applied,
      applyTransaction P state.utxos transaction state.nextHeight state.params.networkId ∅ =
        .ok applied ∧ applied.fee = fee := by
  obtain ⟨⟨spent, inputTotal⟩, hinputs⟩ := spendKeyInputs_ok ∅ 0 h.consumed
    (fun o _ => Finset.notMem_empty o) h.signed
    (by rw [UInt64.toNat_zero, Nat.zero_add]; exact h.balance.trans_lt h.fits)
  obtain ⟨_, _, _, _, hheld⟩ := spendKeyInputs_inPlace hinputs
  have hbalance : inputTotal.toNat = valueOf transaction.outputs + fee.toNat := by
    rw [hheld, UInt64.toNat_zero, Nat.zero_add]
    exact h.balance
  have houtputs : valueOf transaction.outputs < 2 ^ 64 := lt_of_le_of_lt (Nat.le_add_right _ _) h.fits
  obtain ⟨total, htotal⟩ := outputTotal_ok houtputs
  have hpaid := outputTotal_toNat htotal
  have hle : total ≤ inputTotal := by
    rw [UInt64.le_iff_toNat_le]
    omega
  have hoversize := h.sized.outputs
  have hmax : maxTransactionOutputs ≤ 2 ^ 32 := by decide
  obtain ⟨view, hview⟩ : ∃ view, insertOutputs (eraseInputs state.utxos transaction.inputs)
      (transaction.txid P) transaction.outputs = .ok view := by
    refine insertKeyOutputs_ok (fun kv hmem => h.paid kv.2 (mem_outpointsOf hmem).2)
      (nodup_outpointsOf _ (by omega)) fun kv hmem => ?_
    rw [eraseInputs_inPlace]
    show (consume state.utxos.outputs transaction.consumed).lookup kv.1 = none
    rw [lookup_consume]
    split
    · rfl
    · exact h.free kv hmem
  have hkey := Transaction.keyed_iff.mp h.keyed
  have hvalues : ¬(transaction.outputs.any fun output => output.value = 0) = true := by
    rw [List.any_eq_true]
    rintro ⟨output, hmem, hzero⟩
    exact (h.paid output hmem).1 (of_decide_eq_true hzero)
  have hfee : inputTotal - total = fee := by
    apply UInt64.toNat_inj.mp
    rw [toNat_sub_of_le (UInt64.le_iff_toNat_le.mp hle)]
    omega
  refine ⟨{ fee := inputTotal - total, view, spent }, ?_, hfee⟩
  simp only [applyTransaction, applyKeyTransaction, bind_eq_ok, require_eq_ok, if_neg hkey,
    pure_eq_ok, List.isEmpty_iff, UInt64.not_lt, gt_iff_lt]
  exact ⟨(), h.network, (), h.version, (), h.inputs_ne, (), h.outputs_ne, (), hvalues, _, hinputs,
    total, htotal, (), hle, view, hview, rfl⟩

theorem Transaction.Keyed.signatureChecks {transaction : Transaction} (h : transaction.Keyed) :
    transaction.signatureChecks = transaction.inputs.length := by
  have hone : ∀ input ∈ transaction.inputs, input.witness.signatureChecks = 1 := by
    intro input hmem
    have hkey := h input hmem
    cases hwitness : input.witness with
    | key publicKey signature => rfl
    | inferenceSettlement terms settlement =>
        rw [hwitness] at hkey
        cases hkey
    | inferenceRefund terms =>
        rw [hwitness] at hkey
        cases hkey
  rw [Transaction.signatureChecks, List.map_congr_left hone, List.map_const', List.sum_replicate_nat,
    Nat.mul_one]

theorem KeySpend.passes {transaction : Transaction} {fee : UInt64}
    (h : KeySpend P state transaction fee) : Passes P state [transaction] fee := by
  have hinputs : transaction.inputs.length ≤ 128 := h.sized.inputs
  have houtputs : transaction.outputs.length ≤ 128 := h.sized.outputs
  have hlimits : WithinLimits [transaction] := by
    constructor
    · exact Nat.le_of_ble_eq_true rfl
    · rw [List.map_singleton, List.sum_singleton]
      exact hinputs.trans (by decide)
    · rw [List.map_singleton, List.sum_singleton]
      exact houtputs.trans (by decide)
    · rw [List.map_singleton, List.sum_singleton, h.keyed.signatureChecks]
      exact hinputs.trans (by decide)
  have hwitness : ∀ input ∈ transaction.inputs,
      input.witness.OnNetwork transaction.networkId := by
    intro input hmem
    have hkey := h.keyed input hmem
    cases hcase : input.witness with
    | key publicKey signature => trivial
    | inferenceSettlement terms settlement =>
        rw [hcase] at hkey
        cases hkey
    | inferenceRefund terms =>
        rw [hcase] at hkey
        cases hkey
  refine passes_singleton.mpr ⟨⟨_, validateTransactionSetResources_iff.mpr
    ⟨fun other hmem => ?_, hlimits, rfl⟩⟩, ⟨h.network, h.version⟩, ?_, h.applies⟩
  · obtain rfl := List.mem_singleton.mp hmem
    exact h.sized
  · exact encodeTransaction_iff.mpr
      ⟨validateTransactionShape_iff.mpr ⟨h.sized, rfl, hwitness⟩, h.small⟩

/-! ## Several transactions -/

theorem Passes.burns {transaction : Transaction} {fee : UInt64}
    (h : Passes P state [transaction] fee) : transaction.burns state.utxos = fee.toNat := by
  obtain ⟨-, -, -, applied, happlied, rfl⟩ := passes_singleton.mp h
  exact (applyTransaction_inPlace happlied).burns

/-- Transactions that pass by themselves and do not meet each other. -/
structure Apart (P : Platform) (state : ChainState) (transactions : List Transaction) : Prop where
  alone : ∀ transaction ∈ transactions, ∃ fee, Passes P state [transaction] fee
  free : ∀ transaction ∈ transactions, ∀ kv ∈ transaction.created P, state.utxos.get kv.1 = none
  ids : (transactions.map (·.txid P)).Nodup
  inputs : (references transactions).Nodup
  channels : (transactions.flatMap Transaction.funded).Nodup
  fees : (transactions.map (·.burns state.utxos)).sum < 2 ^ 64
  limits : WithinLimits transactions

theorem Apart.sublist {some all : List Transaction} (h : Apart P state all)
    (hsub : some.Sublist all) : Apart P state some where
  alone transaction hmem := h.alone transaction (hsub.subset hmem)
  free transaction hmem := h.free transaction (hsub.subset hmem)
  ids := h.ids.sublist (hsub.map _)
  inputs := h.inputs.sublist (hsub.flatMap _)
  channels := h.channels.sublist (hsub.flatMap _)
  fees := lt_of_le_of_lt ((hsub.map _).sum_le_sum fun _ _ => Nat.zero_le _) h.fees
  limits := h.limits.sublist hsub

theorem Apart.perm {transactions permuted : List Transaction} (h : Apart P state transactions)
    (hperm : transactions.Perm permuted) : Apart P state permuted where
  alone transaction hmem := h.alone transaction (hperm.mem_iff.mpr hmem)
  free transaction hmem := h.free transaction (hperm.mem_iff.mpr hmem)
  ids := (hperm.map _).nodup_iff.mp h.ids
  inputs := (hperm.flatMap_right _).nodup_iff.mp h.inputs
  channels := (hperm.flatMap_right _).nodup_iff.mp h.channels
  fees := ((hperm.map _).sum_eq).symm.trans_lt h.fees
  limits := h.limits.perm hperm

/-- Key spends of different outputs, under different identifiers. -/
theorem apart_of_keySpends {transactions : List Transaction} (bound : Nat)
    (hspends : ∀ transaction ∈ transactions, ∃ fee,
      KeySpend P state transaction fee ∧ fee.toNat ≤ bound)
    (hids : (transactions.map (·.txid P)).Nodup) (hinputs : (references transactions).Nodup)
    (hfees : transactions.length * bound < 2 ^ 64)
    (hcount : transactions.length ≤ maxBlockTransactions)
    (hinputsLe : (transactions.map (·.inputs.length)).sum ≤ maxBlockSignatureChecks)
    (houtputsLe : (transactions.map (·.outputs.length)).sum ≤ maxBlockAggregateOutputs) :
    Apart P state transactions := by
  have hfunded : ∀ transaction ∈ transactions, transaction.funded = [] := by
    intro transaction hmem
    obtain ⟨fee, hspend, -⟩ := hspends transaction hmem
    exact List.filterMap_eq_nil_iff.mpr fun output houtput => (hspend.paid output houtput).2
  have hburns : ∀ burned ∈ transactions.map (·.burns state.utxos), burned ≤ bound := by
    intro burned hmem
    obtain ⟨transaction, htransaction, rfl⟩ := List.mem_map.mp hmem
    obtain ⟨fee, hspend, hle⟩ := hspends transaction htransaction
    exact hspend.passes.burns.trans_le hle
  have hchecks : ∀ transaction ∈ transactions,
      transaction.signatureChecks = transaction.inputs.length := by
    intro transaction hmem
    obtain ⟨fee, hspend, -⟩ := hspends transaction hmem
    exact hspend.keyed.signatureChecks
  constructor
  · intro transaction hmem
    obtain ⟨fee, hspend, -⟩ := hspends transaction hmem
    exact ⟨fee, hspend.passes⟩
  · intro transaction hmem
    obtain ⟨fee, hspend, -⟩ := hspends transaction hmem
    exact hspend.free
  · exact hids
  · exact hinputs
  · rw [List.flatMap_congr hfunded, List.flatMap_eq_nil_iff.mpr fun _ _ => rfl]
    exact List.nodup_nil
  · have hsum := List.sum_le_card_nsmul _ bound hburns
    rw [List.length_map] at hsum
    exact lt_of_le_of_lt hsum hfees
  · refine ⟨hcount, hinputsLe.trans (by decide), houtputsLe, ?_⟩
    rw [List.map_congr_left hchecks]
    exact hinputsLe

/-- They pass together. -/
theorem Apart.passes (hregistered : Registered TxOutput.channel state.utxos.ledger)
    {transactions : List Transaction} (h : Apart P state transactions) :
    ∃ fees, Passes P state transactions fees := by
  have hconfirmed : Confirmed P state.utxos transactions := by
    refine ⟨hregistered, fun transaction hmem => ?_, h.free, fun a ha b hb heq => ?_⟩
    · obtain ⟨fee, hfee⟩ := h.alone transaction hmem
      obtain ⟨-, -, -, applied, happlied, -⟩ := passes_singleton.mp hfee
      exact (applyTransaction_inPlace happlied).step.present
    · rw [List.inj_on_of_nodup_map h.ids ha hb heq]
  have hindependent : Independent P state.params.networkId state.nextHeight state.utxos
      transactions := by
    refine ⟨fun transaction hmem => ?_, h.inputs, h.channels, h.fees⟩
    obtain ⟨fee, hfee⟩ := h.alone transaction hmem
    obtain ⟨-, -, -, applied, happlied, -⟩ := passes_singleton.mp hfee
    exact ⟨applied, happlied⟩
  obtain ⟨applied, happlied⟩ := hindependent.applies hconfirmed
  have hparts : ∀ transaction ∈ transactions, transaction.Sized ∧
      (transaction.networkId = state.params.networkId ∧
        transaction.version = transactionVersion) ∧
      ∃ bytes, encodeTransaction P transaction = .ok bytes := by
    intro transaction hmem
    obtain ⟨fee, hfee⟩ := h.alone transaction hmem
    obtain ⟨⟨totals, htotals⟩, hheader, hencoded, -⟩ := passes_singleton.mp hfee
    exact ⟨(validateTransactionSetResources_iff.mp htotals).1 transaction (List.mem_singleton_self _),
      hheader, hencoded⟩
  refine ⟨_, passes_iff.mpr ⟨⟨_, validateTransactionSetResources_iff.mpr
    ⟨fun transaction hmem => (hparts transaction hmem).1, h.limits, rfl⟩⟩, ?_, ?_, applied,
    happlied, rfl⟩⟩
  · rw [checkTransactionHeaders, forM_eq_ok_iff]
    intro transaction hmem
    obtain ⟨hnetwork, hversion⟩ := (hparts transaction hmem).2.1
    simp only [bind_eq_ok, require_eq_ok]
    exact ⟨(), hnetwork, hversion⟩
  · intro transaction hmem
    exact (hparts transaction hmem).2.2

end CommonFoundry
