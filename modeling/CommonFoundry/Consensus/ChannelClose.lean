/-
# `CommonFoundry.Consensus.ChannelClose` — a funded channel can be closed, once

The output of a channel is spent in one of two ways: by a settlement that verifies
for the channel's terms, or by a refund once its height has come.  Either pays
exactly what its witness commits to, at the height of the block it is in, and
nothing else spends the output (`applyTransaction_channel`).

Spending it retires the channel.  A retired channel locks no unspent output and is
never funded again, so in every later state no transaction that funds it or shows
its terms passes (`funded_channel_closes_once`).
-/
import CommonFoundry.Consensus.ChannelChain
import CommonFoundry.Consensus.ChannelRegistry
import CommonFoundry.Consensus.Preflight

namespace CommonFoundry

open Lib Lib.Outcome Lib.Ledger

variable {P : Platform} {terms : ChannelTerms}

/-! ## The two ways to close -/

/-- The transaction that refunds a channel, laid out for a height. -/
def refundTransaction (terms : ChannelTerms) (outpoint : OutPoint) (height : UInt64) :
    Transaction where
  networkId := terms.networkId
  version := transactionVersion
  inputs := [{ previous := outpoint, witness := .inferenceRefund terms }]
  outputs := channelOutputs 0 terms.providerKey (terms.deposit - terms.closeFeeBurn)
    terms.customerKey height

/-- A refund whose height has come is accepted in place. -/
theorem applyRefund_inPlace {utxos : UtxoSet} {spent : Finset OutPoint} {outpoint : OutPoint}
    {output : TxOutput} {height : UInt64} (hheight : terms.refundHeight ≤ height)
    (hfunded : Funded P terms utxos outpoint output height) (hunspent : outpoint ∉ spent)
    (hfree : ∀ index, utxos.get
      { txid := (refundTransaction terms outpoint height).txid P, index } = none) :
    ∃ applied, applyTransaction P utxos (refundTransaction terms outpoint height) height
      terms.networkId spent = .ok applied ∧ applied.fee = terms.closeFeeBurn := by
  obtain ⟨channelId, hid, hlock⟩ := hfunded.lock
  have hless := channelId_eq_ok hid
  have hpayout : closePayout P (.inferenceRefund terms) terms.networkId channelId output.value
      height = .ok (channelOutputs 0 terms.providerKey (terms.deposit - terms.closeFeeBurn)
        terms.customerKey height, terms.closeFeeBurn) := by
    have hterms : checkTerms P terms terms.networkId channelId output.value = .ok () :=
      checkTerms_eq_ok.mpr ⟨rfl, hid, hfunded.value.symm⟩
    rw [closePayout, hterms, ok_bind, ChannelTerms.refund,
      require_pos (UInt64.not_lt.mpr hheight), ok_bind, hid]
    rfl
  have hvalue : (0 : UInt64).toNat + (terms.deposit - terms.closeFeeBurn).toNat +
      terms.closeFeeBurn.toNat = output.value.toNat := by
    rw [hfunded.value, toNat_sub_of_le (by omega), UInt64.toNat_zero]
    omega
  exact applyPayout_inPlace rfl rfl rfl rfl rfl hpayout hvalue (hfunded.value ▸ hless)
    hfunded.unspent hlock hfunded.mature hunspent hfree

/-- Whatever spends a channel output in place is a closing transaction: one input, a
witness for the channel, and the outputs it commits to. -/
theorem applyTransaction_channel {utxos : UtxoSet} {transaction : Transaction}
    {height : UInt64} {networkId channelId : Bytes32} {spent : Finset OutPoint}
    {applied : Applied UtxoSet} {outpoint : OutPoint} {output : TxOutput}
    (h : applyTransaction P utxos transaction height networkId spent = .ok applied)
    (hmem : outpoint ∈ transaction.consumed) (hget : utxos.get outpoint = some output)
    (hlock : output.lock = .inferenceChannel channelId) :
    ∃ witness fee, transaction.networkId = networkId ∧ transaction.version = transactionVersion ∧
      transaction.inputs = [{ previous := outpoint, witness }] ∧ output.spendableHeight ≤ height ∧
      closePayout P witness networkId channelId output.value height =
        .ok (transaction.outputs, fee) := by
  obtain ⟨input, hinput, rfl⟩ := List.mem_map.mp hmem
  -- the output is not locked to a key, so one witness is not a key witness
  have hclosing : (transaction.inputs.any fun input => !input.witness.isKey) = true := by
    obtain ⟨previous, hprevious, hauthorised⟩ :=
      (applyTransaction_inPlace h).authorised input hinput
    obtain rfl : previous = output := Option.some.inj (hprevious.symm.trans hget)
    refine List.any_eq_true.mpr ⟨input, hinput, ?_⟩
    cases hauthorised.satisfied with
    | key owner signature hkey =>
        rw [hlock] at hkey
        cases hkey
    | settlement _ _ _ _ hwitness => rw [hwitness]; rfl
    | refund _ _ _ hwitness => rw [hwitness]; rfl
  simp only [applyTransaction, bind_eq_ok, require_eq_ok, if_pos hclosing] at h
  obtain ⟨_, hnetwork, _, hversion, _, _, _, _, _, _, h⟩ := h
  simp only [applyChannelTransaction, bind_eq_ok, require_eq_ok, pure_eq_ok, okOr_eq_ok,
    soleInput_eq_ok, markSpent_eq_ok, lockedChannel_eq_ok] at h
  obtain ⟨sole, hsole, _, _, previous, hprevious, _, hmature, lockId, hlockId,
    ⟨outputs, fee⟩, hpayout, _, houtputs, _⟩ := h
  rw [hsole] at hinput
  obtain rfl := List.mem_singleton.mp hinput
  obtain rfl : previous = output := Option.some.inj (hprevious.symm.trans hget)
  obtain rfl : lockId = channelId := OutputLock.inferenceChannel.inj (hlockId.symm.trans hlock)
  refine ⟨input.witness, fee, hnetwork, hversion, hsole, UInt64.not_lt.mp hmature, ?_⟩
  rw [houtputs]
  exact hpayout

/-! ## Closing in the next block -/

/-- The terms a closing witness shows. -/
def InputWitness.shownTerms : InputWitness → Option ChannelTerms
  | .key .. => none
  | .inferenceSettlement terms _ => some terms
  | .inferenceRefund terms => some terms

/-- `Signature::try_from` refuses bytes of any other length. -/
def Platform.FixedLengthSignatures (P : Platform) : Prop :=
  ∀ bytes, P.signature bytes = true → bytes.length = consensusSignatureBytes

/-- A transaction with one closing input and at most two outputs is within every
limit, and has an encoding. -/
theorem closing_wellFormed {transaction : Transaction} {outpoint : OutPoint}
    {witness : InputWitness}
    (hinputs : transaction.inputs = [{ previous := outpoint, witness }])
    (houtputs : transaction.outputs.length ≤ 2)
    (hsignatures : checkSignatureLengths witness = .ok ())
    (hshape : checkInputShape transaction.networkId { previous := outpoint, witness } = .ok ()) :
    (∃ totals, validateTransactionSetResources [transaction] = .ok totals) ∧
      ∃ bytes, encodeTransaction P transaction = .ok bytes := by
  have hinputLimit : maxTransactionInputs = 128 := rfl
  have houtputLimit : maxTransactionOutputs = 128 := rfl
  have hinputLength : transaction.inputs.length = 1 := by rw [hinputs, List.length_singleton]
  have hchecks : witness.signatureChecks ≤ 2 := by
    cases witness <;> exact Nat.le_of_ble_eq_true rfl
  have hsize : witness.wireSize ≤ 537 := by
    cases witness <;> exact Nat.le_of_ble_eq_true rfl
  constructor
  · have hchecksEq : transaction.signatureChecks = witness.signatureChecks := by
      rw [Transaction.signatureChecks, hinputs, List.map_singleton, List.sum_singleton]
    have hsized : transaction.Sized := by
      refine ⟨by omega, by omega, ?_⟩
      rw [hinputs]
      exact List.forall_mem_singleton.mpr hsignatures
    have haggregate : maxBlockTransactions = 1024 ∧ maxBlockAggregateInputs = 4096 ∧
        maxBlockAggregateOutputs = 4096 ∧ maxBlockSignatureChecks = 2048 := ⟨rfl, rfl, rfl, rfl⟩
    refine ⟨_, validateTransactionSetResources_iff.mpr
      ⟨List.forall_mem_singleton.mpr hsized, ⟨?_, ?_, ?_, ?_⟩, rfl⟩⟩
    · rw [List.length_singleton]
      omega
    · rw [List.map_singleton, List.sum_singleton]
      omega
    · rw [List.map_singleton, List.sum_singleton]
      omega
    · rw [List.map_singleton, List.sum_singleton]
      omega
  · refine encodeTransaction_of_shape ?_ ?_
    · simp only [validateTransactionShape, checkCount, checkNetwork_self, bind_eq_ok,
        require_eq_ok, forM_eq_ok_iff, hinputs, List.forall_mem_singleton]
      exact ⟨(), trivial, (), Nat.not_lt.mpr (Nat.le_of_ble_eq_true rfl), (), by omega, hshape⟩
    · have hmax : maxTransactionBytes = 65536 := rfl
      rw [hinputs, List.map_singleton, List.sum_singleton]
      show 60 + (36 + witness.wireSize + transaction.outputs.length * 49) ≤ maxTransactionBytes
      omega

/-- The transaction passes by itself. -/
def Admits (P : Platform) (state : ChainState) (transaction : Transaction) : Prop :=
  ∃ fees, Passes P state [transaction] fees

/-- The output at `outpoint` funds the channel of these terms, on this network. -/
structure FundsChannel (P : Platform) (terms : ChannelTerms) (state : ChainState)
    (channelId : Bytes32) (outpoint : OutPoint) (output : TxOutput) : Prop where
  unspent : state.utxos.get outpoint = some output
  lock : output.lock = .inferenceChannel channelId
  channel : terms.channelId P = .ok channelId
  deposit : output.value = terms.deposit
  network : terms.networkId = state.params.networkId

/-- No unspent output has the transaction's identifier: both are digests. -/
def FreshTxid (P : Platform) (state : ChainState) (transaction : Transaction) : Prop :=
  ∀ index, state.utxos.get { txid := transaction.txid P, index } = none

section

variable {state : ChainState} {channelId : Bytes32} {outpoint : OutPoint} {output : TxOutput}

theorem FundsChannel.funded (h : FundsChannel P terms state channelId outpoint output)
    (hmature : output.spendableHeight ≤ state.nextHeight) :
    Funded P terms state.utxos outpoint output state.nextHeight :=
  ⟨h.unspent, h.deposit, ⟨channelId, h.channel, h.lock⟩, hmature⟩

theorem admits_refund (h : FundsChannel P terms state channelId outpoint output)
    (hfresh : FreshTxid P state (refundTransaction terms outpoint state.nextHeight)) :
    Admits P state (refundTransaction terms outpoint state.nextHeight) ↔
      max terms.refundHeight.toNat output.spendableHeight.toNat ≤ state.nextHeight.toNat := by
  rw [Nat.max_le, ← UInt64.le_iff_toNat_le, ← UInt64.le_iff_toNat_le]
  constructor
  · rintro ⟨fees, hpasses⟩
    obtain ⟨-, -, -, applied, happlied, -⟩ := passes_singleton.mp hpasses
    obtain ⟨witness, fee, -, -, hinputs, hmature, hpayout⟩ :=
      applyTransaction_channel happlied List.mem_cons_self h.unspent h.lock
    obtain rfl : .inferenceRefund terms = witness :=
      congrArg TxInput.witness (List.singleton_inj.mp hinputs)
    simp only [closePayout, bind_eq_ok, mapErr_eq_ok] at hpayout
    obtain ⟨_, _, refund, hrefund, _⟩ := hpayout
    exact ⟨(refund_eq_ok hrefund).1, hmature⟩
  · rintro ⟨hheight, hmature⟩
    obtain ⟨applied, happlied, -⟩ := applyRefund_inPlace hheight (h.funded hmature)
      (Finset.notMem_empty outpoint) hfresh
    rw [h.network] at happlied
    have hinputs : (refundTransaction terms outpoint state.nextHeight).inputs =
        [{ previous := outpoint, witness := .inferenceRefund terms }] := rfl
    obtain ⟨hresources, hencoded⟩ := closing_wellFormed (P := P) hinputs
      (channelOutputs_length _ _ _ _ _) rfl (checkNetwork_self _ _)
    exact ⟨_, passes_singleton.mpr ⟨hresources, ⟨h.network, rfl⟩, hencoded, applied, happlied, rfl⟩⟩

theorem admits_settlement (hsized : P.FixedLengthSignatures)
    (h : FundsChannel P terms state channelId outpoint output) {settlement : Settlement}
    (hverify : settlement.verify P terms = .ok ())
    (hfresh : FreshTxid P state (closingTransaction terms settlement outpoint state.nextHeight)) :
    Admits P state (closingTransaction terms settlement outpoint state.nextHeight) ↔
      output.spendableHeight ≤ state.nextHeight := by
  constructor
  · rintro ⟨fees, hpasses⟩
    obtain ⟨-, -, -, applied, happlied, -⟩ := passes_singleton.mp hpasses
    obtain ⟨_, _, -, -, -, hmature, -⟩ :=
      applyTransaction_channel happlied List.mem_cons_self h.unspent h.lock
    exact hmature
  · intro hmature
    obtain ⟨applied, happlied, -⟩ := applyClosing_inPlace hverify (h.funded hmature)
      (Finset.notMem_empty outpoint) hfresh
    rw [h.network] at happlied
    have hsigned := (settlement_verify_iff.mp hverify).1
    have hcustomer := hsized _ hsigned.customer.signature
    have hprovider := hsized _ hsigned.provider.signature
    have hlengths : checkSignatureLengths (.inferenceSettlement terms settlement) = .ok () :=
      require_eq_ok.mpr (not_or.mpr ⟨not_not.mpr hcustomer, not_not.mpr hprovider⟩)
    have hinputs : (closingTransaction terms settlement outpoint state.nextHeight).inputs =
        [{ previous := outpoint, witness := .inferenceSettlement terms settlement }] := rfl
    have hshape : checkInputShape terms.networkId
        { previous := outpoint, witness := .inferenceSettlement terms settlement } = .ok () := by
      simp only [checkInputShape, checkTermsNetwork, checkNetwork_self, checkSignature,
        require_pos hcustomer, require_pos hprovider, ok_bind]
    obtain ⟨hresources, hencoded⟩ := closing_wellFormed (P := P) hinputs
      (channelOutputs_length _ _ _ _ _) hlengths hshape
    exact ⟨_, passes_singleton.mpr ⟨hresources, ⟨h.network, rfl⟩, hencoded, applied, happlied, rfl⟩⟩

/-- Nothing else spends the output, unless other terms have the same digest. -/
theorem closing_of_admits (h : FundsChannel P terms state channelId outpoint output)
    {transaction : Transaction} (hadmits : Admits P state transaction)
    (hmem : outpoint ∈ transaction.consumed)
    (hsame : ∀ input ∈ transaction.inputs, ∀ other ∈ input.witness.shownTerms,
      other.channelId P = terms.channelId P → other = terms) :
    transaction = refundTransaction terms outpoint state.nextHeight ∨
      ∃ settlement, settlement.verify P terms = .ok () ∧
        transaction = closingTransaction terms settlement outpoint state.nextHeight := by
  obtain ⟨fees, hpasses⟩ := hadmits
  obtain ⟨-, -, -, applied, happlied, -⟩ := passes_singleton.mp hpasses
  obtain ⟨witness, fee, hnetwork, hversion, hinputs, -, hpayout⟩ :=
    applyTransaction_channel happlied hmem h.unspent h.lock
  have hterms : ∀ other ∈ witness.shownTerms, other.channelId P = .ok channelId → other = terms := by
    intro other hother hid
    refine hsame { previous := outpoint, witness } ?_ other hother (hid.trans h.channel.symm)
    rw [hinputs]
    exact List.mem_cons_self
  obtain ⟨networkId, version, inputs, outputs⟩ := transaction
  obtain rfl : inputs = _ := hinputs
  obtain rfl : version = _ := hversion
  obtain rfl : networkId = _ := hnetwork
  cases witness with
  | key publicKey signature => exact absurd hpayout fail_ne_ok
  | inferenceSettlement other settlement =>
      simp only [closePayout, bind_eq_ok, mapErr_eq_ok, pure_eq_ok, Prod.mk.injEq] at hpayout
      obtain ⟨_, hown, _, hverify, houtputs, _⟩ := hpayout
      have hown := checkTerms_eq_ok.mp hown
      obtain rfl := hterms other rfl hown.channel
      refine .inr ⟨settlement, hverify, ?_⟩
      rw [closingTransaction, houtputs, h.network]
  | inferenceRefund other =>
      simp only [closePayout, bind_eq_ok, mapErr_eq_ok, pure_eq_ok, Prod.mk.injEq] at hpayout
      obtain ⟨_, hown, refund, hrefund, houtputs, _⟩ := hpayout
      have hown := checkTerms_eq_ok.mp hown
      obtain rfl := hterms other rfl hown.channel
      refine .inl ?_
      rw [refundTransaction, ← (refund_eq_ok hrefund).2.1, houtputs, h.network]

end

/-! ## A closed channel -/

/-- The transaction funds the channel, or shows terms of it to close it. -/
def Transaction.Concerns (P : Platform) (channelId : Bytes32) (transaction : Transaction) : Prop :=
  channelId ∈ transaction.funded ∨ ∃ input ∈ transaction.inputs, ∃ terms ∈ input.witness.shownTerms,
    terms.channelId P = .ok channelId

/-- The registries of the unspent set agree with it, and this channel is retired. -/
structure UtxoSet.Retired (utxos : UtxoSet) (channelId : Bytes32) : Prop where
  registered : Registered TxOutput.channel utxos.ledger
  retired : channelId ∈ utxos.retiredChannels

/-- A transaction that applies where the channel is retired does not concern it. -/
theorem UtxoSet.Retired.unconcerned {utxos : UtxoSet} {channelId networkId : Bytes32}
    {height : UInt64} {spent : Finset OutPoint} {transaction : Transaction}
    {applied : Applied UtxoSet} (h : utxos.Retired channelId)
    (happlied : TransactionApplied P networkId height utxos spent transaction applied) :
    ¬transaction.Concerns P channelId ∧ applied.view.Retired channelId := by
  refine ⟨?_, happlied.step.registered h.registered,
    (happlied.step.mem_retired channelId).mpr (.inl h.retired)⟩
  rintro (hfunds | ⟨input, hinput, terms, hterms, hid⟩)
  · rw [Transaction.funded, ← opens_outpointsOf (transaction.txid P)] at hfunds
    exact (happlied.step.opens_fresh channelId hfunds).2 h.retired
  · obtain ⟨previous, hget, hauthorised⟩ := happlied.authorised input hinput
    -- the terms are those of the channel that the input spends, so it is active
    have hlocked : previous.lock = .inferenceChannel channelId := by
      cases hauthorised.satisfied with
      | key owner signature _ hwitness =>
          rw [hwitness] at hterms
          cases hterms
      | settlement lockId other settlement hlock hwitness hown =>
          rw [hwitness] at hterms
          obtain rfl := Option.some.inj hterms
          rw [hlock, Except.ok.inj (hown.channel.symm.trans hid)]
      | refund lockId other hlock hwitness hown =>
          rw [hwitness] at hterms
          obtain rfl := Option.some.inj hterms
          rw [hlock, Except.ok.inj (hown.channel.symm.trans hid)]
    have hactive : channelId ∈ utxos.activeChannels :=
      (h.registered.active_iff channelId).mpr
        ⟨input.previous, previous, hget, channel_eq_some.mpr hlocked⟩
    exact Finset.disjoint_left.mp h.registered.disjoint hactive h.retired

theorem UtxoSet.Retired.transactions {networkId channelId : Bytes32} {height : UInt64}
    {transactions : List Transaction} : ∀ {acc applied : Applied UtxoSet},
      acc.view.Retired channelId →
      applyTransactions P height networkId acc transactions = .ok applied →
      (∀ transaction ∈ transactions, ¬transaction.Concerns P channelId) ∧
        applied.view.Retired channelId := by
  induction transactions with
  | nil =>
      intro acc applied h hnil
      rw [applyTransactions, List.foldlM_nil, pure_eq_ok] at hnil
      exact ⟨fun _ hmem => (by cases hmem), hnil ▸ h⟩
  | cons transaction rest ih =>
      intro acc applied h hcons
      obtain ⟨one, fee, hone, -, hrest⟩ := applyTransactions_cons.mp hcons
      obtain ⟨hfirst, hmiddle⟩ := h.unconcerned (applyTransaction_inPlace hone)
      obtain ⟨hlater, hlast⟩ := @ih { one with fee } applied hmiddle hrest
      exact ⟨List.forall_mem_cons.mpr ⟨hfirst, hlater⟩, hlast⟩

theorem UtxoSet.Retired.coinbase {utxos utxos' : UtxoSet} {channelId : Bytes32} {block : Block}
    (h : utxos.Retired channelId)
    (hstep : Step TxOutput.channel utxos.ledger (block.coinbaseEntry P) utxos'.ledger) :
    utxos'.Retired channelId :=
  ⟨hstep.registered h.registered, (hstep.mem_retired channelId).mpr (.inl h.retired)⟩

/-- So it is over a whole block. -/
theorem UtxoSet.Retired.block {params : NetworkParams} {utxos utxos' : UtxoSet} {block : Block}
    {fees : UInt64} {channelId : Bytes32} (h : utxos.Retired channelId)
    (happlied : BlockApplied P params utxos block fees utxos') :
    (∀ transaction ∈ block.transactions, ¬transaction.Concerns P channelId) ∧
      utxos'.Retired channelId := by
  obtain ⟨applied, htransactions, -, hcoinbase⟩ := happlied.transactions
  obtain ⟨hnone, hmiddle⟩ := UtxoSet.Retired.transactions h htransactions
  exact ⟨hnone, hmiddle.coinbase hcoinbase⟩

/-- The channel is retired where its output has been spent. -/
theorem retired_of_spent {utxos : UtxoSet} {channelId networkId : Bytes32} {height : UInt64}
    {spent : Finset OutPoint} {transaction : Transaction} {applied : Applied UtxoSet}
    {outpoint : OutPoint} {output : TxOutput} (hregistered : Registered TxOutput.channel utxos.ledger)
    (happlied : TransactionApplied P networkId height utxos spent transaction applied)
    (hget : utxos.get outpoint = some output) (hlock : output.lock = .inferenceChannel channelId)
    (hmem : outpoint ∈ transaction.consumed) : applied.view.Retired channelId :=
  ⟨happlied.step.registered hregistered, (happlied.step.mem_retired channelId).mpr
    (.inr (mem_closes.mpr ⟨outpoint, hmem, output, hget, channel_eq_some.mpr hlock⟩))⟩

/-- A block that spends the output of a channel does nothing to the channel after that. -/
theorem retired_of_block {params : NetworkParams} {utxos utxos' : UtxoSet} {block : Block}
    {fees : UInt64} {channelId : Bytes32} {outpoint : OutPoint} {output : TxOutput}
    (hregistered : Registered TxOutput.channel utxos.ledger)
    (happlied : BlockApplied P params utxos block fees utxos')
    (hget : utxos.get outpoint = some output) (hlock : output.lock = .inferenceChannel channelId)
    {pre post : List Transaction} {transaction : Transaction}
    (hsplit : block.transactions = pre ++ transaction :: post)
    (hmem : outpoint ∈ transaction.consumed) :
    (∀ later ∈ post, ¬later.Concerns P channelId) ∧ utxos'.Retired channelId := by
  obtain ⟨applied, htransactions, -, hcoinbase⟩ := happlied.transactions
  have hnodup := (applyTransactions_inPlace htransactions).nodup
  rw [hsplit] at htransactions hnodup
  obtain ⟨before, hbefore, hafter⟩ := applyTransactions_append.mp htransactions
  obtain ⟨one, fee, hone, -, hrest⟩ := applyTransactions_cons.mp hafter
  have hpre := applyTransactions_inPlace hbefore
  -- nothing before the transaction spends the output: no outpoint is spent twice
  have hkept : before.view.get outpoint = some output := by
    refine (hpre.run.lookup_iff outpoint output).mpr (.inl ⟨hget, ?_⟩)
    intro entry hentry hconsumed
    obtain ⟨earlier, hearlier, rfl⟩ := List.mem_map.mp hentry
    rw [references, List.flatMap_append, List.flatMap_cons] at hnodup
    exact List.disjoint_of_nodup_append hnodup
      (List.mem_flatMap.mpr ⟨earlier, hearlier, hconsumed⟩) (List.mem_append_left _ hmem)
  have hretired := retired_of_spent (hpre.run.registered hregistered)
    (applyTransaction_inPlace hone) hkept hlock hmem
  obtain ⟨hnone, hlast⟩ :=
    @UtxoSet.Retired.transactions P _ _ _ post { one with fee } applied hretired hrest
  exact ⟨hnone, hlast.coinbase hcoinbase⟩

section

variable {params : NetworkParams} {verifier : ConsensusPowVerifier}
  {accepted : List AcceptedBlock} {state : ChainState}

/-- The last block of a run, and the state it was accepted on. -/
theorem ChainRun.last {a : AcceptedBlock} {state' : ChainState}
    (h : ChainRun P params verifier (accepted ++ [a]) state') :
    ∃ state, ChainRun P params verifier accepted state ∧
      state.validateAndApply P a.block a.context = .ok (a.fees, state') := by
  generalize hlist : accepted ++ [a] = blocks at h
  cases h with
  | new _ => exact absurd hlist (List.append_ne_nil_of_right_ne_nil _ (List.cons_ne_nil _ _))
  | step hrun happly =>
      obtain ⟨rfl, hlast⟩ := List.append_inj' hlist rfl
      obtain rfl := List.singleton_inj.mp hlast
      exact ⟨_, hrun, happly⟩

/-- The first blocks of a run are a run. -/
theorem ChainRun.initial {later : List AcceptedBlock}
    (h : ChainRun P params verifier (accepted ++ later) state) :
    ∃ before, ChainRun P params verifier accepted before := by
  induction later using List.reverseRecOn generalizing state with
  | nil =>
      rw [List.append_nil] at h
      exact ⟨state, h⟩
  | append_singleton later a ih =>
      rw [← List.append_assoc] at h
      obtain ⟨base, hbase, -⟩ := h.last
      exact ih hbase

/-- A run is determined by its blocks. -/
theorem ChainRun.unique {state' : ChainState} (h : ChainRun P params verifier accepted state)
    (h' : ChainRun P params verifier accepted state') : state = state' := by
  induction h generalizing state' with
  | new hnew =>
      generalize hlist : [] = blocks at h'
      cases h' with
      | new hnew' => exact Except.ok.inj (hnew.symm.trans hnew')
      | step _ _ =>
          exact absurd hlist.symm (List.append_ne_nil_of_right_ne_nil _ (List.cons_ne_nil _ _))
  | step _ happly ih =>
      obtain ⟨base, hbase, happly'⟩ := h'.last
      obtain rfl := ih hbase
      exact (Prod.mk.inj (Except.ok.inj (happly.symm.trans happly'))).2

theorem ChainRun.retired_later {channelId : Bytes32} (h : ChainRun P params verifier accepted state)
    (hretired : state.utxos.Retired channelId) {later : List AcceptedBlock} {state' : ChainState}
    (h' : ChainRun P params verifier (accepted ++ later) state') :
    (∀ a ∈ later, ∀ transaction ∈ a.block.transactions, ¬transaction.Concerns P channelId) ∧
      state'.utxos.Retired channelId := by
  induction later using List.reverseRecOn generalizing state' with
  | nil =>
      rw [List.append_nil] at h'
      exact ⟨fun _ hmem => (by cases hmem), h.unique h' ▸ hretired⟩
  | append_singleton later a ih =>
      rw [← List.append_assoc] at h'
      obtain ⟨base, hbase, happly⟩ := h'.last
      obtain ⟨hbefore, hmiddle⟩ := ih hbase
      obtain ⟨validated, hvalid, -, rfl⟩ := validateAndApply_eq_ok.mp happly
      obtain ⟨hblock, hlast⟩ :=
        UtxoSet.Retired.block hmiddle (validateBlock_validated hvalid).applied
      refine ⟨?_, hlast⟩
      intro other hmem
      rcases List.mem_append.mp hmem with hmem | hmem
      · exact hbefore other hmem
      · obtain rfl := List.mem_singleton.mp hmem
        exact hblock

/-! ## The theorem -/

/-- What holds of an unspent channel output, in the next block and after it. -/
structure ClosesOnce (P : Platform) (params : NetworkParams) (verifier : ConsensusPowVerifier)
    (accepted : List AcceptedBlock) (state : ChainState) (terms : ChannelTerms)
    (channelId : Bytes32) (outpoint : OutPoint) (output : TxOutput) : Prop where
  refund : FreshTxid P state (refundTransaction terms outpoint state.nextHeight) →
    (Admits P state (refundTransaction terms outpoint state.nextHeight) ↔
      max terms.refundHeight.toNat output.spendableHeight.toNat ≤ state.nextHeight.toNat)
  settlement : ∀ settlement : Settlement, settlement.verify P terms = .ok () →
    FreshTxid P state (closingTransaction terms settlement outpoint state.nextHeight) →
    (Admits P state (closingTransaction terms settlement outpoint state.nextHeight) ↔
      output.spendableHeight.toNat ≤ state.nextHeight.toNat)
  /-- No other payouts: unless other terms have the digest that is the channel's identifier. -/
  only : ∀ transaction, Admits P state transaction → outpoint ∈ transaction.consumed →
    (∀ input ∈ transaction.inputs, ∀ other ∈ input.witness.shownTerms,
      other.channelId P = terms.channelId P → other = terms) →
    transaction = refundTransaction terms outpoint state.nextHeight ∨
      ∃ settlement, settlement.verify P terms = .ok () ∧
        transaction = closingTransaction terms settlement outpoint state.nextHeight
  /-- After a block has spent it: in the rest of the block, in every later block, and in
  whatever passes on any later state. -/
  once : ∀ a later state', ChainRun P params verifier (accepted ++ a :: later) state' →
    ∀ pre transaction post, a.block.transactions = pre ++ transaction :: post →
      outpoint ∈ transaction.consumed →
      (∀ other ∈ post, ¬other.Concerns P channelId) ∧
      (∀ b ∈ later, ∀ other ∈ b.block.transactions, ¬other.Concerns P channelId) ∧
      ∀ transactions fees, Passes P state' transactions fees →
        ∀ other ∈ transactions, ¬other.Concerns P channelId

theorem funded_channel_closes_once (hsized : P.FixedLengthSignatures)
    (hrun : ChainRun P params verifier accepted state) {terms : ChannelTerms}
    {channelId : Bytes32} {outpoint : OutPoint} {output : TxOutput}
    (h : FundsChannel P terms state channelId outpoint output) :
    ClosesOnce P params verifier accepted state terms channelId outpoint output where
  refund := admits_refund h
  settlement settlement hverify hfresh := by
    rw [admits_settlement hsized h hverify hfresh, UInt64.le_iff_toNat_le]
  only transaction := closing_of_admits h
  once a later state' hlater pre transaction post hsplit hmem := by
    rw [List.append_cons] at hlater
    obtain ⟨next, hnext⟩ : ∃ next, ChainRun P params verifier (accepted ++ [a]) next :=
      hlater.initial
    obtain ⟨base, hbase, happly⟩ := hnext.last
    obtain rfl := hrun.unique hbase
    obtain ⟨validated, hvalid, -, rfl⟩ := validateAndApply_eq_ok.mp happly
    obtain ⟨hpost, hretired⟩ := retired_of_block hrun.registered
      (validateBlock_validated hvalid).applied h.unspent h.lock hsplit hmem
    obtain ⟨hblocks, hlast⟩ := hnext.retired_later hretired hlater
    refine ⟨hpost, hblocks, ?_⟩
    intro transactions fees hpasses
    obtain ⟨-, -, -, applied, happlied, -⟩ := passes_iff.mp hpasses
    exact (UtxoSet.Retired.transactions hlast happlied).1

/-! ## Closing the sample channel -/

/-- The output that funds the sample channel. -/
def sampleOutpoint : OutPoint := ⟨sampleFunding.txid samplePlatform, 0⟩

def sampleChannelOutput : TxOutput :=
  { value := 90000, lock := .inferenceChannel sampleChannel, spendableHeight := 2 }

/-- The sample channel is refunded at height three, when its refund height has come. -/
def sampleRefund : Transaction := refundTransaction sampleTerms sampleOutpoint 3

def sampleBlock₃ : Block := sampleBlock sampleState₂ 1180 100 [sampleRefund]

def sampleState₃ : ChainState := sampleApply sampleState₂ sampleBlock₃

theorem sampleBlock₃_applied :
    sampleState₂.validateAndApply samplePlatform sampleBlock₃ ⟨1180⟩ = .ok (100, sampleState₃) :=
  sampleApply_eq_ok (by decide +kernel)

theorem samplePlatform_fixedLengthSignatures : samplePlatform.FixedLengthSignatures :=
  fun _ h => of_decide_eq_true h

theorem sampleFundsChannel : FundsChannel samplePlatform sampleTerms sampleState₂ sampleChannel
    sampleOutpoint sampleChannelOutput where
  unspent := by decide +kernel
  lock := rfl
  channel := sampleTerms_channelId
  deposit := rfl
  network := by
    rw [sampleRun.constant.1]
    rfl

/-- At height three a settlement passes too, but not after the refund. -/
theorem funded_channel_closes_once_sample :
    Admits samplePlatform sampleState₂
      (closingTransaction sampleTerms (.close samplePlatform (sampleSigned 1) ⟨toBytes 6⟩)
        sampleOutpoint sampleState₂.nextHeight) ∧
      ∀ height, ¬Admits samplePlatform sampleState₃
        (closingTransaction sampleTerms (.close samplePlatform (sampleSigned 1) ⟨toBytes 6⟩)
          sampleOutpoint height) := by
  have hverify : (Settlement.close samplePlatform (sampleSigned 1) ⟨toBytes 6⟩).verify
      samplePlatform sampleTerms = .ok () := by
    obtain ⟨older, hstates⟩ := sampleStates_eq 1
    have hchain := sampleStates_accepted 1
    rw [hstates] at hchain
    have hlength : older.length < 2 ^ 64 := by
      have hone := length_sampleStates 1
      rw [hstates, List.length_cons] at hone
      omega
    exact hchain.close samplePlatform_signsCorrectly hlength rfl
  have hcloses := funded_channel_closes_once samplePlatform_fixedLengthSignatures sampleRun
    sampleFundsChannel
  constructor
  · refine (hcloses.settlement _ hverify ?_).mpr ?_
    · intro index
      exact UtxoSet.get_eq_none_of_txid (by decide +kernel) index
    · rw [sampleRun.nextHeight]
      exact Nat.le_of_ble_eq_true rfl
  · rintro height ⟨fees, hpasses⟩
    have hafter := hcloses.once _ [] _ (sampleRun.step sampleBlock₃_applied) [] sampleRefund [] rfl
      List.mem_cons_self
    refine hafter.2.2 _ _ hpasses _ List.mem_cons_self (.inr ⟨_, List.mem_cons_self, sampleTerms,
      rfl, sampleTerms_channelId⟩)

end

end CommonFoundry
