/-
# `CommonFoundry.Consensus.ChannelChain` — chains of payment states, and closing them

A channel off the chain is a sequence of states, each accepted by `verify_state`
after the one before it.  Over any such sequence the amounts always use up the
deposit, the counters move one way, and every state of it can close the channel
on chain (`channel_chain_laws`).

Every law holds at every length, except that the sequence number is a 64-bit
word: it counts `0, 1, 2, …` for the first `2 ^ 64` states and then, in a build
without overflow checks, starts again at zero.  `AcceptedChain.sequence` says
so; `sampleStates_accepted` is a chain that gets there.
-/
import CommonFoundry.Consensus.ChainRun

namespace CommonFoundry

open Lib Lib.Outcome Lib.Ledger

variable {P : Platform} {terms : ChannelTerms}

/-- States accepted one after another, the newest first. -/
inductive AcceptedChain (P : Platform) (terms : ChannelTerms) : List SignedPaymentState → Prop
  | opening {signed : SignedPaymentState} {receipt : Option SignedInferenceReceipt} :
      terms.verifyState P none signed receipt = .ok () → AcceptedChain P terms [signed]
  | successor {signed prior : SignedPaymentState} {older : List SignedPaymentState}
      {receipt : Option SignedInferenceReceipt} :
      AcceptedChain P terms (prior :: older) →
      terms.verifyState P (some prior) signed receipt = .ok () →
      AcceptedChain P terms (signed :: prior :: older)

/-! ## One step -/

/-- What a successor leaves as it was and what it may change, apart from the
sequence number. -/
structure Monotone (terms : ChannelTerms) (newer older : PaymentState) : Prop where
  inputTokens : newer.inputTokens = older.inputTokens
  outputTokens : older.authorizedOutputTokens ≤ newer.authorizedOutputTokens
  chunk : newer.authorizedOutputTokens.toNat ≤
    older.authorizedOutputTokens.toNat + terms.outputChunkTokens.toNat
  payment : older.providerPayment ≤ newer.providerPayment
  refund : newer.customerRefund ≤ older.customerRefund

theorem verifySuccessor_counters {prior signed : SignedPaymentState}
    {receipt : Option SignedInferenceReceipt} {u : Unit}
    (h : terms.verifySuccessor P prior signed receipt = .ok u) :
    signed.state.sequence = prior.state.sequence + 1 ∧
      signed.state.inputTokens = prior.state.inputTokens ∧
      prior.state.authorizedOutputTokens ≤ signed.state.authorizedOutputTokens ∧
      signed.state.authorizedOutputTokens.toNat ≤
        prior.state.authorizedOutputTokens.toNat + terms.outputChunkTokens.toNat := by
  simp only [ChannelTerms.verifySuccessor, bind_eq_ok, require_eq_ok, plainAdd_eq_ok] at h
  obtain ⟨sequence, ⟨rfl, _⟩, _, hsequence, _, hinput, _, houtput, _⟩ := h
  rw [not_or, UInt64.not_lt] at houtput
  obtain ⟨hgrows, hchunk⟩ := houtput
  refine ⟨hsequence, hinput, hgrows, ?_⟩
  have hle := UInt64.le_iff_toNat_le.mp hgrows
  have hsub := UInt64.le_iff_toNat_le.mp (UInt64.not_lt.mp hchunk)
  rw [toNat_sub_of_le hle] at hsub
  omega

/-- The amounts follow the counters. -/
theorem monotone_of_counters {newer older : PaymentState} (hnewer : AmountsOf terms newer)
    (holder : AmountsOf terms older) (hinput : newer.inputTokens = older.inputTokens)
    (houtput : older.authorizedOutputTokens ≤ newer.authorizedOutputTokens)
    (hchunk : newer.authorizedOutputTokens.toNat ≤
      older.authorizedOutputTokens.toNat + terms.outputChunkTokens.toNat) :
    Monotone terms newer older := by
  have hprice : _ ≤ terms.price newer.inputTokens newer.authorizedOutputTokens :=
    price_mono newer.inputTokens houtput
  have hpayment : older.providerPayment.toNat ≤ newer.providerPayment.toNat := by
    rw [hnewer.payment, holder.payment, ← hinput]
    exact hprice
  have hnewerDeposit := hnewer.deposit
  have holderDeposit := holder.deposit
  rw [hnewer.fee] at hnewerDeposit
  rw [holder.fee] at holderDeposit
  exact ⟨hinput, houtput, hchunk, UInt64.le_iff_toNat_le.mpr hpayment,
    UInt64.le_iff_toNat_le.mpr (by omega)⟩

/-! ## Chains -/

theorem AcceptedChain.amounts {chain : List SignedPaymentState}
    (h : AcceptedChain P terms chain) : ∀ signed ∈ chain,
      terms.channelId P = .ok signed.state.channelId ∧ terms.verifyAmounts P signed = .ok () := by
  induction h with
  | opening hverify =>
      intro signed hmem
      obtain rfl := List.mem_singleton.mp hmem
      exact verifyState_amounts hverify
  | successor _ hverify ih =>
      intro signed hmem
      rcases List.mem_cons.mp hmem with rfl | hmem
      · exact verifyState_amounts hverify
      · exact ih signed hmem

theorem AcceptedChain.amountsOf {chain : List SignedPaymentState}
    (h : AcceptedChain P terms chain) {signed : SignedPaymentState} (hmem : signed ∈ chain) :
    AmountsOf terms signed.state :=
  (stateFor_eq_ok (verifyAmounts_eq_ok.mp (h.amounts signed hmem).2).1).1

/-- The sequence number of a state is its position, as a 64-bit word. -/
theorem AcceptedChain.sequence {signed : SignedPaymentState} {older : List SignedPaymentState}
    (h : AcceptedChain P terms (signed :: older)) :
    signed.state.sequence = UInt64.ofNat older.length := by
  induction older generalizing signed with
  | nil =>
      cases h with
      | opening hverify =>
          have hopening := (verifyState_none_eq_ok.mp hverify).2.1
          simp only [ChannelTerms.verifyOpening, bind_eq_ok, require_eq_ok] at hopening
          obtain ⟨_, hzero, _⟩ := hopening
          rw [not_or, Decidable.not_not] at hzero
          exact hzero.1
  | cons prior older ih =>
      cases h with
      | successor hchain hverify =>
          have hsuccessor := (verifyState_some_eq_ok.mp hverify).2.1
          rw [(verifySuccessor_counters hsuccessor).1, ih hchain, List.length_cons,
            UInt64.ofNat_add]
          rfl

theorem AcceptedChain.suffix {pre : List SignedPaymentState} {signed : SignedPaymentState}
    {older : List SignedPaymentState} (h : AcceptedChain P terms (pre ++ signed :: older)) :
    AcceptedChain P terms (signed :: older) := by
  induction pre with
  | nil => exact h
  | cons newest pre ih =>
      refine ih ?_
      cases pre with
      | nil =>
          cases h with
          | successor hchain _ => exact hchain
      | cons next pre =>
          cases h with
          | successor hchain _ => exact hchain

/-- Consecutive states: the counter goes up by one word, the rest is monotone. -/
theorem AcceptedChain.consecutive {signed prior : SignedPaymentState}
    {older : List SignedPaymentState} (h : AcceptedChain P terms (signed :: prior :: older)) :
    Monotone terms signed.state prior.state := by
  have hsigned := h.amountsOf List.mem_cons_self
  have hprior := h.amountsOf (List.mem_cons_of_mem _ List.mem_cons_self)
  cases h with
  | successor hchain hverify =>
      have hsuccessor := (verifyState_some_eq_ok.mp hverify).2.1
      obtain ⟨_, hinput, houtput, hchunk⟩ := verifySuccessor_counters hsuccessor
      exact monotone_of_counters hsigned hprior hinput houtput hchunk

/-- Below `2 ^ 64` states the word is the position itself. -/
theorem AcceptedChain.sequence_toNat {signed : SignedPaymentState}
    {older : List SignedPaymentState} (h : AcceptedChain P terms (signed :: older))
    (hlength : older.length < 2 ^ 64) : signed.state.sequence.toNat = older.length := by
  rw [h.sequence, UInt64.toNat_ofNat']
  exact Nat.mod_eq_of_lt hlength

/-! ## Closing on chain -/

/-- The transaction that closes a channel with a settlement, laid out for a height. -/
def closingTransaction (terms : ChannelTerms) (settlement : Settlement) (outpoint : OutPoint)
    (height : UInt64) : Transaction where
  networkId := terms.networkId
  version := transactionVersion
  inputs := [{ previous := outpoint, witness := .inferenceSettlement terms settlement }]
  outputs := channelOutputs settlement.state.state.providerPayment terms.providerKey
    settlement.state.state.customerRefund terms.customerKey height

/-- The output at `outpoint` is funded for these terms and spendable at this height. -/
structure Funded (P : Platform) (terms : ChannelTerms) (utxos : UtxoSet) (outpoint : OutPoint)
    (output : TxOutput) (height : UInt64) : Prop where
  unspent : utxos.get outpoint = some output
  value : output.value = terms.deposit
  lock : ∃ channelId, terms.channelId P = .ok channelId ∧
    output.lock = .inferenceChannel channelId
  mature : output.spendableHeight ≤ height

/-- The settlement is accepted on chain: wherever in a block its transaction
stands, against any output funded for the terms that the block has not spent,
unless the transaction's identifier collides with one of an unspent output. -/
def AcceptedOnChain (P : Platform) (terms : ChannelTerms) (settlement : Settlement) : Prop :=
  ∀ (base : UtxoSet) (overlay : UtxoOverlay) (spent : Finset OutPoint) (outpoint : OutPoint)
    (output : TxOutput) (height : UInt64), UtxoOverlay.Staged base overlay →
    Funded P terms overlay.view outpoint output height → outpoint ∉ spent →
    (∀ index, overlay.view.get
      { txid := (closingTransaction terms settlement outpoint height).txid P, index } = none) →
    ∃ applied, applyTransaction P overlay (closingTransaction terms settlement outpoint height)
      height terms.networkId spent = .ok applied ∧ applied.fee = terms.closeFeeBurn

theorem valueOf_channelOutputs (providerValue customerValue height : UInt64)
    (providerKey customerKey : Bytes32) :
    valueOf (channelOutputs providerValue providerKey customerValue customerKey height) =
      providerValue.toNat + customerValue.toNat := by
  rw [channelOutputs, valueOf_append, valueOf_optional, valueOf_optional]

theorem channelOutputs_ne_zero {providerValue customerValue height : UInt64}
    {providerKey customerKey : Bytes32} :
    ∀ output ∈ channelOutputs providerValue providerKey customerValue customerKey height,
      output.value ≠ 0 := by
  intro output hmem
  unfold channelOutputs at hmem
  rcases List.mem_append.mp hmem with hmem | hmem
  · split at hmem
    · next hpos =>
        rw [List.mem_singleton] at hmem
        rw [hmem]
        exact fun heq => absurd hpos (by simp [show providerValue = 0 from heq])
    · cases hmem
  · split at hmem
    · next hpos =>
        rw [List.mem_singleton] at hmem
        rw [hmem]
        exact fun heq => absurd hpos (by simp [show customerValue = 0 from heq])
    · cases hmem

theorem channelOutputs_length (providerValue customerValue height : UInt64)
    (providerKey customerKey : Bytes32) :
    (channelOutputs providerValue providerKey customerValue customerKey height).length ≤ 2 := by
  rw [channelOutputs, List.length_append]
  split <;> split <;> simp

/-- The outputs of a closing can be inserted where their outpoints are free. -/
theorem insertChannelOutputs_ok {utxos : UtxoSet} {txid : Bytes32}
    {providerKey customerKey : Bytes32} {providerValue customerValue height : UInt64}
    (hfree : ∀ index, utxos.outputs.lookup { txid, index } = none) :
    ∃ view, insertOutputs utxos txid
      (channelOutputs providerValue providerKey customerValue customerKey height) = .ok view := by
  refine insertKeyOutputs_ok ?_ (nodup_outpointsOf _ ?_) ?_
  · intro kv hmem
    have hout := (mem_outpointsOf hmem).2
    exact ⟨channelOutputs_ne_zero _ hout, channelOutputs_channel _ hout⟩
  · exact (channelOutputs_length _ _ _ _ _).trans (by decide)
  · intro kv hmem
    have hkey : kv.1 = { txid, index := kv.1.index } := by
      rw [← (mem_outpointsOf hmem).1]
    rw [hkey]
    exact hfree kv.1.index

/-- A transaction that spends a channel output with a closing witness, and pays what
the witness commits to, is accepted in place. -/
theorem applyPayout_inPlace {transaction : Transaction} {witness : InputWitness} {utxos : UtxoSet}
    {spent : Finset OutPoint} {outpoint : OutPoint} {output : TxOutput} {height : UInt64}
    {networkId channelId providerKey customerKey : Bytes32} {providerValue customerValue fee : UInt64}
    (hnetwork : transaction.networkId = networkId)
    (hversion : transaction.version = transactionVersion)
    (hinputs : transaction.inputs = [{ previous := outpoint, witness }])
    (houtputs : transaction.outputs =
      channelOutputs providerValue providerKey customerValue customerKey height)
    (hkind : witness.isKey = false)
    (hpayout : closePayout P witness networkId channelId output.value height =
      .ok (channelOutputs providerValue providerKey customerValue customerKey height, fee))
    (hvalue : providerValue.toNat + customerValue.toNat + fee.toNat = output.value.toNat)
    (hless : fee.toNat < output.value.toNat) (hget : utxos.get outpoint = some output)
    (hlock : output.lock = .inferenceChannel channelId) (hmature : output.spendableHeight ≤ height)
    (hunspent : outpoint ∉ spent)
    (hfree : ∀ index, utxos.get { txid := transaction.txid P, index } = none) :
    ∃ applied, applyTransaction P utxos transaction height networkId spent = .ok applied ∧
      applied.fee = fee := by
  have hsum : valueOf transaction.outputs = providerValue.toNat + customerValue.toNat := by
    rw [houtputs, valueOf_channelOutputs]
  have hbound := toNat_lt output.value
  obtain ⟨total, htotal⟩ : ∃ total, outputTotal transaction.outputs = .ok total :=
    outputTotal_ok (by omega)
  have hpaid : checkedAdd total fee = some output.value := by
    rw [checkedAdd_eq_some, outputTotal_toNat htotal, hsum, hvalue]
  obtain ⟨view, hview⟩ : ∃ view, insertOutputs
      (UtxoView.stageRetiredChannel (UtxoView.stageActiveChannel
        (UtxoView.stageOutput utxos outpoint none) channelId false) channelId true)
      (transaction.txid P) transaction.outputs = .ok view := by
    rw [houtputs]
    refine insertChannelOutputs_ok fun index => ?_
    show (utxos.outputs.erase outpoint).lookup _ = none
    by_cases heq : { txid := transaction.txid P, index } = outpoint
    · rw [heq, Finmap.lookup_erase]
    · rw [Finmap.lookup_erase_ne heq]
      exact hfree index
  have hchannel : applyChannelTransaction P utxos transaction height networkId spent =
      .ok { fee, view, spent := insert outpoint spent } := by
    simp only [applyChannelTransaction, bind_eq_ok, require_eq_ok, pure_eq_ok, okOr_eq_ok,
      soleInput_eq_ok, markSpent_eq_ok, lockedChannel_eq_ok]
    exact ⟨_, hinputs, _, ⟨hunspent, rfl⟩, output, hget, (), UInt64.not_lt.mpr hmature, channelId,
      hlock, _, hpayout, (), houtputs, total, htotal, output.value, hpaid, (), rfl, view, hview,
      rfl⟩
  have hnonempty : ¬transaction.outputs.isEmpty := by
    intro hempty
    rw [List.isEmpty_iff.mp hempty] at hsum
    have hzero : valueOf [] = 0 := rfl
    omega
  have hnonzero : ¬transaction.outputs.any fun output => output.value = 0 := by
    rw [List.any_eq_true]
    rintro ⟨out, hmem, hzero⟩
    rw [houtputs] at hmem
    exact channelOutputs_ne_zero out hmem (of_decide_eq_true hzero)
  have hclosing : (transaction.inputs.any fun input => !input.witness.isKey) = true := by
    rw [hinputs, List.any_cons, hkind]
    rfl
  refine ⟨{ fee, view, spent := insert outpoint spent }, ?_, rfl⟩
  rw [applyTransaction, require_pos hnetwork, ok_bind, require_pos hversion, ok_bind,
    require_pos (by rw [hinputs]; exact Bool.noConfusion), ok_bind, require_pos hnonempty, ok_bind,
    require_pos hnonzero, ok_bind, if_pos hclosing, hchannel]

/-- A dual-signed settlement that `Settlement::verify` accepts is accepted in place. -/
theorem applyClosing_inPlace {settlement : Settlement} {utxos : UtxoSet}
    {spent : Finset OutPoint} {outpoint : OutPoint} {output : TxOutput} {height : UInt64}
    (hverify : settlement.verify P terms = .ok ())
    (hfunded : Funded P terms utxos outpoint output height) (hunspent : outpoint ∉ spent)
    (hfree : ∀ index, utxos.get
      { txid := (closingTransaction terms settlement outpoint height).txid P, index } = none) :
    ∃ applied, applyTransaction P utxos (closingTransaction terms settlement outpoint height)
      height terms.networkId spent = .ok applied ∧ applied.fee = terms.closeFeeBurn := by
  obtain ⟨hsigned, -⟩ := settlement_verify_iff.mp hverify
  obtain ⟨hamounts, -⟩ := stateFor_eq_ok hsigned.amounts
  obtain ⟨channelId, hid, hlock⟩ := hfunded.lock
  have hpayout : closePayout P (.inferenceSettlement terms settlement) terms.networkId channelId
      output.value height = .ok (channelOutputs settlement.state.state.providerPayment
        terms.providerKey settlement.state.state.customerRefund terms.customerKey height,
        terms.closeFeeBurn) := by
    have hterms : checkTerms P terms terms.networkId channelId output.value = .ok () :=
      checkTerms_eq_ok.mpr ⟨rfl, hid, hfunded.value.symm⟩
    rw [closePayout, hterms, hverify, ← hamounts.fee]
    rfl
  have hvalue : settlement.state.state.providerPayment.toNat +
      settlement.state.state.customerRefund.toNat + terms.closeFeeBurn.toNat =
        output.value.toNat := by
    rw [hfunded.value, ← hamounts.deposit, hamounts.fee]
  have hless : terms.closeFeeBurn.toNat < output.value.toNat := by
    rw [hfunded.value]
    have hlt := channelId_eq_ok hid
    omega
  exact applyPayout_inPlace rfl rfl rfl rfl rfl hpayout hvalue hless hfunded.unspent hlock
    hfunded.mature hunspent hfree

/-- And hence on any overlay, anywhere in a block. -/
theorem acceptedOnChain_of_verify {settlement : Settlement}
    (hverify : settlement.verify P terms = .ok ()) : AcceptedOnChain P terms settlement := by
  intro base overlay spent outpoint output height hstaged hfunded hunspent hfree
  obtain ⟨applied, happlied, hfee⟩ := applyClosing_inPlace hverify hfunded hunspent hfree
  obtain ⟨htracks, -⟩ := applyTransaction_refines (UtxoOverlay.refines base) P hstaged
    (closingTransaction terms settlement outpoint height) height terms.networkId spent
  rw [happlied] at htracks
  cases hresult : applyTransaction P overlay (closingTransaction terms settlement outpoint height)
      height terms.networkId spent with
  | error fault =>
      rw [hresult] at htracks
      cases htracks
  | ok staged =>
      rw [hresult] at htracks
      refine ⟨staged, rfl, ?_⟩
      rw [← hfee, Except.ok.inj htracks]
      rfl

/-! ## The laws of a chain -/

/-- What a channel promises about a chain of states, the newest first. -/
structure ChannelLaws (P : Platform) (terms : ChannelTerms) (chain : List SignedPaymentState) :
    Prop where
  /-- Every state uses up the deposit. -/
  conserved : ∀ signed ∈ chain, signed.state.providerPayment.toNat +
    signed.state.customerRefund.toNat + signed.state.closeFeeBurn.toNat = terms.deposit.toNat
  /-- Each state follows the one before it. -/
  steps : chain.IsChain fun newer older =>
    newer.state.sequence.toNat = older.state.sequence.toNat + 1 ∧
      Monotone terms newer.state older.state
  /-- The provider can close the channel with any of them. -/
  closable : ∀ signed ∈ chain, ∀ provider, P.publicKey provider = terms.providerKey →
    (Settlement.close P signed provider).verify P terms = .ok () ∧
      AcceptedOnChain P terms (Settlement.close P signed provider)

theorem AcceptedChain.steps {chain : List SignedPaymentState} (h : AcceptedChain P terms chain)
    (hlength : chain.length ≤ 2 ^ 64) :
    chain.IsChain fun newer older => newer.state.sequence.toNat = older.state.sequence.toNat + 1 ∧
      Monotone terms newer.state older.state := by
  induction h with
  | opening _ => exact .singleton _
  | @successor signed prior older receipt hchain hverify ih =>
      have hfull := AcceptedChain.successor hchain hverify
      rw [List.length_cons, List.length_cons] at hlength
      have hsigned : signed.state.sequence.toNat = older.length + 1 :=
        hfull.sequence_toNat (by rw [List.length_cons]; omega)
      have hprior : prior.state.sequence.toNat = older.length :=
        hchain.sequence_toNat (by omega)
      exact .cons_cons ⟨by rw [hsigned, hprior], hfull.consecutive⟩
        (ih (by rw [List.length_cons]; omega))

/-- A state closes the channel, unless it bears sequence number zero without
being the opening state. -/
theorem AcceptedChain.close (hsigns : P.SignsCorrectly) {signed : SignedPaymentState}
    {older : List SignedPaymentState} (h : AcceptedChain P terms (signed :: older))
    (hlength : older.length < 2 ^ 64) {provider : SigningKey}
    (hprovider : P.publicKey provider = terms.providerKey) :
    (Settlement.close P signed provider).verify P terms = .ok () := by
  obtain ⟨_, hamounts⟩ := h.amounts signed List.mem_cons_self
  obtain ⟨hstate, hcustomer⟩ := verifyAmounts_eq_ok.mp hamounts
  have hsignature : P.Verifies terms.providerKey (settlementDigest P signed)
      (P.sign provider (settlementDigest P signed)).1 := by
    rw [← hprovider]
    exact ⟨hsigns.verifyingKey _, hsigns.signature _ _, hsigns.verify _ _⟩
  refine settlement_verify_iff.mpr ⟨⟨hstate, hcustomer, hsignature⟩, fun hzero => ?_⟩
  have hposition := h.sequence_toNat hlength
  have hword : signed.state.sequence = 0 := hzero
  rw [hword, UInt64.toNat_zero] at hposition
  obtain rfl : older = [] := List.length_eq_zero_iff.mp hposition.symm
  cases h with
  | opening hverify => exact (verifyState_none_eq_ok.mp hverify).2.1

/-- At position `2 ^ 64` the counter is back at zero. -/
theorem AcceptedChain.wraps {newer older : SignedPaymentState} {rest : List SignedPaymentState}
    (h : AcceptedChain P terms (newer :: older :: rest)) (hlength : rest.length = 2 ^ 64 - 1) :
    newer.state.sequence.toNat ≠ older.state.sequence.toNat + 1 := by
  have hzero : newer.state.sequence.toNat = 0 := by
    rw [h.sequence, List.length_cons, hlength]
    rfl
  rw [hzero]
  omega

theorem not_laws_of_long {chain : List SignedPaymentState} (h : AcceptedChain P terms chain)
    (hlong : 2 ^ 64 < chain.length) : ¬ChannelLaws P terms chain := by
  intro hlaws
  -- the states at positions `2 ^ 64` and `2 ^ 64 - 1`, counted from the opening state
  have hlast : chain.length - 2 ^ 64 - 1 < chain.length := by omega
  have hprev : chain.length - 2 ^ 64 - 1 + 1 < chain.length := by omega
  have hsplit := List.take_append_drop (chain.length - 2 ^ 64 - 1) chain
  rw [List.drop_eq_getElem_cons hlast, List.drop_eq_getElem_cons hprev] at hsplit
  have hchain := h
  have hsteps := hlaws.steps
  rw [← hsplit] at hchain hsteps
  have hpair := (List.isChain_append.mp hsteps).2.1
  refine hchain.suffix.wraps ?_ (List.isChain_cons_cons.mp hpair).1.1
  rw [List.length_drop]
  omega

/-! ## A sample chain of any length -/

/-- The provider's receipt for the `n`-th sample state. -/
def sampleReceipt (n : Nat) : SignedInferenceReceipt :=
  .sign samplePlatform {
    channelId := sampleChannel
    stateSequence := UInt64.ofNat n
    inputTokens := 1
    deliveredOutputTokens := 0
    rollingOutputDigest := zero32
    completed := false } ⟨toBytes 6⟩

/-- What the `n`-th sample state links to. -/
def sampleLink : Nat → Bytes32
  | 0 => zero32
  | n + 1 => (sampleReceipt n).digest samplePlatform

/-- The `n`-th sample state: one token each way, again and again. -/
def samplePayment (n : Nat) : PaymentState where
  channelId := sampleChannel
  sequence := UInt64.ofNat n
  inputTokens := 1
  authorizedOutputTokens := 1
  providerPayment := 1002
  customerRefund := 88898
  closeFeeBurn := 100
  previousReceipt := sampleLink n

def sampleSigned (n : Nat) : SignedPaymentState := .sign samplePlatform (samplePayment n) ⟨toBytes 3⟩

/-- The sample states up to the `n`-th, the newest first. -/
def sampleStates : Nat → List SignedPaymentState
  | 0 => [sampleSigned 0]
  | n + 1 => sampleSigned (n + 1) :: sampleStates n

theorem sampleStates_eq : ∀ n, ∃ older, sampleStates n = sampleSigned n :: older
  | 0 => ⟨[], rfl⟩
  | n + 1 => ⟨sampleStates n, rfl⟩

theorem length_sampleStates : ∀ n, (sampleStates n).length = n + 1
  | 0 => rfl
  | n + 1 => by rw [sampleStates, List.length_cons, length_sampleStates n]

theorem sampleTerms_channelId :
    sampleTerms.channelId samplePlatform = .ok sampleChannel := by decide +kernel

theorem sampleSigned_amounts (n : Nat) :
    sampleTerms.verifyAmounts samplePlatform (sampleSigned n) = .ok () := by
  have hquoted : sampleTerms.quotedPayment 1 1 = .ok 1002 := by decide
  have hsigns := samplePlatform_signsCorrectly
  refine verifyAmounts_eq_ok.mpr ⟨?_, hsigns.verifyingKey ⟨toBytes 3⟩, hsigns.signature _ _,
    hsigns.verify ⟨toBytes 3⟩ _⟩
  show sampleTerms.stateFor samplePlatform (UInt64.ofNat n) 1 1 (sampleLink n) = _
  rw [ChannelTerms.stateFor, hquoted, ok_bind, sampleTerms_channelId]
  rfl

theorem sampleReceipt_verifies (n : Nat) :
    sampleTerms.verifyReceipt samplePlatform (sampleSigned n) (sampleReceipt n) = .ok () := by
  have hsigns := samplePlatform_signsCorrectly
  simp only [ChannelTerms.verifyReceipt, bind_eq_ok, require_eq_ok, not_or, Decidable.not_not]
  refine ⟨sampleChannel, sampleTerms_channelId, (), ⟨rfl, rfl⟩, (), ⟨rfl, ?_⟩, ?_⟩
  · show ¬(0 : UInt64) > 1
    decide
  · exact verifySignature_eq_ok.mpr ⟨hsigns.verifyingKey ⟨toBytes 6⟩, hsigns.signature _ _,
      hsigns.verify ⟨toBytes 6⟩ _⟩

/-- Each sample state is accepted after the one before it: the build has no
overflow checks. -/
theorem sampleSigned_accepted (n : Nat) :
    sampleTerms.verifyState samplePlatform (some (sampleSigned n)) (sampleSigned (n + 1))
      (some (sampleReceipt n)) = .ok () := by
  have hsequence : (sampleSigned (n + 1)).state.sequence = (sampleSigned n).state.sequence + 1 := by
    show UInt64.ofNat (n + 1) = UInt64.ofNat n + 1
    rw [UInt64.ofNat_add]
    rfl
  refine verifyState_some_eq_ok.mpr ⟨sampleTerms_channelId, ?_, sampleSigned_amounts (n + 1)⟩
  simp only [ChannelTerms.verifySuccessor, bind_eq_ok, require_eq_ok, plainAdd_eq_ok, okOr_some,
    not_or]
  refine ⟨_, ⟨rfl, fun hchecks => (by cases hchecks)⟩, (), hsequence, (), rfl, (), ?_,
    sampleReceipt n, rfl, (), sampleReceipt_verifies n, rfl⟩
  show ¬(1 : UInt64) < 1 ∧ ¬(1 : UInt64) - 1 > 100
  decide

/-- The sample chain is accepted at every length. -/
theorem sampleStates_accepted : ∀ n, AcceptedChain samplePlatform sampleTerms (sampleStates n)
  | 0 => by
      have hopening : sampleTerms.verifyState samplePlatform none (sampleSigned 0) none = .ok () :=
        verifyState_none_eq_ok.mpr ⟨sampleTerms_channelId, by decide,
          sampleSigned_amounts 0⟩
      exact .opening hopening
  | n + 1 => by
      have hprior := sampleStates_accepted n
      obtain ⟨older, holder⟩ := sampleStates_eq n
      rw [sampleStates, holder]
      rw [holder] at hprior
      exact .successor hprior (sampleSigned_accepted n)

/-! ## The theorem -/

/-- A chain obeys the laws exactly as long as its counter does not wrap. -/
theorem channel_chain_laws (hsigns : P.SignsCorrectly) {chain : List SignedPaymentState}
    (h : AcceptedChain P terms chain) :
    ChannelLaws P terms chain ↔ chain.length ≤ 2 ^ 64 := by
  constructor
  · intro hlaws
    by_contra hlong
    exact not_laws_of_long h (by omega) hlaws
  · intro hlength
    refine ⟨fun signed hmem => (h.amountsOf hmem).deposit, h.steps hlength, ?_⟩
    intro signed hmem provider hprovider
    obtain ⟨pre, older, rfl⟩ := List.append_of_mem hmem
    have holder : older.length < 2 ^ 64 := by
      rw [List.length_append, List.length_cons] at hlength
      omega
    have hverify := h.suffix.close hsigns holder hprovider
    exact ⟨hverify, acceptedOnChain_of_verify hverify⟩

/-- Two sample states, and the second of them closing the channel that the
sample chain funded. -/
theorem channel_chain_laws_sample :
    ChannelLaws samplePlatform sampleTerms (sampleStates 1) ∧
      ∃ applied, applyTransaction samplePlatform (UtxoOverlay.new sampleState₂.utxos)
        (closingTransaction sampleTerms (.close samplePlatform (sampleSigned 1) ⟨toBytes 6⟩)
          ⟨sampleFunding.txid samplePlatform, 0⟩ 3) 3 sampleTerms.networkId ∅ = .ok applied ∧
        applied.fee = 100 := by
  have hlaws := (channel_chain_laws samplePlatform_signsCorrectly (sampleStates_accepted 1)).mpr
    (by rw [length_sampleStates]; decide)
  refine ⟨hlaws, (hlaws.closable (sampleSigned 1) List.mem_cons_self ⟨toBytes 6⟩ rfl).2
    sampleState₂.utxos _ _ _
    { value := 90000, lock := .inferenceChannel sampleChannel, spendableHeight := 2 } 3
    (UtxoOverlay.staged_new _) ?_ (Finset.notMem_empty _) ?_⟩
  · rw [UtxoOverlay.view_new]
    exact ⟨by decide +kernel, rfl, ⟨sampleChannel, sampleTerms_channelId, rfl⟩, by decide⟩
  · rw [UtxoOverlay.view_new]
    exact UtxoSet.get_eq_none_of_txid (by decide +kernel)

/-- At `2 ^ 64 + 1` states the counter has wrapped and the laws fail. -/
theorem channel_chain_wraps :
    AcceptedChain samplePlatform sampleTerms (sampleStates (2 ^ 64)) ∧
      ¬ChannelLaws samplePlatform sampleTerms (sampleStates (2 ^ 64)) := by
  have hchain := sampleStates_accepted (2 ^ 64)
  refine ⟨hchain, not_laws_of_long hchain ?_⟩
  rw [length_sampleStates]
  exact Nat.lt_succ_self _

end CommonFoundry
