/-
# `CommonFoundry.Marketplace.Verification` — what the channel checks establish

Each check of the channel, inverted once, for everything above: a state's
amounts are a function of the terms and its counters (`AmountsOf`), a settlement
that verifies is signed by both parties (`DualSigned`), and a refund is the
deposit less the fee.

`settlement_verify_iff` is exact.  It shows the one asymmetry of
`Settlement::verify`: a state is closed as an opening state or by
`verify_close_state`, but a state with sequence number zero only as the former.
-/
import CommonFoundry.Marketplace.Channel

namespace CommonFoundry

open Lib Lib.Outcome

variable {P : Platform} {terms : ChannelTerms}

/-! ## Signatures and identifiers -/

theorem verifySignature_eq_ok {key digest : Bytes32} {bytes : List UInt8} {u : Unit} :
    verifySignature P key digest bytes = .ok u ↔ P.Verifies key digest bytes := by
  simp only [verifySignature, bind_eq_ok, require_eq_ok, exists_const]
  exact ⟨fun ⟨hkey, hsignature, hverify⟩ => ⟨hkey, hsignature, hverify⟩,
    fun h => ⟨h.verifyingKey, h.signature, h.verify⟩⟩

theorem channelId_eq_ok {channelId : Bytes32} (h : terms.channelId P = .ok channelId) :
    terms.closeFeeBurn.toNat < terms.deposit.toNat := by
  simp only [ChannelTerms.channelId, ChannelTerms.validate, bind_eq_ok, require_eq_ok] at h
  obtain ⟨_, ⟨_, hterms, _⟩, _⟩ := h
  have hfee : ¬terms.closeFeeBurn ≥ terms.deposit := fun hge =>
    hterms (.inr (.inr (.inr (.inr (.inl hge)))))
  exact UInt64.lt_iff_toNat_lt.mp (UInt64.not_le.mp hfee)

/-! ## Prices -/

theorem roundedTokenCharge_eq_ok {tokens price charge : UInt64}
    (h : roundedTokenCharge tokens price = .ok charge) :
    charge.toNat = (tokens.toNat * price.toNat + 999) / 1000 := by
  simp only [roundedTokenCharge, bind_eq_ok, okOr_eq_ok, checked128_eq_some, tryWord64_eq_some] at h
  obtain ⟨_, ⟨rfl, _⟩, _, ⟨rfl, _⟩, hcharge⟩ := h
  exact hcharge

/-- The price of a job, as a number. -/
def ChannelTerms.price (terms : ChannelTerms) (inputTokens outputTokens : UInt64) : Nat :=
  terms.basePrice.toNat + (inputTokens.toNat * terms.inputPricePer1000.toNat + 999) / 1000 +
    (outputTokens.toNat * terms.outputPricePer1000.toNat + 999) / 1000

theorem price_mono (inputTokens : UInt64) {a b : UInt64} (h : a ≤ b) :
    terms.price inputTokens a ≤ terms.price inputTokens b := by
  have hmul : a.toNat * terms.outputPricePer1000.toNat ≤
      b.toNat * terms.outputPricePer1000.toNat :=
    Nat.mul_le_mul_right _ (UInt64.le_iff_toNat_le.mp h)
  have hdiv : (a.toNat * terms.outputPricePer1000.toNat + 999) / 1000 ≤
      (b.toNat * terms.outputPricePer1000.toNat + 999) / 1000 :=
    Nat.div_le_div_right (by omega)
  simp only [ChannelTerms.price]
  omega

theorem quotedPayment_eq_ok {inputTokens outputTokens payment : UInt64}
    (h : terms.quotedPayment inputTokens outputTokens = .ok payment) :
    payment.toNat = terms.price inputTokens outputTokens := by
  simp only [ChannelTerms.quotedPayment, bind_eq_ok, okOr_eq_ok, checkedAdd_eq_some] at h
  obtain ⟨_, _, _, _, input, hinput, output, houtput, subtotal, hsubtotal, hpayment⟩ := h
  rw [hpayment, hsubtotal, roundedTokenCharge_eq_ok hinput, roundedTokenCharge_eq_ok houtput]
  rfl

/-- The amounts of a state are the ones its counters cost, and use up the deposit. -/
structure AmountsOf (terms : ChannelTerms) (state : PaymentState) : Prop where
  payment : state.providerPayment.toNat =
    terms.price state.inputTokens state.authorizedOutputTokens
  fee : state.closeFeeBurn = terms.closeFeeBurn
  deposit : state.providerPayment.toNat + state.customerRefund.toNat + state.closeFeeBurn.toNat =
    terms.deposit.toNat

theorem stateFor_eq_ok {sequence inputTokens outputTokens : UInt64} {previousReceipt : Bytes32}
    {state : PaymentState}
    (h : terms.stateFor P sequence inputTokens outputTokens previousReceipt = .ok state) :
    AmountsOf terms state ∧ terms.channelId P = .ok state.channelId := by
  simp only [ChannelTerms.stateFor, bind_eq_ok, okOr_eq_ok, pure_eq_ok, checkedAdd_eq_some,
    checkedSub_eq_some] at h
  obtain ⟨payment, hpayment, used, hused, refund, hrefund, channelId, hid, rfl⟩ := h
  refine ⟨⟨quotedPayment_eq_ok hpayment, rfl, ?_⟩, hid⟩
  show payment.toNat + refund.toNat + terms.closeFeeBurn.toNat = terms.deposit.toNat
  omega

/-- What the terms allow a customer to pay for: the output limit and the deposit. -/
def ChannelTerms.Covers (terms : ChannelTerms) (inputTokens outputTokens : UInt64) : Prop :=
  outputTokens ≤ terms.maxOutputTokens ∧
    terms.price inputTokens outputTokens + terms.closeFeeBurn.toNat ≤ terms.deposit.toNat

theorem ChannelTerms.Covers.mono {inputTokens a b : UInt64} (h : terms.Covers inputTokens b)
    (hle : a ≤ b) : terms.Covers inputTokens a := by
  refine ⟨UInt64.le_trans hle h.1, le_trans (Nat.add_le_add_right ?_ _) h.2⟩
  exact price_mono inputTokens hle

theorem roundedTokenCharge_ok (tokens price : UInt64)
    (h : (tokens.toNat * price.toNat + 999) / 1000 < 2 ^ 64) :
    ∃ charge, roundedTokenCharge tokens price = .ok charge := by
  have htokens := toNat_lt tokens
  have hprice := toNat_lt price
  have hproduct : tokens.toNat * price.toNat ≤ (2 ^ 64 - 1) * (2 ^ 64 - 1) :=
    Nat.mul_le_mul (by omega) (by omega)
  refine ⟨UInt64.ofNat ((tokens.toNat * price.toNat + 999) / 1000), ?_⟩
  simp only [roundedTokenCharge, bind_eq_ok, okOr_eq_ok, checked128_eq_some, tryWord64_eq_some]
  refine ⟨_, ⟨rfl, by omega⟩, _, ⟨rfl, by omega⟩, ?_⟩
  rw [UInt64.toNat_ofNat']
  exact Nat.mod_eq_of_lt h

/-- A state that was built has the counters it was built from, and the terms cover it. -/
theorem stateFor_covers {sequence inputTokens outputTokens : UInt64} {previousReceipt : Bytes32}
    {state : PaymentState}
    (h : terms.stateFor P sequence inputTokens outputTokens previousReceipt = .ok state) :
    (state.sequence = sequence ∧ state.inputTokens = inputTokens ∧
      state.authorizedOutputTokens = outputTokens ∧ state.previousReceipt = previousReceipt) ∧
    inputTokens ≤ terms.maxInputTokens ∧ terms.Covers inputTokens outputTokens := by
  simp only [ChannelTerms.stateFor, bind_eq_ok, okOr_eq_ok, pure_eq_ok, checkedAdd_eq_some,
    checkedSub_eq_some] at h
  obtain ⟨payment, hpayment, used, hused, refund, hrefund, channelId, hid, rfl⟩ := h
  have hprice := quotedPayment_eq_ok hpayment
  simp only [ChannelTerms.quotedPayment, bind_eq_ok, require_eq_ok] at hpayment
  obtain ⟨_, hinput, _, hmax, _⟩ := hpayment
  exact ⟨⟨rfl, rfl, rfl, rfl⟩, hinput, hmax, by omega⟩

/-- A state that the terms cover can be built. -/
theorem stateFor_ok {channelId : Bytes32} (hid : terms.channelId P = .ok channelId)
    {inputTokens outputTokens : UInt64} (hinput : inputTokens ≤ terms.maxInputTokens)
    (hcovers : terms.Covers inputTokens outputTokens) (sequence : UInt64)
    (previousReceipt : Bytes32) :
    ∃ state, terms.stateFor P sequence inputTokens outputTokens previousReceipt = .ok state := by
  obtain ⟨hmax, hdeposit⟩ := hcovers
  have hbound := toNat_lt terms.deposit
  simp only [ChannelTerms.price] at hdeposit
  obtain ⟨input, hinputCharge⟩ :=
    roundedTokenCharge_ok inputTokens terms.inputPricePer1000 (by omega)
  obtain ⟨output, houtputCharge⟩ :=
    roundedTokenCharge_ok outputTokens terms.outputPricePer1000 (by omega)
  have hinputValue := roundedTokenCharge_eq_ok hinputCharge
  have houtputValue := roundedTokenCharge_eq_ok houtputCharge
  have hsubtotal : (terms.basePrice + input).toNat = terms.basePrice.toNat + input.toNat :=
    toNat_add_of_lt (by omega)
  have hpayment : (terms.basePrice + input + output).toNat =
      (terms.basePrice + input).toNat + output.toNat := toNat_add_of_lt (by omega)
  have hused : (terms.basePrice + input + output + terms.closeFeeBurn).toNat =
      (terms.basePrice + input + output).toNat + terms.closeFeeBurn.toNat :=
    toNat_add_of_lt (by omega)
  have hrefund : terms.deposit.toNat =
      (terms.basePrice + input + output + terms.closeFeeBurn).toNat +
        (terms.deposit - (terms.basePrice + input + output + terms.closeFeeBurn)).toNat := by
    rw [toNat_sub_of_le (by omega)]
    omega
  have hquoted : terms.quotedPayment inputTokens outputTokens =
      .ok (terms.basePrice + input + output) := by
    simp only [ChannelTerms.quotedPayment, bind_eq_ok, require_eq_ok, okOr_eq_ok,
      checkedAdd_eq_some]
    exact ⟨(), hinput, (), hmax, input, hinputCharge, output, houtputCharge, _, hsubtotal, hpayment⟩
  simp only [ChannelTerms.stateFor, bind_eq_ok, okOr_eq_ok, pure_eq_ok, checkedAdd_eq_some,
    checkedSub_eq_some]
  exact ⟨_, _, hquoted, _, hused, _, hrefund, channelId, hid, rfl⟩

/-! ## States -/

theorem verifyAmounts_eq_ok {signed : SignedPaymentState} {u : Unit} :
    terms.verifyAmounts P signed = .ok u ↔
      terms.stateFor P signed.state.sequence signed.state.inputTokens
          signed.state.authorizedOutputTokens signed.state.previousReceipt = .ok signed.state ∧
        P.Verifies terms.customerKey (stateDigest P signed.state) signed.customerSignature := by
  simp only [ChannelTerms.verifyAmounts, bind_eq_ok, require_eq_ok]
  constructor
  · rintro ⟨expected, hstate, _, heq, hsig⟩
    rw [← heq] at hstate
    exact ⟨hstate, verifySignature_eq_ok.mp hsig⟩
  · rintro ⟨hstate, hsig⟩
    exact ⟨signed.state, hstate, (), rfl, verifySignature_eq_ok.mpr hsig⟩

theorem verifyState_none_eq_ok {signed : SignedPaymentState}
    {receipt : Option SignedInferenceReceipt} {u : Unit} :
    terms.verifyState P none signed receipt = .ok u ↔
      terms.channelId P = .ok signed.state.channelId ∧ terms.verifyOpening signed = .ok () ∧
        terms.verifyAmounts P signed = .ok u := by
  simp only [ChannelTerms.verifyState, bind_eq_ok, require_eq_ok]
  constructor
  · rintro ⟨channelId, hid, _, heq, _, hopening, h⟩
    exact ⟨heq ▸ hid, hopening, h⟩
  · rintro ⟨hid, hopening, h⟩
    exact ⟨signed.state.channelId, hid, (), rfl, (), hopening, h⟩

theorem verifyState_some_eq_ok {prior signed : SignedPaymentState}
    {receipt : Option SignedInferenceReceipt} {u : Unit} :
    terms.verifyState P (some prior) signed receipt = .ok u ↔
      terms.channelId P = .ok signed.state.channelId ∧
        terms.verifySuccessor P prior signed receipt = .ok () ∧
        terms.verifyAmounts P signed = .ok u := by
  simp only [ChannelTerms.verifyState, bind_eq_ok, require_eq_ok]
  constructor
  · rintro ⟨channelId, hid, _, heq, _, hsuccessor, h⟩
    exact ⟨heq ▸ hid, hsuccessor, h⟩
  · rintro ⟨hid, hsuccessor, h⟩
    exact ⟨signed.state.channelId, hid, (), rfl, (), hsuccessor, h⟩

/-- Whatever the predecessor, an accepted state has the channel's identifier and
the amounts of its counters. -/
theorem verifyState_amounts {previous : Option SignedPaymentState} {signed : SignedPaymentState}
    {receipt : Option SignedInferenceReceipt} {u : Unit}
    (h : terms.verifyState P previous signed receipt = .ok u) :
    terms.channelId P = .ok signed.state.channelId ∧ terms.verifyAmounts P signed = .ok () := by
  cases previous with
  | none => exact ⟨(verifyState_none_eq_ok.mp h).1, (verifyState_none_eq_ok.mp h).2.2⟩
  | some prior => exact ⟨(verifyState_some_eq_ok.mp h).1, (verifyState_some_eq_ok.mp h).2.2⟩

theorem verifyCloseState_eq_ok {signed : SignedPaymentState} {u : Unit} :
    verifyCloseState P terms signed = .ok u ↔
      terms.channelId P = .ok signed.state.channelId ∧ terms.verifyAmounts P signed = .ok u := by
  simp only [verifyCloseState, bind_eq_ok, require_eq_ok]
  constructor
  · rintro ⟨channelId, hid, _, heq, h⟩
    exact ⟨heq ▸ hid, h⟩
  · rintro ⟨hid, h⟩
    exact ⟨signed.state.channelId, hid, (), rfl, h⟩

/-! ## Settlements and refunds -/

/-- Both parties of a channel signed this settlement, for amounts that follow
from the terms. -/
structure DualSigned (P : Platform) (terms : ChannelTerms) (settlement : Settlement) : Prop where
  amounts : terms.stateFor P settlement.state.state.sequence settlement.state.state.inputTokens
    settlement.state.state.authorizedOutputTokens settlement.state.state.previousReceipt =
      .ok settlement.state.state
  customer : P.Verifies terms.customerKey (stateDigest P settlement.state.state)
    settlement.state.customerSignature
  provider : P.Verifies terms.providerKey (settlementDigest P settlement.state)
    settlement.providerSignature

theorem channelId_noPanic : NoPanic (terms.channelId P) := by
  refine .bind (.bind .require fun _ _ => .bind .require fun _ _ => .require) fun _ _ => .ok

/-- An opening state is accepted or refused; verifying it never aborts. -/
theorem verifyState_none_noPanic {signed : SignedPaymentState}
    {receipt : Option SignedInferenceReceipt} :
    NoPanic (terms.verifyState P none signed receipt) := by
  have hcharge : ∀ tokens price, NoPanic (roundedTokenCharge tokens price) := fun _ _ =>
    .bind .okOr fun _ _ => .bind .okOr fun _ _ => .okOr
  have hquoted : ∀ input output, NoPanic (terms.quotedPayment input output) := fun _ _ =>
    .bind .require fun _ _ => .bind .require fun _ _ => .bind (hcharge _ _) fun _ _ =>
      .bind (hcharge _ _) fun _ _ => .bind .okOr fun _ _ => .okOr
  refine .bind channelId_noPanic fun _ _ => .bind .require fun _ _ =>
    .bind (.bind .require fun _ _ => .require) fun _ _ => .bind ?_ fun _ _ =>
    .bind .require fun _ _ => .bind .require fun _ _ => .bind .require fun _ _ => .require
  exact .bind (hquoted _ _) fun _ _ => .bind .okOr fun _ _ => .bind .okOr fun _ _ =>
    .bind channelId_noPanic fun _ _ => .ok

theorem settlement_verify_iff {settlement : Settlement} {u : Unit} :
    settlement.verify P terms = .ok u ↔
      DualSigned P terms settlement ∧
        (settlement.state.state.sequence = 0 → terms.verifyOpening settlement.state = .ok ()) := by
  unfold Settlement.verify
  cases hstate : terms.verifyState P none settlement.state none with
  | ok v =>
      obtain ⟨_, hopening, hamounts⟩ := verifyState_none_eq_ok.mp hstate
      obtain ⟨hamounts, hcustomer⟩ := verifyAmounts_eq_ok.mp hamounts
      refine Iff.trans verifySignature_eq_ok ⟨fun hprovider => ?_, fun h => h.1.provider⟩
      exact ⟨⟨hamounts, hcustomer, hprovider⟩, fun _ => hopening⟩
  | error fault =>
      cases fault with
      | panic => exact absurd hstate verifyState_none_noPanic
      | err error =>
          by_cases hzero : settlement.state.state.sequence = 0
          · simp only [if_pos hzero, fail_bind]
            refine ⟨fun h => absurd h fail_ne_ok, fun ⟨hsigned, hopening⟩ => ?_⟩
            have hok : terms.verifyState P none settlement.state none = .ok () :=
              verifyState_none_eq_ok.mpr ⟨(stateFor_eq_ok hsigned.amounts).2, hopening hzero,
                verifyAmounts_eq_ok.mpr ⟨hsigned.amounts, hsigned.customer⟩⟩
            rw [hstate] at hok
            cases hok
          · simp only [if_neg hzero, bind_eq_ok, verifyCloseState_eq_ok, verifyAmounts_eq_ok,
              verifySignature_eq_ok, exists_const]
            constructor
            · rintro ⟨⟨_, hamounts, hcustomer⟩, hprovider⟩
              exact ⟨⟨hamounts, hcustomer, hprovider⟩, fun h => absurd h hzero⟩
            · rintro ⟨⟨hamounts, hcustomer, hprovider⟩, _⟩
              exact ⟨⟨(stateFor_eq_ok hamounts).2, hamounts, hcustomer⟩, hprovider⟩

theorem refund_eq_ok {height : UInt64} {refund : Refund}
    (h : terms.refund P height = .ok refund) :
    terms.refundHeight ≤ height ∧ refund.customerAmount = terms.deposit - terms.closeFeeBurn ∧
      refund.feeBurn = terms.closeFeeBurn := by
  simp only [ChannelTerms.refund, bind_eq_ok, require_eq_ok, pure_eq_ok] at h
  obtain ⟨_, hheight, _, _, rfl⟩ := h
  exact ⟨UInt64.not_lt.mp hheight, rfl, rfl⟩

end CommonFoundry
