/-
# `CommonFoundry.Consensus.ChannelNext` — the next state of a channel

What the customer may sign next, after a chain of accepted states and a receipt of
the provider, and what of it the two sides agree on.

`verify_state` bounds the growth of the authorization by one chunk, and the
receipt only from above: what it acknowledges may be less than what was
authorized.  So a chunk is added to the last *authorization*, not to the last
*delivery*, and what is authorized but not delivered adds up
(`exposure_bound`).

`next_state` verifies its predecessor as an opening state, so it builds the second
state of a channel and no later one (`channel_continues_iff`).
-/
import CommonFoundry.Consensus.ChannelChain

namespace CommonFoundry

open Lib Lib.Outcome

variable {P : Platform} {terms : ChannelTerms}

/-! ## Signing a successor -/

/-- The customer's signature of a state verifies. -/
theorem verifyAmounts_sign (hsigns : P.SignsCorrectly) {customer : SigningKey}
    (hcustomer : P.publicKey customer = terms.customerKey) {state : PaymentState}
    {sequence inputTokens outputTokens : UInt64} {previousReceipt : Bytes32}
    (h : terms.stateFor P sequence inputTokens outputTokens previousReceipt = .ok state) :
    terms.verifyAmounts P (.sign P state customer) = .ok () := by
  obtain ⟨⟨rfl, rfl, rfl, rfl⟩, -⟩ := stateFor_covers h
  refine verifyAmounts_eq_ok.mpr ⟨h, ?_⟩
  rw [← hcustomer]
  exact ⟨hsigns.verifyingKey _, hsigns.signature _ _, hsigns.verify _ _⟩

/-- A count that grows by at most a chunk and that the terms cover is accepted as
the next authorization, once the provider has signed a receipt. -/
theorem verifyState_sign (hsigns : P.SignsCorrectly) {customer : SigningKey}
    (hcustomer : P.publicKey customer = terms.customerKey) {prior : SignedPaymentState}
    {receipt : SignedInferenceReceipt} {sequence tokens : UInt64} {state : PaymentState}
    (hreceipt : terms.verifyReceipt P prior receipt = .ok ())
    (hsequence : (plainAdd P.overflowChecks prior.state.sequence 1 : Outcome ChannelError UInt64) =
      .ok sequence)
    (hgrows : prior.state.authorizedOutputTokens ≤ tokens)
    (hchunk : tokens - prior.state.authorizedOutputTokens ≤ terms.outputChunkTokens)
    (hstate : terms.stateFor P sequence prior.state.inputTokens tokens (receipt.digest P) =
      .ok state) :
    terms.verifyState P (some prior) (.sign P state customer) (some receipt) = .ok () := by
  have hamounts := verifyAmounts_sign hsigns hcustomer hstate
  have hid := (stateFor_eq_ok hstate).2
  obtain ⟨⟨rfl, hinput, rfl, hlink⟩, -⟩ := stateFor_covers hstate
  refine verifyState_some_eq_ok.mpr ⟨hid, ?_, hamounts⟩
  simp only [ChannelTerms.verifySuccessor, bind_eq_ok, require_eq_ok, okOr_some]
  refine ⟨_, hsequence, (), rfl, (), hinput, (), ?_, receipt, rfl, (), hreceipt, hlink⟩
  rw [not_or, UInt64.not_lt]
  exact ⟨hgrows, UInt64.not_lt.mpr hchunk⟩

/-! ## How far the customer is ahead -/

/-- One step of a channel: the state before it, the receipt that the customer
presents, and the state it signs. -/
structure Presented where
  prior : SignedPaymentState
  receipt : SignedInferenceReceipt
  signed : SignedPaymentState

/-- The steps of a channel, the newest first, and its last state. -/
inductive PresentedChain (P : Platform) (terms : ChannelTerms) :
    List Presented → SignedPaymentState → Prop
  | opening {signed : SignedPaymentState} {receipt : Option SignedInferenceReceipt} :
      terms.verifyState P none signed receipt = .ok () → PresentedChain P terms [] signed
  | successor {steps : List Presented} {prior signed : SignedPaymentState}
      {receipt : SignedInferenceReceipt} :
      PresentedChain P terms steps prior →
      terms.verifyState P (some prior) signed (some receipt) = .ok () →
      PresentedChain P terms (⟨prior, receipt, signed⟩ :: steps) signed

theorem PresentedChain.accepted {steps : List Presented} {last : SignedPaymentState}
    (h : PresentedChain P terms steps last) :
    AcceptedChain P terms (last :: steps.map Presented.prior) := by
  induction h with
  | opening hverify => exact .opening hverify
  | successor _ hverify ih => exact .successor ih hverify

/-- What is authorized is at most one chunk more than what the receipt acknowledges. -/
def WithinChunk (terms : ChannelTerms) (receipt : SignedInferenceReceipt)
    (signed : SignedPaymentState) : Prop :=
  signed.state.authorizedOutputTokens.toNat ≤
    receipt.receipt.deliveredOutputTokens.toNat + terms.outputChunkTokens.toNat

/-- The receipt acknowledges everything that was authorized, or the terms cover
nothing that is more than one chunk beyond what it acknowledges. -/
def Settled (terms : ChannelTerms) (prior : SignedPaymentState)
    (receipt : SignedInferenceReceipt) : Prop :=
  receipt.receipt.deliveredOutputTokens = prior.state.authorizedOutputTokens ∨
    ∀ tokens : UInt64, receipt.receipt.deliveredOutputTokens.toNat +
      terms.outputChunkTokens.toNat < tokens.toNat → ¬terms.Covers prior.state.inputTokens tokens

theorem Settled.withinChunk {prior signed : SignedPaymentState} {receipt : SignedInferenceReceipt}
    (h : Settled terms prior receipt)
    (hverify : terms.verifyState P (some prior) signed (some receipt) = .ok ()) :
    WithinChunk terms receipt signed := by
  obtain ⟨-, hsuccessor, hamounts⟩ := verifyState_some_eq_ok.mp hverify
  obtain ⟨-, hinput, -, hchunk⟩ := verifySuccessor_counters hsuccessor
  rcases h with hdelivered | hlimit
  · rw [WithinChunk, hdelivered]
    exact hchunk
  · by_contra hexceeds
    have hcovers := (stateFor_covers (verifyAmounts_eq_ok.mp hamounts).1).2.2
    rw [hinput] at hcovers
    exact hlimit _ (Nat.not_le.mp hexceeds) hcovers

/-- A receipt acknowledges at most what was authorized. -/
theorem verifyReceipt_delivered {prior : SignedPaymentState} {receipt : SignedInferenceReceipt}
    (h : terms.verifyReceipt P prior receipt = .ok ()) :
    receipt.receipt.deliveredOutputTokens.toNat ≤ prior.state.authorizedOutputTokens.toNat := by
  simp only [ChannelTerms.verifyReceipt, bind_eq_ok, require_eq_ok, not_or] at h
  obtain ⟨_, _, _, _, _, ⟨_, hle⟩, _⟩ := h
  exact UInt64.le_iff_toNat_le.mp (UInt64.not_lt.mp hle)

/-- Where neither holds, some covered count is too much: it goes more than a chunk
beyond the receipt, takes nothing back and adds at most a chunk. -/
theorem exists_count_of_not_settled {prior : SignedPaymentState} {receipt : SignedInferenceReceipt}
    (hreceipt : terms.verifyReceipt P prior receipt = .ok ())
    (hcovers : terms.Covers prior.state.inputTokens prior.state.authorizedOutputTokens)
    (hsettled : ¬Settled terms prior receipt) :
    ∃ next : UInt64,
      receipt.receipt.deliveredOutputTokens.toNat + terms.outputChunkTokens.toNat < next.toNat ∧
      prior.state.authorizedOutputTokens ≤ next ∧
      next.toNat ≤ prior.state.authorizedOutputTokens.toNat + terms.outputChunkTokens.toNat ∧
      terms.Covers prior.state.inputTokens next := by
  obtain ⟨hshort, hlimit⟩ := not_or.mp hsettled
  obtain ⟨tokens, htokens⟩ := not_forall.mp hlimit
  obtain ⟨hbeyond, htokens⟩ := Classical.not_imp.mp htokens
  have hle := verifyReceipt_delivered hreceipt
  have hne : receipt.receipt.deliveredOutputTokens.toNat ≠
      prior.state.authorizedOutputTokens.toNat := by
    intro heq
    exact hshort (UInt64.toNat_inj.mp heq)
  by_cases hprior : receipt.receipt.deliveredOutputTokens.toNat +
      terms.outputChunkTokens.toNat < prior.state.authorizedOutputTokens.toNat
  · exact ⟨_, hprior, UInt64.le_refl _, Nat.le_add_right _ _, hcovers⟩
  · -- one more than a chunk beyond the receipt
    have hbound := toNat_lt tokens
    have hvalue : (UInt64.ofNat (receipt.receipt.deliveredOutputTokens.toNat +
        terms.outputChunkTokens.toNat + 1)).toNat =
        receipt.receipt.deliveredOutputTokens.toNat + terms.outputChunkTokens.toNat + 1 := by
      rw [UInt64.toNat_ofNat']
      exact Nat.mod_eq_of_lt (by omega)
    refine ⟨UInt64.ofNat (receipt.receipt.deliveredOutputTokens.toNat +
      terms.outputChunkTokens.toNat + 1), by omega, ?_, by omega, (not_not.mp htokens).mono ?_⟩
    · rw [UInt64.le_iff_toNat_le]
      omega
    · rw [UInt64.le_iff_toNat_le]
      omega

/-- Then the customer can sign for more. -/
theorem exists_exceeding (hsigns : P.SignsCorrectly) {customer : SigningKey}
    (hcustomer : P.publicKey customer = terms.customerKey) {prior : SignedPaymentState}
    {older : List SignedPaymentState} (hchain : AcceptedChain P terms (prior :: older))
    {receipt : SignedInferenceReceipt} (hreceipt : terms.verifyReceipt P prior receipt = .ok ())
    (hsequence : P.overflowChecks = true → older.length < 2 ^ 64 - 1)
    (hsettled : ¬Settled terms prior receipt) :
    ∃ signed, terms.verifyState P (some prior) signed (some receipt) = .ok () ∧
      ¬WithinChunk terms receipt signed := by
  obtain ⟨hid, hamounts⟩ := hchain.amounts prior List.mem_cons_self
  obtain ⟨-, hinput, hcovers⟩ := stateFor_covers (verifyAmounts_eq_ok.mp hamounts).1
  obtain ⟨next, hnext, hgrows, hchunk, hnextCovers⟩ :=
    exists_count_of_not_settled hreceipt hcovers hsettled
  obtain ⟨sequence, hplain⟩ : ∃ sequence,
      (plainAdd P.overflowChecks prior.state.sequence 1 : Outcome ChannelError UInt64) =
        .ok sequence := by
    refine ⟨_, plainAdd_eq_ok.mpr ⟨rfl, ?_⟩⟩
    intro hchecks
    have hlength := hsequence hchecks
    rw [hchain.sequence_toNat (by omega), show (1 : UInt64).toNat = 1 from rfl]
    omega
  obtain ⟨state, hstate⟩ := stateFor_ok hid hinput hnextCovers sequence (receipt.digest P)
  have hsub : next - prior.state.authorizedOutputTokens ≤ terms.outputChunkTokens := by
    rw [UInt64.le_iff_toNat_le, toNat_sub_of_le (UInt64.le_iff_toNat_le.mp hgrows)]
    omega
  refine ⟨.sign P state customer,
    verifyState_sign hsigns hcustomer hreceipt hplain hgrows hsub hstate, ?_⟩
  obtain ⟨⟨-, -, hauthorized, -⟩, -⟩ := stateFor_covers hstate
  show ¬state.authorizedOutputTokens.toNat ≤ _
  rw [hauthorized]
  omega

/-! ## The exposure of the customer -/

/-- Over a channel whose receipts are settled, the customer is never more than one
chunk ahead of the provider's receipt.  A receipt that is not settled lets the next
state go further, at every length. -/
theorem exposure_bound (hsigns : P.SignsCorrectly) {steps : List Presented}
    {last : SignedPaymentState} (h : PresentedChain P terms steps last) :
    ((∀ step ∈ steps, Settled terms step.prior step.receipt) →
      ∀ step ∈ steps, WithinChunk terms step.receipt step.signed) ∧
    ∀ customer, P.publicKey customer = terms.customerKey →
      (P.overflowChecks = true → steps.length < 2 ^ 64 - 1) →
      ∀ receipt, terms.verifyReceipt P last receipt = .ok () →
      ((∀ signed, terms.verifyState P (some last) signed (some receipt) = .ok () →
        WithinChunk terms receipt signed) ↔ Settled terms last receipt) := by
  constructor
  · intro hsettled
    induction h with
    | opening _ => exact List.forall_mem_nil _
    | successor _ hverify ih =>
        obtain ⟨hlast, hbefore⟩ := List.forall_mem_cons.mp hsettled
        exact List.forall_mem_cons.mpr ⟨hlast.withinChunk hverify, ih hbefore⟩
  · intro customer hcustomer hsequence receipt hreceipt
    refine ⟨?_, fun hsettled signed hverify => hsettled.withinChunk hverify⟩
    intro hbound
    by_contra hsettled
    have hlength : P.overflowChecks = true →
        (steps.map Presented.prior).length < 2 ^ 64 - 1 := by
      intro hchecks
      rw [List.length_map]
      exact hsequence hchecks
    obtain ⟨signed, hverify, hexceeds⟩ :=
      exists_exceeding hsigns hcustomer h.accepted hreceipt hlength hsettled
    exact hexceeds (hbound signed hverify)

theorem sampleCustomer : samplePlatform.publicKey ⟨toBytes 3⟩ = sampleTerms.customerKey := rfl

theorem sampleOpening :
    PresentedChain samplePlatform sampleTerms [] (sampleSigned 0) := by
  have hchain := sampleStates_accepted 0
  cases hchain with
  | opening hverify => exact .opening hverify

/-- A receipt for the one token of the opening state. -/
def sampleDelivery : SignedInferenceReceipt :=
  .sign samplePlatform { (sampleReceipt 0).receipt with deliveredOutputTokens := 1 } ⟨toBytes 6⟩

/-- A chunk after everything was delivered. -/
theorem exposure_bound_sample : ∃ signed,
    PresentedChain samplePlatform sampleTerms [⟨sampleSigned 0, sampleDelivery, signed⟩] signed ∧
      signed.state.authorizedOutputTokens = 101 ∧
      WithinChunk sampleTerms sampleDelivery signed := by
  have hsigns := samplePlatform_signsCorrectly
  have hreceipt : sampleTerms.verifyReceipt samplePlatform (sampleSigned 0) sampleDelivery =
      .ok () := by decide +kernel
  have hcovers : sampleTerms.Covers 1 101 := ⟨by decide, by decide⟩
  obtain ⟨state, hstate⟩ := stateFor_ok sampleTerms_channelId (by decide) hcovers 1
    (sampleDelivery.digest samplePlatform)
  have hverify := verifyState_sign hsigns sampleCustomer hreceipt plainAdd_unchecked
    (by decide) (by decide) hstate
  have hchain := PresentedChain.successor sampleOpening hverify
  obtain ⟨⟨-, -, hauthorized, -⟩, -⟩ := stateFor_covers hstate
  refine ⟨_, hchain, hauthorized, ?_⟩
  refine (exposure_bound hsigns hchain).1 ?_ _ List.mem_cons_self
  intro step hmem
  obtain rfl := List.mem_singleton.mp hmem
  exact .inl rfl

/-- The provider has delivered nothing, and the customer authorizes a whole chunk
after the first token. -/
theorem exposure_exceeds_chunk : ∃ signed,
    PresentedChain samplePlatform sampleTerms [⟨sampleSigned 0, sampleReceipt 0, signed⟩] signed ∧
      ¬WithinChunk sampleTerms (sampleReceipt 0) signed := by
  have hsettled : ¬Settled sampleTerms (sampleSigned 0) (sampleReceipt 0) := by
    intro hsettled
    rcases hsettled with hdelivered | hlimit
    · exact absurd hdelivered (by decide)
    · exact hlimit 101 (by decide) ⟨by decide, by decide⟩
  obtain ⟨signed, hverify, hexceeds⟩ := exists_exceeding samplePlatform_signsCorrectly
    sampleCustomer sampleOpening.accepted (sampleReceipt_verifies 0) nofun hsettled
  exact ⟨signed, .successor sampleOpening hverify, hexceeds⟩

/-! ## Producing the next state -/

/-- What an opening state looks like. -/
structure IsOpening (terms : ChannelTerms) (state : PaymentState) : Prop where
  sequence : state.sequence = 0
  previousReceipt : state.previousReceipt = zero32
  nonzero : state.authorizedOutputTokens ≠ 0
  chunk : state.authorizedOutputTokens ≤ terms.outputChunkTokens

theorem verifyOpening_eq_ok {signed : SignedPaymentState} {u : Unit} :
    terms.verifyOpening signed = .ok u ↔ IsOpening terms signed.state := by
  simp only [ChannelTerms.verifyOpening, bind_eq_ok, require_eq_ok, not_or, Decidable.not_not,
    exists_const]
  constructor
  · rintro ⟨⟨hsequence, hreceipt⟩, hnonzero, hchunk⟩
    exact ⟨hsequence, hreceipt, hnonzero, UInt64.not_lt.mp hchunk⟩
  · intro h
    exact ⟨⟨h.sequence, h.previousReceipt⟩, h.nonzero, UInt64.not_lt.mpr h.chunk⟩

/-- `next_state` builds a state, and `verify_state` accepts it with the customer's
signature. -/
def Continues (P : Platform) (terms : ChannelTerms) (customer : SigningKey)
    (prior : SignedPaymentState) (receipt : SignedInferenceReceipt) (tokens : UInt64) : Prop :=
  ∃ state, terms.nextState P prior receipt tokens = .ok state ∧
    terms.verifyState P (some prior) (.sign P state customer) (some receipt) = .ok ()

/-- After any chain of states, and for every receipt and every authorization that
`verify_state` would accept, the channel continues exactly when its last state is
the opening one. -/
theorem channel_continues_iff (hsigns : P.SignsCorrectly) {customer : SigningKey}
    (hcustomer : P.publicKey customer = terms.customerKey) {prior : SignedPaymentState}
    {older : List SignedPaymentState} (hchain : AcceptedChain P terms (prior :: older))
    {receipt : SignedInferenceReceipt} (hreceipt : terms.verifyReceipt P prior receipt = .ok ())
    {tokens : UInt64} (hgrows : prior.state.authorizedOutputTokens ≤ tokens)
    (hchunk : tokens - prior.state.authorizedOutputTokens ≤ terms.outputChunkTokens)
    (hcovers : terms.Covers prior.state.inputTokens tokens) :
    (Continues P terms customer prior receipt tokens ↔ IsOpening terms prior.state) ∧
      (older.length < 2 ^ 64 → (IsOpening terms prior.state ↔ older = [])) := by
  obtain ⟨hid, hamounts⟩ := hchain.amounts prior List.mem_cons_self
  have hinput := (stateFor_covers (verifyAmounts_eq_ok.mp hamounts).1).2.1
  refine ⟨⟨?_, ?_⟩, ?_⟩
  · rintro ⟨state, hnext, -⟩
    simp only [ChannelTerms.nextState, bind_eq_ok] at hnext
    obtain ⟨_, hverify, -⟩ := hnext
    exact verifyOpening_eq_ok.mp (verifyState_none_eq_ok.mp hverify).2.1
  · intro hopening
    have hplain : (plainAdd P.overflowChecks prior.state.sequence 1 : Outcome ChannelError UInt64) =
        .ok 1 := by
      rw [hopening.sequence, plainAdd_of_lt (by decide)]
      rfl
    obtain ⟨state, hstate⟩ := stateFor_ok hid hinput hcovers 1 (receipt.digest P)
    refine ⟨state, ?_, verifyState_sign hsigns hcustomer hreceipt hplain hgrows hchunk hstate⟩
    have hverify : terms.verifyState P none prior none = .ok () :=
      verifyState_none_eq_ok.mpr ⟨hid, verifyOpening_eq_ok.mpr hopening, hamounts⟩
    simp only [ChannelTerms.nextState, bind_eq_ok, require_eq_ok]
    refine ⟨(), hverify, (), hreceipt, (), ?_, 1, hplain, hstate⟩
    rw [not_or, UInt64.not_lt]
    exact ⟨hgrows, UInt64.not_lt.mpr hchunk⟩
  · intro hlength
    constructor
    · intro hopening
      have hposition := hchain.sequence_toNat hlength
      rw [hopening.sequence, UInt64.toNat_zero] at hposition
      exact List.length_eq_zero_iff.mp hposition.symm
    · rintro rfl
      cases hchain with
      | opening hverify => exact verifyOpening_eq_ok.mp (verifyState_none_eq_ok.mp hverify).2.1

/-- From the opening state it continues. -/
theorem channel_continues_iff_sample :
    Continues samplePlatform sampleTerms ⟨toBytes 3⟩ (sampleSigned 0) (sampleReceipt 0) 101 := by
  have hgrows : (sampleSigned 0).state.authorizedOutputTokens ≤ 101 := by decide
  obtain ⟨hiff, hopening⟩ := channel_continues_iff samplePlatform_signsCorrectly sampleCustomer
    (sampleStates_accepted 0) (sampleReceipt_verifies 0) hgrows (by decide)
    ⟨by decide, by decide⟩
  exact hiff.mpr ((hopening (by decide)).mpr rfl)

/-- The second state of a channel has no next state: `next_state` refuses to build
one, where `verify_state` would accept the third sample state. -/
theorem channel_stops : ∃ older,
    AcceptedChain samplePlatform sampleTerms (sampleSigned 1 :: older) ∧
      sampleTerms.verifyReceipt samplePlatform (sampleSigned 1) (sampleReceipt 1) = .ok () ∧
      sampleTerms.Covers 1 1 ∧
      sampleTerms.nextState samplePlatform (sampleSigned 1) (sampleReceipt 1) 1 =
        fail .sequence ∧
      sampleTerms.verifyState samplePlatform (some (sampleSigned 1)) (sampleSigned 2)
        (some (sampleReceipt 1)) = .ok () :=
  ⟨_, sampleStates_accepted 1, sampleReceipt_verifies 1, ⟨by decide, by decide⟩,
    by decide +kernel, sampleSigned_accepted 1⟩

end CommonFoundry
