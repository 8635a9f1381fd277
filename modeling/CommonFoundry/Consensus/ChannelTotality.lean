/-
# `CommonFoundry.Consensus.ChannelTotality` — the arithmetic of a channel never overflows

The crate adds and subtracts 64-bit words with the plain operators in five places.  The
definitions of `Marketplace.Channel` have two of them, the additions of one to a
sequence number, and write the three subtractions as they come out when they are not
negative.  Here the subtractions are written with the plain operator too
(`verifySuccessorPlain`, `nextStatePlain`, `refundPlain`), and turn out not to be
negative in any run: the two pairs of definitions are equal, in any build.

A build with overflow checks aborts at the first operation that would wrap.  So "no
operation wraps or aborts" is `NoPanic` in that build, `Platform.checked`.

The one operation that does overflow is the addition in `verify_state`, at a
predecessor whose sequence number is the largest word (`channel_total_iff`).
-/
import CommonFoundry.Consensus.ChannelChain

namespace CommonFoundry

open Lib Lib.Outcome

/-- The same platform, built with overflow checks. -/
def Platform.checked (P : Platform) : Platform := { P with overflowChecks := true }

section

variable (P : Platform)

/-! ## The subtractions -/

/-- The `previous = Some(prior)` arm of `verify_state`, with the subtraction. -/
def ChannelTerms.verifySuccessorPlain (terms : ChannelTerms) (prior signed : SignedPaymentState)
    (receipt : Option SignedInferenceReceipt) : Outcome ChannelError Unit := do
  let sequence ← plainAdd P.overflowChecks prior.state.sequence 1
  require (signed.state.sequence = sequence) .sequence
  require (signed.state.inputTokens = prior.state.inputTokens) .inputTokens
  require (¬signed.state.authorizedOutputTokens < prior.state.authorizedOutputTokens)
    .outputTokens
  let increment ← plainSub P.overflowChecks signed.state.authorizedOutputTokens
    prior.state.authorizedOutputTokens
  require (¬increment > terms.outputChunkTokens) .outputTokens
  let receipt ← okOr receipt .receiptLink
  terms.verifyReceipt P prior receipt
  require (signed.state.previousReceipt = receipt.digest P) .receiptLink

/-- `verify_state`, with the subtraction. -/
def ChannelTerms.verifyStatePlain (terms : ChannelTerms) (previous : Option SignedPaymentState)
    (signed : SignedPaymentState) (receipt : Option SignedInferenceReceipt) :
    Outcome ChannelError Unit := do
  let channelId ← terms.channelId P
  require (signed.state.channelId = channelId) .channelId
  match previous with
  | none => terms.verifyOpening signed
  | some prior => terms.verifySuccessorPlain P prior signed receipt
  terms.verifyAmounts P signed

/-- `next_state`, with the subtraction. -/
def ChannelTerms.nextStatePlain (terms : ChannelTerms) (previous : SignedPaymentState)
    (receipt : SignedInferenceReceipt) (authorizedOutputTokens : UInt64) :
    Outcome ChannelError PaymentState := do
  terms.verifyStatePlain P none previous none
  terms.verifyReceipt P previous receipt
  require (¬authorizedOutputTokens < previous.state.authorizedOutputTokens) .outputTokens
  let increment ← plainSub P.overflowChecks authorizedOutputTokens
    previous.state.authorizedOutputTokens
  require (¬increment > terms.outputChunkTokens) .outputTokens
  let sequence ← plainAdd P.overflowChecks previous.state.sequence 1
  terms.stateFor P sequence previous.state.inputTokens authorizedOutputTokens (receipt.digest P)

/-- `refund`, with the subtraction. -/
def ChannelTerms.refundPlain (terms : ChannelTerms) (currentHeight : UInt64) :
    Outcome ChannelError Refund := do
  require (¬currentHeight < terms.refundHeight) .refundLocked
  let channelId ← terms.channelId P
  let customerAmount ← plainSub P.overflowChecks terms.deposit terms.closeFeeBurn
  pure {
    channelId
    availableHeight := terms.refundHeight
    customerAmount
    feeBurn := terms.closeFeeBurn }

end

variable {P : Platform} {terms : ChannelTerms}

/-- The two tests of an increment are one: the subtraction comes after the comparison. -/
theorem increment_eq {α : Type} {checks : Bool} {before after chunk : UInt64}
    {rest : Outcome ChannelError α} :
    (do
      require (¬after < before) ChannelError.outputTokens
      let increment ← plainSub checks after before
      require (¬increment > chunk) .outputTokens
      rest) =
    (do
      require (¬(after < before ∨ after - before > chunk)) ChannelError.outputTokens
      rest) := by
  by_cases hless : after < before
  · rw [require_neg (not_not_intro hless), require_neg (not_not_intro (.inl hless)), fail_bind,
      fail_bind]
  · have hle : before.toNat ≤ after.toNat :=
      UInt64.le_iff_toNat_le.mp (UInt64.not_lt.mp hless)
    rw [require_pos hless, ok_bind, plainSub_of_le hle, ok_bind]
    by_cases hmore : after - before > chunk
    · rw [require_neg (not_not_intro hmore), require_neg (not_not_intro (.inr hmore)), fail_bind]
    · rw [require_pos hmore, require_pos (not_or.mpr ⟨hless, hmore⟩)]

theorem verifySuccessorPlain_eq (prior signed : SignedPaymentState)
    (receipt : Option SignedInferenceReceipt) :
    terms.verifySuccessorPlain P prior signed receipt =
      terms.verifySuccessor P prior signed receipt := by
  simp only [ChannelTerms.verifySuccessorPlain, increment_eq, ChannelTerms.verifySuccessor]

theorem verifyStatePlain_eq (previous : Option SignedPaymentState) (signed : SignedPaymentState)
    (receipt : Option SignedInferenceReceipt) :
    terms.verifyStatePlain P previous signed receipt =
      terms.verifyState P previous signed receipt := by
  cases previous with
  | none => rfl
  | some prior =>
      simp only [ChannelTerms.verifyStatePlain, verifySuccessorPlain_eq, ChannelTerms.verifyState]

theorem nextStatePlain_eq (previous : SignedPaymentState) (receipt : SignedInferenceReceipt)
    (authorizedOutputTokens : UInt64) :
    terms.nextStatePlain P previous receipt authorizedOutputTokens =
      terms.nextState P previous receipt authorizedOutputTokens := by
  simp only [ChannelTerms.nextStatePlain, verifyStatePlain_eq, increment_eq,
    ChannelTerms.nextState]

/-- The identifier is computed first, and only of terms whose fee is below the deposit. -/
theorem refundPlain_eq (height : UInt64) :
    terms.refundPlain P height = terms.refund P height := by
  rw [ChannelTerms.refundPlain, ChannelTerms.refund]
  refine congrArg (fun f => require (¬height < terms.refundHeight) ChannelError.refundLocked >>= f)
    (funext fun _ => ?_)
  cases hid : terms.channelId P with
  | error fault => rw [error_bind, error_bind]
  | ok channelId =>
      rw [ok_bind, ok_bind, plainSub_of_le (channelId_eq_ok hid).le, ok_bind]

/-! ## No call aborts -/

theorem verifySignature_noPanic {key digest : Bytes32} {bytes : List UInt8} :
    NoPanic (verifySignature P key digest bytes) :=
  .bind .require fun _ _ => .bind .require fun _ _ => .require

theorem quotedPayment_noPanic {inputTokens outputTokens : UInt64} :
    NoPanic (terms.quotedPayment inputTokens outputTokens) := by
  have hcharge : ∀ tokens price, NoPanic (roundedTokenCharge tokens price) := fun _ _ =>
    .bind .okOr fun _ _ => .bind .okOr fun _ _ => .okOr
  exact .bind .require fun _ _ => .bind .require fun _ _ => .bind (hcharge _ _) fun _ _ =>
    .bind (hcharge _ _) fun _ _ => .bind .okOr fun _ _ => .okOr

theorem stateFor_noPanic {sequence inputTokens outputTokens : UInt64}
    {previousReceipt : Bytes32} :
    NoPanic (terms.stateFor P sequence inputTokens outputTokens previousReceipt) :=
  .bind quotedPayment_noPanic fun _ _ => .bind .okOr fun _ _ => .bind .okOr fun _ _ =>
    .bind channelId_noPanic fun _ _ => .ok

theorem verifyAmounts_noPanic {signed : SignedPaymentState} :
    NoPanic (terms.verifyAmounts P signed) :=
  .bind stateFor_noPanic fun _ _ => .bind .require fun _ _ => verifySignature_noPanic

theorem initialState_noPanic {inputTokens authorizedOutputTokens : UInt64} :
    NoPanic (terms.initialState P inputTokens authorizedOutputTokens) :=
  .bind .require fun _ _ => stateFor_noPanic

theorem verifyReceipt_noPanic {state : SignedPaymentState} {signed : SignedInferenceReceipt} :
    NoPanic (terms.verifyReceipt P state signed) :=
  .bind channelId_noPanic fun _ _ => .bind .require fun _ _ => .bind .require fun _ _ =>
    verifySignature_noPanic

theorem refund_noPanic {height : UInt64} : NoPanic (terms.refund P height) :=
  .bind .require fun _ _ => .bind channelId_noPanic fun _ _ => .ok

theorem verifyCloseState_noPanic {signed : SignedPaymentState} :
    NoPanic (verifyCloseState P terms signed) :=
  .bind channelId_noPanic fun _ _ => .bind .require fun _ _ => verifyAmounts_noPanic

theorem settlement_verify_noPanic {settlement : Settlement} :
    NoPanic (settlement.verify P terms) := by
  unfold Settlement.verify
  have hfirst : NoPanic (terms.verifyState P none settlement.state none) :=
    verifyState_none_noPanic
  cases hstate : terms.verifyState P none settlement.state none with
  | ok u => exact verifySignature_noPanic
  | error fault =>
      cases fault with
      | panic => exact absurd hstate hfirst
      | err error =>
          dsimp only
          split
          · exact .bind .fail fun _ _ => verifySignature_noPanic
          · exact .bind verifyCloseState_noPanic fun _ _ => verifySignature_noPanic

/-- An opening state has sequence number zero, so adding one does not overflow. -/
theorem nextState_noPanic {previous : SignedPaymentState} {receipt : SignedInferenceReceipt}
    {authorizedOutputTokens : UInt64} :
    NoPanic (terms.nextState P previous receipt authorizedOutputTokens) := by
  refine .bind verifyState_none_noPanic fun _ hstate => .bind verifyReceipt_noPanic fun _ _ =>
    .bind .require fun _ _ => .bind ?_ fun _ _ => stateFor_noPanic
  obtain ⟨_, hopening, _⟩ := verifyState_none_eq_ok.mp hstate
  obtain ⟨_, hsequence, _⟩ := bind_eq_ok.mp hopening
  have hsequence := require_eq_ok.mp hsequence
  push Not at hsequence
  rw [hsequence.1, plainAdd_of_lt (by decide)]
  exact .ok

/-! ## The addition in `verify_state` -/

/-- The largest sequence number. -/
def lastSequence : UInt64 := UInt64.ofNat (2 ^ 64 - 1)

/-- The predecessor is not at the largest sequence number, or the state is refused
before the two are compared. -/
def SequenceFits (P : Platform) (terms : ChannelTerms) (previous : Option SignedPaymentState)
    (signed : SignedPaymentState) : Prop :=
  ∀ prior, previous = some prior → terms.channelId P = .ok signed.state.channelId →
    prior.state.sequence ≠ lastSequence

theorem add_one_lt_iff {sequence : UInt64} :
    sequence.toNat + (1 : UInt64).toNat < 2 ^ 64 ↔ sequence ≠ lastSequence := by
  have hlt := toNat_lt sequence
  have hone : (1 : UInt64).toNat = 1 := rfl
  have hlast : lastSequence.toNat = 2 ^ 64 - 1 := by decide
  rw [ne_eq, ← UInt64.toNat_inj, hlast, hone]
  omega

/-- In a build with overflow checks `verify_state` aborts at the largest sequence number,
and only there. -/
theorem verifyState_noPanic_iff {previous : Option SignedPaymentState}
    {signed : SignedPaymentState} {receipt : Option SignedInferenceReceipt} :
    NoPanic (terms.verifyState P.checked previous signed receipt) ↔
      SequenceFits P terms previous signed := by
  have hid : terms.channelId P.checked = terms.channelId P := rfl
  cases previous with
  | none =>
      exact ⟨fun _ _ hsome => (by cases hsome), fun _ => verifyState_none_noPanic⟩
  | some prior =>
      constructor
      · intro hpanic found hfound hchannel hlast
        obtain rfl := Option.some.inj hfound
        refine hpanic ?_
        have hover : ¬prior.state.sequence.toNat + (1 : UInt64).toNat < 2 ^ 64 :=
          fun hlt => add_one_lt_iff.mp hlt hlast
        have hadd : (plainAdd true prior.state.sequence 1 : Outcome ChannelError UInt64) =
            .error .panic := by
          rw [plainAdd, if_neg hover, if_pos rfl]
        rw [ChannelTerms.verifyState, hid, hchannel, ok_bind, require_pos rfl, ok_bind]
        dsimp only
        rw [ChannelTerms.verifySuccessor, show P.checked.overflowChecks = true from rfl, hadd,
          error_bind, error_bind]
      · intro hfits
        refine .bind channelId_noPanic fun channelId hchannel => .bind .require fun _ hsame => ?_
        rw [hid, ← require_eq_ok.mp hsame] at hchannel
        have hadd : (plainAdd P.checked.overflowChecks prior.state.sequence 1 :
            Outcome ChannelError UInt64) = .ok (prior.state.sequence + 1) :=
          plainAdd_of_lt (add_one_lt_iff.mpr (hfits prior rfl hchannel))
        refine .bind ?_ fun _ _ => verifyAmounts_noPanic
        refine .bind ?_ fun _ _ => .bind .require fun _ _ => .bind .require fun _ _ =>
          .bind .require fun _ _ => .bind .okOr fun _ _ => .bind verifyReceipt_noPanic fun _ _ =>
          .require
        rw [hadd]
        exact .ok

/-- An accepted successor comes after its predecessor, if one can be added. -/
theorem sequence_lt_of_verifyState {prior signed : SignedPaymentState}
    {receipt : Option SignedInferenceReceipt} (hlast : prior.state.sequence ≠ lastSequence)
    (h : terms.verifyState P (some prior) signed receipt = .ok ()) :
    prior.state.sequence < signed.state.sequence := by
  obtain ⟨_, hsuccessor, _⟩ := verifyState_some_eq_ok.mp h
  obtain ⟨sequence, hadd, hsuccessor⟩ := bind_eq_ok.mp hsuccessor
  obtain ⟨_, hsequence, _⟩ := bind_eq_ok.mp hsuccessor
  obtain ⟨rfl, _⟩ := plainAdd_eq_ok.mp hadd
  rw [require_eq_ok.mp hsequence, UInt64.lt_iff_toNat_lt, toNat_add_of_lt (add_one_lt_iff.mpr hlast)]
  exact Nat.lt_succ_self _

/-- Every call returns a value or an error with no operation out of its range, and every
accepted successor comes after its predecessor, but for one: `verify_state` on a
successor of the largest sequence number. -/
theorem channel_total_iff (P : Platform) (terms : ChannelTerms) :
    (∀ inputTokens authorizedOutputTokens,
      NoPanic (terms.initialState P.checked inputTokens authorizedOutputTokens)) ∧
    (∀ previous receipt authorizedOutputTokens,
      NoPanic (terms.nextStatePlain P.checked previous receipt authorizedOutputTokens)) ∧
    (∀ state receipt, NoPanic (terms.verifyReceipt P.checked state receipt)) ∧
    (∀ height, NoPanic (terms.refundPlain P.checked height)) ∧
    (∀ settlement : Settlement, NoPanic (settlement.verify P.checked terms)) ∧
    ∀ previous signed receipt,
      (NoPanic (terms.verifyStatePlain P.checked previous signed receipt) ∧
        ∀ prior, previous = some prior →
          terms.verifyStatePlain P previous signed receipt = .ok () →
          prior.state.sequence < signed.state.sequence) ↔
      SequenceFits P terms previous signed := by
  refine ⟨fun _ _ => initialState_noPanic, fun previous receipt authorized => ?_,
    fun _ _ => verifyReceipt_noPanic, fun height => ?_, fun _ => settlement_verify_noPanic,
    fun previous signed receipt => ?_⟩
  · rw [nextStatePlain_eq]
    exact nextState_noPanic
  · rw [refundPlain_eq]
    exact refund_noPanic
  · rw [verifyStatePlain_eq, verifyStatePlain_eq]
    constructor
    · intro h
      exact verifyState_noPanic_iff.mp h.1
    · intro hfits
      refine ⟨verifyState_noPanic_iff.mpr hfits, fun prior hprior haccepted => ?_⟩
      rw [hprior] at haccepted
      exact sequence_lt_of_verifyState
        (hfits prior hprior (verifyState_some_eq_ok.mp haccepted).1) haccepted

theorem sampleSigned_sequence (n : Nat) : (sampleSigned n).state.sequence = UInt64.ofNat n := rfl

/-- The sample state of sequence number `2 ^ 64 - 1` and its successor: a build without
overflow checks accepts the successor, whose sequence number is zero, and a build with
them aborts. -/
theorem verifyState_wraps :
    (sampleSigned (2 ^ 64 - 1)).state.sequence = lastSequence ∧
    sampleTerms.verifyStatePlain samplePlatform (some (sampleSigned (2 ^ 64 - 1)))
      (sampleSigned (2 ^ 64)) (some (sampleReceipt (2 ^ 64 - 1))) = .ok () ∧
    (sampleSigned (2 ^ 64)).state.sequence = 0 ∧
    sampleTerms.verifyStatePlain samplePlatform.checked (some (sampleSigned (2 ^ 64 - 1)))
      (sampleSigned (2 ^ 64)) (some (sampleReceipt (2 ^ 64 - 1))) = .error .panic := by
  have hlast : (sampleSigned (2 ^ 64 - 1)).state.sequence = lastSequence := by
    rw [sampleSigned_sequence, lastSequence]
  have haccepted := sampleSigned_accepted (2 ^ 64 - 1)
  rw [Nat.sub_add_cancel (Nat.one_le_two_pow)] at haccepted
  refine ⟨hlast, ?_, ?_, ?_⟩
  · rw [verifyStatePlain_eq]
    exact haccepted
  · rw [sampleSigned_sequence]
    decide
  · rw [verifyStatePlain_eq]
    by_contra hpanic
    have hfits := verifyState_noPanic_iff.mp hpanic
    exact hfits _ rfl (verifyState_some_eq_ok.mp haccepted).1 hlast

end CommonFoundry
