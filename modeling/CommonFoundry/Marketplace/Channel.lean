/-
# `CommonFoundry.Marketplace.Channel` — the payment-channel state machine

The whole of `cmfd-marketplace`: the terms of a channel, the payment states a
customer signs, the receipts a provider signs, and the settlement and refund
that close the channel on chain.

Everything is computed from the terms.  `stateFor` is the one place where an
amount is derived, from token counts and prices; `verifyState`,
`verifyCloseState` and `refund` never trust an amount they are given but
recompute it and compare.

Two points of the source are easy to lose:

  * `nextState` verifies its predecessor *as an opening state* (`verify_state`
    with no predecessor), so it refuses every predecessor but the first;
  * the successor check adds one to the predecessor's sequence number with the
    plain operator, the only arithmetic of the crate that is not checked.
-/
import CommonFoundry.Platform

namespace CommonFoundry

open Lib Lib.Outcome

/-- `CHANNEL_DOMAIN`. -/
def channelDomain : String := "CMFD/MARKETPLACE/CHANNEL/V1"
/-- `STATE_DOMAIN`. -/
def stateDomain : String := "CMFD/MARKETPLACE/PAYMENT-STATE/V1"
/-- `RECEIPT_DOMAIN`. -/
def receiptDomain : String := "CMFD/MARKETPLACE/INFERENCE-RECEIPT/V1"
/-- `SETTLEMENT_DOMAIN`. -/
def settlementDomain : String := "CMFD/MARKETPLACE/SETTLEMENT/V1"
/-- `SETTLEMENT_WITNESS_DOMAIN`. -/
def settlementWitnessDomain : String := "CMFD/MARKETPLACE/SETTLEMENT-WITNESS/V1"

structure ChannelTerms where
  networkId : Bytes32
  jobId : Bytes32
  customerKey : Bytes32
  providerKey : Bytes32
  modelDigest : Bytes32
  runtimeDigest : Bytes32
  inputDigest : Bytes32
  deposit : UInt64
  closeFeeBurn : UInt64
  basePrice : UInt64
  inputPricePer1000 : UInt64
  outputPricePer1000 : UInt64
  maxInputTokens : UInt64
  maxOutputTokens : UInt64
  outputChunkTokens : UInt64
  refundHeight : UInt64
  deriving DecidableEq

structure PaymentState where
  channelId : Bytes32
  sequence : UInt64
  inputTokens : UInt64
  authorizedOutputTokens : UInt64
  providerPayment : UInt64
  customerRefund : UInt64
  closeFeeBurn : UInt64
  previousReceipt : Bytes32
  deriving DecidableEq

structure SignedPaymentState where
  state : PaymentState
  customerSignature : List UInt8
  deriving DecidableEq

structure InferenceReceipt where
  channelId : Bytes32
  stateSequence : UInt64
  inputTokens : UInt64
  deliveredOutputTokens : UInt64
  rollingOutputDigest : Bytes32
  completed : Bool
  deriving DecidableEq

structure SignedInferenceReceipt where
  receipt : InferenceReceipt
  providerSignature : List UInt8
  deriving DecidableEq

structure Settlement where
  state : SignedPaymentState
  providerSignature : List UInt8
  deriving DecidableEq

structure Refund where
  channelId : Bytes32
  availableHeight : UInt64
  customerAmount : UInt64
  feeBurn : UInt64
  deriving DecidableEq

inductive ChannelError where
  | terms
  | amountOverflow
  | depositExceeded
  | channelId
  | sequence
  | inputTokens
  | outputTokens
  | payment
  | receiptLink
  | receiptDelivery
  | malformedSignature
  | invalidSignature
  | refundLocked
  deriving DecidableEq, Repr

/-! ## What is hashed -/

def encodeTerms (terms : ChannelTerms) : List UInt8 :=
  terms.networkId.1 ++ terms.jobId.1 ++ terms.customerKey.1 ++ terms.providerKey.1 ++
    terms.modelDigest.1 ++ terms.runtimeDigest.1 ++ terms.inputDigest.1 ++
    [terms.deposit, terms.closeFeeBurn, terms.basePrice, terms.inputPricePer1000,
      terms.outputPricePer1000, terms.maxInputTokens, terms.maxOutputTokens,
      terms.outputChunkTokens, terms.refundHeight].flatMap leBytes64

def encodeState (state : PaymentState) : List UInt8 :=
  state.channelId.1 ++
    [state.sequence, state.inputTokens, state.authorizedOutputTokens, state.providerPayment,
      state.customerRefund, state.closeFeeBurn].flatMap leBytes64 ++
    state.previousReceipt.1

def encodeReceipt (receipt : InferenceReceipt) : List UInt8 :=
  receipt.channelId.1 ++
    [receipt.stateSequence, receipt.inputTokens, receipt.deliveredOutputTokens].flatMap
      leBytes64 ++
    receipt.rollingOutputDigest.1 ++ [if receipt.completed then 1 else 0]

/-- The length of a byte vector as the eight bytes that go into a hash. -/
def lengthBytes (bytes : List UInt8) : List UInt8 := leBytes64 (UInt64.ofNat bytes.length)

section

variable (P : Platform)

def stateDigest (state : PaymentState) : Bytes32 :=
  P.deriveKey stateDomain (encodeState state)

def receiptDigest (receipt : InferenceReceipt) : Bytes32 :=
  P.deriveKey receiptDomain (encodeReceipt receipt)

def settlementDigest (state : SignedPaymentState) : Bytes32 :=
  P.deriveKey settlementDomain
    (encodeState state.state ++ lengthBytes state.customerSignature ++ state.customerSignature)

/-- `SignedInferenceReceipt::digest`: what the next state links to. -/
def SignedInferenceReceipt.digest (signed : SignedInferenceReceipt) : Bytes32 :=
  P.deriveKey receiptDomain
    (encodeReceipt signed.receipt ++ lengthBytes signed.providerSignature ++
      signed.providerSignature)

def Settlement.witnessDigest (settlement : Settlement) : Bytes32 :=
  P.deriveKey settlementWitnessDomain
    (encodeState settlement.state.state ++ lengthBytes settlement.state.customerSignature ++
      settlement.state.customerSignature ++ lengthBytes settlement.providerSignature ++
      settlement.providerSignature)

def verifySignature (key digest : Bytes32) (bytes : List UInt8) : Outcome ChannelError Unit := do
  require (P.verifyingKey key) .malformedSignature
  require (P.signature bytes) .malformedSignature
  require (P.verify key digest bytes) .invalidSignature

/-! ## Prices and states -/

/-- `ceil(tokens * price_per_1000 / 1000)` in 128 bits, narrowed to 64. -/
def roundedTokenCharge (tokens pricePer1000 : UInt64) : Outcome ChannelError UInt64 := do
  let product ← okOr (checked128 (tokens.toNat * pricePer1000.toNat)) .amountOverflow
  let numerator ← okOr (checked128 (product + 999)) .amountOverflow
  okOr (tryWord64 (numerator / 1000)) .amountOverflow

def ChannelTerms.validate (terms : ChannelTerms) : Outcome ChannelError Unit := do
  require (¬(terms.deposit = 0 ∨ terms.outputChunkTokens = 0 ∨ terms.maxInputTokens = 0 ∨
    terms.maxOutputTokens = 0 ∨ terms.closeFeeBurn ≥ terms.deposit ∨
    terms.customerKey = terms.providerKey)) .terms
  require (P.verifyingKey terms.customerKey) .terms
  require (P.verifyingKey terms.providerKey) .terms

/-- `ChannelTerms::channel_id`. -/
def ChannelTerms.channelId (terms : ChannelTerms) : Outcome ChannelError Bytes32 := do
  terms.validate P
  pure (P.deriveKey channelDomain (encodeTerms terms))

def ChannelTerms.quotedPayment (terms : ChannelTerms) (inputTokens outputTokens : UInt64) :
    Outcome ChannelError UInt64 := do
  require (inputTokens ≤ terms.maxInputTokens) .inputTokens
  require (outputTokens ≤ terms.maxOutputTokens) .outputTokens
  let input ← roundedTokenCharge inputTokens terms.inputPricePer1000
  let output ← roundedTokenCharge outputTokens terms.outputPricePer1000
  let subtotal ← okOr (checkedAdd terms.basePrice input) .amountOverflow
  okOr (checkedAdd subtotal output) .amountOverflow

/-- The state with these counters: payment, refund and fee follow from the terms. -/
def ChannelTerms.stateFor (terms : ChannelTerms) (sequence inputTokens outputTokens : UInt64)
    (previousReceipt : Bytes32) : Outcome ChannelError PaymentState := do
  let providerPayment ← terms.quotedPayment inputTokens outputTokens
  let used ← okOr (checkedAdd providerPayment terms.closeFeeBurn) .amountOverflow
  let customerRefund ← okOr (checkedSub terms.deposit used) .depositExceeded
  let channelId ← terms.channelId P
  pure {
    channelId, sequence, inputTokens
    authorizedOutputTokens := outputTokens
    providerPayment, customerRefund
    closeFeeBurn := terms.closeFeeBurn
    previousReceipt }

def ChannelTerms.initialState (terms : ChannelTerms)
    (inputTokens authorizedOutputTokens : UInt64) : Outcome ChannelError PaymentState := do
  require (¬(authorizedOutputTokens = 0 ∨ authorizedOutputTokens > terms.outputChunkTokens))
    .outputTokens
  terms.stateFor P 0 inputTokens authorizedOutputTokens zero32

def ChannelTerms.verifyReceipt (terms : ChannelTerms) (state : SignedPaymentState)
    (signed : SignedInferenceReceipt) : Outcome ChannelError Unit := do
  let channelId ← terms.channelId P
  require (¬(signed.receipt.channelId ≠ channelId ∨
    signed.receipt.stateSequence ≠ state.state.sequence)) .receiptLink
  require (¬(signed.receipt.inputTokens ≠ state.state.inputTokens ∨
    signed.receipt.deliveredOutputTokens > state.state.authorizedOutputTokens)) .receiptDelivery
  verifySignature P terms.providerKey (receiptDigest P signed.receipt) signed.providerSignature

/-- What every accepted state passes: its amounts are the ones the terms give
for its counters, and the customer signed it. -/
def ChannelTerms.verifyAmounts (terms : ChannelTerms) (signed : SignedPaymentState) :
    Outcome ChannelError Unit := do
  let expected ← terms.stateFor P signed.state.sequence signed.state.inputTokens
    signed.state.authorizedOutputTokens signed.state.previousReceipt
  require (signed.state = expected) .payment
  verifySignature P terms.customerKey (stateDigest P signed.state) signed.customerSignature

/-- The `previous = None` arm of `verify_state`. -/
def ChannelTerms.verifyOpening (terms : ChannelTerms) (signed : SignedPaymentState) :
    Outcome ChannelError Unit := do
  require (¬(signed.state.sequence ≠ 0 ∨ signed.state.previousReceipt ≠ zero32)) .sequence
  require (¬(signed.state.authorizedOutputTokens = 0 ∨
    signed.state.authorizedOutputTokens > terms.outputChunkTokens)) .outputTokens

/-- The `previous = Some(prior)` arm of `verify_state`.  The subtraction is
reached only when it is not negative. -/
def ChannelTerms.verifySuccessor (terms : ChannelTerms) (prior signed : SignedPaymentState)
    (receipt : Option SignedInferenceReceipt) : Outcome ChannelError Unit := do
  let sequence ← plainAdd P.overflowChecks prior.state.sequence 1
  require (signed.state.sequence = sequence) .sequence
  require (signed.state.inputTokens = prior.state.inputTokens) .inputTokens
  require (¬(signed.state.authorizedOutputTokens < prior.state.authorizedOutputTokens ∨
    signed.state.authorizedOutputTokens - prior.state.authorizedOutputTokens >
      terms.outputChunkTokens)) .outputTokens
  let receipt ← okOr receipt .receiptLink
  terms.verifyReceipt P prior receipt
  require (signed.state.previousReceipt = receipt.digest P) .receiptLink

def ChannelTerms.verifyState (terms : ChannelTerms) (previous : Option SignedPaymentState)
    (signed : SignedPaymentState) (receipt : Option SignedInferenceReceipt) :
    Outcome ChannelError Unit := do
  let channelId ← terms.channelId P
  require (signed.state.channelId = channelId) .channelId
  match previous with
  | none => terms.verifyOpening signed
  | some prior => terms.verifySuccessor P prior signed receipt
  terms.verifyAmounts P signed

/-- The predecessor is verified as an opening state. -/
def ChannelTerms.nextState (terms : ChannelTerms) (previous : SignedPaymentState)
    (receipt : SignedInferenceReceipt) (authorizedOutputTokens : UInt64) :
    Outcome ChannelError PaymentState := do
  terms.verifyState P none previous none
  terms.verifyReceipt P previous receipt
  require (¬(authorizedOutputTokens < previous.state.authorizedOutputTokens ∨
    authorizedOutputTokens - previous.state.authorizedOutputTokens > terms.outputChunkTokens))
    .outputTokens
  let sequence ← plainAdd P.overflowChecks previous.state.sequence 1
  terms.stateFor P sequence previous.state.inputTokens authorizedOutputTokens (receipt.digest P)

/-! ## Closing the channel -/

/-- `deposit - close_fee_burn` is evaluated after `channel_id`, which refuses
terms whose fee is not below the deposit. -/
def ChannelTerms.refund (terms : ChannelTerms) (currentHeight : UInt64) :
    Outcome ChannelError Refund := do
  require (¬currentHeight < terms.refundHeight) .refundLocked
  let channelId ← terms.channelId P
  pure {
    channelId
    availableHeight := terms.refundHeight
    customerAmount := terms.deposit - terms.closeFeeBurn
    feeBurn := terms.closeFeeBurn }

def SignedPaymentState.sign (state : PaymentState) (customer : SigningKey) :
    SignedPaymentState :=
  { state, customerSignature := (P.sign customer (stateDigest P state)).1 }

def SignedInferenceReceipt.sign (receipt : InferenceReceipt) (provider : SigningKey) :
    SignedInferenceReceipt :=
  { receipt, providerSignature := (P.sign provider (receiptDigest P receipt)).1 }

def Settlement.close (state : SignedPaymentState) (provider : SigningKey) : Settlement :=
  { state, providerSignature := (P.sign provider (settlementDigest P state)).1 }

def verifyCloseState (terms : ChannelTerms) (signed : SignedPaymentState) :
    Outcome ChannelError Unit := do
  let channelId ← terms.channelId P
  require (signed.state.channelId = channelId) .channelId
  terms.verifyAmounts P signed

/-- A later state cannot be verified without its receipt chain, but its amounts
and the customer's signature can. -/
def Settlement.verify (settlement : Settlement) (terms : ChannelTerms) :
    Outcome ChannelError Unit := do
  match terms.verifyState P none settlement.state none with
  | .ok () => pure ()
  | .error (.err error) =>
      if settlement.state.state.sequence = 0 then fail error
      else verifyCloseState P terms settlement.state
  | .error .panic => .error .panic
  verifySignature P terms.providerKey (settlementDigest P settlement.state)
    settlement.providerSignature

end

end CommonFoundry
