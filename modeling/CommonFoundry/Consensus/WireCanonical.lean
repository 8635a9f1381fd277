/-
# `CommonFoundry.Consensus.WireCanonical` — what the decoder accepts, the encoder writes

The converse of the round trip: a frame that decodes is the frame of its value.
So an accepted value has one encoding, and a frame that is cut short or has bytes
behind it is refused (`canonical_wire`).

It is one `Unreads` chain per record, as the round trip is one `Codes` chain.
What the encoder checks and the decoder does not look at again follows from what
the decoder did check: a signature is an array of its length, the terms name the
network that was expected, the totals of a block were kept while it was read.
-/
import CommonFoundry.Lib.Canonical
import CommonFoundry.Consensus.WireRoundTrip

namespace CommonFoundry

open Lib Lib.Outcome Lib.Codec

/-- `Unreads` for the writer of this codec. -/
abbrev WireUnreads {α : Type} (dec : Read α) (enc : α → Write) (post : α → Prop) : Prop :=
  Unreads wireSink dec enc post

/-! ## Words and arrays -/

theorem unreads_array (n : Nat) :
    WireUnreads (Read.array n) (fun value => Writer.put value.1) anyValue :=
  Puts.unreads_array _ wirePuts n

theorem unreads_u8 : WireUnreads Read.u8 Writer.u8 anyValue := Puts.unreads_u8 _ wirePuts

theorem unreads_u32 : WireUnreads Read.u32 Writer.u32 anyValue := Puts.unreads_u32 _ wirePuts

theorem unreads_u64 : WireUnreads Read.u64 Writer.u64 anyValue := Puts.unreads_u64 _ wirePuts

/-! ## Counts and length prefixes -/

theorem lengthWord_toNat (word : UInt32) : lengthWord word.toNat = .ok word := by
  rw [lengthWord, if_pos word.toNat_lt, okOr_some, UInt32.ofNat_toNat]

theorem unreads_count (maximum : Nat) (field : String) :
    WireUnreads (Read.count maximum field) (fun count => Writer.count count maximum field)
      fun count => count ≤ maximum := by
  intro input count rest h
  rw [Read.count, bind_apply, bind_eq_ok] at h
  obtain ⟨⟨word, mid⟩, hword, h⟩ := h
  obtain ⟨_, bs, rfl, hemits⟩ := unreads_u32 input word mid hword
  obtain ⟨u, hcheck, h⟩ := lift_bind_eq_ok.mp h
  cases h
  refine ⟨Nat.not_lt.mp (require_eq_ok.mp hcheck), bs, rfl, ?_⟩
  exact Emits.after hcheck (Emits.after (lengthWord_toNat word) hemits)

theorem unreads_sizedBytes (maximum : Nat) (object : String) :
    WireUnreads (Read.sizedBytes maximum object)
      (fun value => Writer.sizedBytes value maximum object)
      fun value => ensurePayloadSize value.length maximum object = .ok () := by
  intro input value rest h
  rw [Read.sizedBytes, bind_apply, bind_eq_ok] at h
  obtain ⟨⟨word, mid⟩, hword, h⟩ := h
  obtain ⟨_, bs, rfl, hlength⟩ := unreads_u32 input word mid hword
  obtain ⟨u, hsize, h⟩ := lift_bind_eq_ok.mp h
  obtain ⟨hvalue, bs', rfl, hemits⟩ := Puts.unreads_bytes _ wirePuts word.toNat mid value rest h
  rw [← hvalue] at hsize
  refine ⟨hsize, bs ++ bs', (List.append_assoc ..).symm, ?_⟩
  refine Emits.after hsize (Emits.after (v := word) ?_ (hlength.seq hemits))
  rw [hvalue]
  exact lengthWord_toNat word

/-! ## Channel data -/

theorem unreads_channelTerms (networkId : Bytes32) :
    WireUnreads (decodeChannelTerms networkId) writeChannelTerms
      fun terms => terms.networkId = networkId := by
  refine (unreads_array 32).bind fun _ _ => .check fun _ hnetwork => ?_
  have hnetwork := checkNetwork_eq_ok.mp hnetwork
  refine (unreads_array 32).bind fun _ _ => (unreads_array 32).bind fun _ _ =>
    (unreads_array 32).bind fun _ _ => (unreads_array 32).bind fun _ _ =>
    (unreads_array 32).bind fun _ _ => (unreads_array 32).bind fun _ _ => ?_
  refine unreads_u64.bind fun _ _ => unreads_u64.bind fun _ _ => unreads_u64.bind fun _ _ =>
    unreads_u64.bind fun _ _ => unreads_u64.bind fun _ _ => unreads_u64.bind fun _ _ =>
    unreads_u64.bind fun _ _ => unreads_u64.bind fun _ _ => ?_
  refine unreads_u64.map (fun _ => rfl) fun _ _ => ?_
  exact ⟨rfl, rfl, rfl, rfl, rfl, rfl, rfl, rfl, rfl, rfl, rfl, rfl, rfl, rfl, rfl, hnetwork⟩

theorem unreads_paymentState : WireUnreads decodePaymentState writePaymentState anyValue := by
  refine (unreads_array 32).bind fun _ _ => unreads_u64.bind fun _ _ => unreads_u64.bind fun _ _ =>
    unreads_u64.bind fun _ _ => unreads_u64.bind fun _ _ => unreads_u64.bind fun _ _ =>
    unreads_u64.bind fun _ _ => ?_
  refine (unreads_array 32).map (fun _ => rfl) fun _ _ => ?_
  exact ⟨rfl, rfl, rfl, rfl, rfl, rfl, rfl, trivial⟩

theorem unreads_signature :
    WireUnreads decodeSignature encodeSignature fun signature =>
      checkSignature signature = .ok () := by
  have hcheck : ∀ signature : Bytes consensusSignatureBytes, checkSignature signature.1 = .ok () :=
    fun signature => require_pos signature.2
  refine (unreads_array consensusSignatureBytes).map (fun signature => ?_) fun a _ => hcheck a
  rw [encodeSignature, hcheck]
  rfl

/-! ## Inputs and outputs -/

/-- The tag of a witness. -/
def InputWitness.tag : InputWitness → UInt8
  | .key .. => 0
  | .inferenceSettlement .. => 1
  | .inferenceRefund .. => 2

/-- What follows the tag of a witness. -/
def writeWitnessFields : InputWitness → Write
  | .key publicKey signature => do
      Writer.put publicKey.1
      encodeSignature signature
  | .inferenceSettlement terms settlement => do
      writeChannelTerms terms
      writePaymentState settlement.state.state
      encodeSignature settlement.state.customerSignature
      encodeSignature settlement.providerSignature
  | .inferenceRefund terms => writeChannelTerms terms

theorem encodeInput_eq : encodeInput = (fun input => do
    Writer.put input.previous.txid.1
    Writer.u32 input.previous.index
    Writer.u8 input.witness.tag
    writeWitnessFields input.witness) := by
  funext input
  obtain ⟨previous, witness⟩ := input
  cases witness with
  | key => rfl
  | inferenceSettlement => rfl
  | inferenceRefund => rfl

/-- The witness has the tag it was read for, and the shape the encoder asks for. -/
structure InputWitness.Accepted (networkId : Bytes32) (tag : UInt8) (witness : InputWitness) :
    Prop where
  tag : witness.tag = tag
  shape : ∀ previous, checkInputShape networkId { previous, witness } = .ok ()

theorem unreads_witness (networkId : Bytes32) (tag : UInt8) :
    WireUnreads (decodeWitness networkId tag) writeWitnessFields
      (InputWitness.Accepted networkId tag) := by
  rw [decodeWitness]
  split
  · next htag =>
      intro input witness rest h
      obtain ⟨publicKey, mid, bs, _, rfl, hkey, h⟩ := (unreads_array 32).peel h
      obtain ⟨signature, mid, bs', hcheck, rfl, hsignature, h⟩ := unreads_signature.peel h
      cases h
      refine ⟨⟨htag.symm, fun _ => hcheck⟩, bs ++ bs', (List.append_assoc ..).symm, ?_⟩
      exact hkey.seq hsignature
  split
  · next htag =>
      intro input witness rest h
      obtain ⟨terms, mid, bs, hnetwork, rfl, hterms, h⟩ := (unreads_channelTerms networkId).peel h
      obtain ⟨state, mid, bs₁, _, rfl, hstate, h⟩ := unreads_paymentState.peel h
      obtain ⟨customer, mid, bs₂, hcheck, rfl, hcustomer, h⟩ := unreads_signature.peel h
      obtain ⟨provider, mid, bs₃, hcheck', rfl, hprovider, h⟩ := unreads_signature.peel h
      cases h
      refine ⟨⟨htag.symm, fun _ => ?_⟩, bs ++ (bs₁ ++ (bs₂ ++ bs₃)), ?_, ?_⟩
      · simp only [checkInputShape, checkTermsNetwork, hnetwork, checkNetwork_self, hcheck, hcheck',
          ok_bind]
      · simp only [List.append_assoc]
      · exact hterms.seq (hstate.seq (hcustomer.seq hprovider))
  split
  · next htag =>
      intro input witness rest h
      obtain ⟨terms, mid, bs, hnetwork, rfl, hterms, h⟩ := (unreads_channelTerms networkId).peel h
      cases h
      refine ⟨⟨htag.symm, fun _ => ?_⟩, bs, rfl, hterms⟩
      simp only [checkInputShape, checkTermsNetwork, hnetwork, checkNetwork_self]
  · exact .fail

theorem unreads_input (networkId : Bytes32) :
    WireUnreads (decodeInput networkId) encodeInput fun input =>
      checkInputShape networkId input = .ok () := by
  rw [encodeInput_eq]
  refine (unreads_array 32).bind fun _ _ => unreads_u32.bind fun _ _ => unreads_u8.bind fun tag _ => ?_
  refine (unreads_witness networkId tag).map (fun _ => rfl) fun witness hwitness => ?_
  exact ⟨congrArg Writer.u8 hwitness.tag, rfl, rfl, hwitness.shape _⟩

/-- The tag of a lock. -/
def OutputLock.tag : OutputLock → UInt8
  | .key _ => 0
  | .inferenceChannel _ => 1

/-- What follows the tag of a lock. -/
def writeLockFields : OutputLock → Write
  | .key owner => Writer.put owner.1
  | .inferenceChannel channelId => Writer.put channelId.1

theorem encodeOutput_eq : encodeOutput = (fun output => do
    Writer.u64 output.value
    Writer.u8 output.lock.tag
    writeLockFields output.lock
    Writer.u64 output.spendableHeight) := by
  funext output
  obtain ⟨value, lock, spendableHeight⟩ := output
  cases lock with
  | key => rfl
  | inferenceChannel => rfl

theorem unreads_lock (tag : UInt8) :
    WireUnreads (decodeLock tag) writeLockFields fun lock => lock.tag = tag := by
  rw [decodeLock]
  split
  · next htag => exact (unreads_array 32).map (fun _ => rfl) fun _ _ => htag.symm
  split
  · next htag => exact (unreads_array 32).map (fun _ => rfl) fun _ _ => htag.symm
  · exact .fail

theorem unreads_output : WireUnreads decodeOutput encodeOutput anyValue := by
  rw [encodeOutput_eq]
  refine unreads_u64.bind fun _ _ => unreads_u8.bind fun tag _ => (unreads_lock tag).bind
    fun lock hlock => ?_
  refine unreads_u64.map (fun _ => rfl) fun _ _ => ?_
  exact ⟨rfl, congrArg Writer.u8 hlock, rfl, trivial⟩

/-! ## Payloads -/

/-- What is read from a payload is written to the same payload. -/
theorem payload_of_run {α : Type} {dec : Read α} {enc : α → Write} {post : α → Prop} {limit : Nat}
    {payload : List UInt8} {a : α} (object : String) (h : WireUnreads dec enc post)
    (hrun : Read.run dec payload = .ok a) (hlimit : payload.length ≤ limit) :
    post a ∧ Writer.payload limit object (enc a) = .ok payload := by
  simp only [Read.run, Read.finish, bind_eq_ok, require_eq_ok, pure_eq_ok] at hrun
  obtain ⟨⟨_, rest⟩, hdec, _, ⟨_, hrest, _⟩, rfl⟩ := hrun
  obtain ⟨hpost, bs, rfl, hemits⟩ := h payload _ rest hdec
  obtain rfl := List.eq_nil_of_length_eq_zero hrest
  rw [List.append_nil] at hlimit ⊢
  refine ⟨hpost, ?_⟩
  rw [Writer.payload, hemits (Writer.new limit object) (by
    show 0 + bs.length ≤ limit
    omega)]
  rfl

theorem le_payloadLimit {length maximum : Nat} {object : String} {u : Unit}
    (h : ensurePayloadSize length maximum object = .ok u) : length ≤ payloadLimit maximum := by
  have hle := require_eq_ok.mp h
  rw [payloadLimit]
  omega

/-! ## Transactions -/

theorem unreads_transaction (networkId : Bytes32) :
    WireUnreads (readTransaction networkId) writeTransaction fun transaction =>
      transaction.networkId = networkId ∧
        validateTransactionShape transaction networkId = .ok () := by
  refine (unreads_array 32).bind fun _ _ => .check fun _ hnetwork => ?_
  have hnetwork := checkNetwork_eq_ok.mp hnetwork
  refine unreads_u32.bind fun _ _ => (unreads_count _ _).bind fun inputCount hinputs =>
    ((unreads_input networkId).many inputCount).bind fun inputs hshapes =>
    (unreads_count _ _).bind fun outputCount houtputs => ?_
  refine (unreads_output.many outputCount).map (fun _ => rfl) fun outputs hcount => ?_
  obtain ⟨hinputCount, hshapes⟩ := hshapes
  obtain ⟨houtputCount, _⟩ := hcount
  have hinputLength : ¬inputs.length > maxTransactionInputs := by omega
  have houtputLength : ¬outputs.length > maxTransactionOutputs := by omega
  refine ⟨?_, rfl, ?_, rfl, rfl, hnetwork, ?_⟩
  · rw [houtputCount]
  · rw [hinputCount]
  · simp only [validateTransactionShape, hnetwork, checkNetwork_self, checkCount, hinputLength,
      houtputLength, not_false_eq_true, require_pos, ok_bind]
    exact forM_eq_ok_iff.mpr hshapes

/-- A transaction payload that decodes is the payload of its transaction. -/
theorem encodeTransactionPayload_decode {payload : List UInt8} {networkId : Bytes32}
    {transaction : Transaction}
    (h : decodeTransactionPayload payload networkId = .ok transaction) :
    transaction.networkId = networkId ∧
      validateTransactionShape transaction networkId = .ok () ∧
      encodeTransactionPayload transaction = .ok payload := by
  simp only [decodeTransactionPayload, bind_eq_ok] at h
  obtain ⟨_, hsize, hrun⟩ := h
  obtain ⟨⟨hnetwork, hshape⟩, hpayload⟩ := payload_of_run "transaction"
    (unreads_transaction networkId) hrun (le_payloadLimit hsize)
  refine ⟨hnetwork, hshape, ?_⟩
  rw [encodeTransactionPayload, hnetwork, hshape]
  exact hpayload

/-! ## Proofs -/

/-- The tag of a proof. -/
def BlockProof.tag : BlockProof → UInt8
  | .v1Legacy _ => forgeMatrixV1ProofTag
  | .v2Reference _ => forgeMatrixV2ProofTag

/-- What follows the tag and the network identifier of a proof. -/
def writeProofFields : BlockProof → Write
  | .v1Legacy proof => do
      Writer.u32 proof.algorithmVersion
      Writer.u32 proof.modelVersion
      Writer.u64 proof.nonce
      Writer.put proof.modelRoot.1
      Writer.put proof.outputDigest.1
      Writer.put proof.workDigest.1
  | .v2Reference proof => do
      Writer.u32 proof.algorithmVersion
      Writer.u32 proof.proofVersion
      Writer.u64 proof.nonce
      Writer.put proof.modelManifestDigest.1
      Writer.put proof.challengeDigest.1
      Writer.put proof.finalActivationDigest.1
      Writer.put proof.workDigest.1

theorem writeProof_eq (networkId : Bytes32) : (fun proof => writeProof proof networkId) =
    (fun proof => do
      Writer.u8 proof.tag
      Writer.put networkId.1
      writeProofFields proof) := by
  funext proof
  cases proof with
  | v1Legacy => rfl
  | v2Reference => rfl

theorem unreads_proofFields (tag : UInt8) :
    WireUnreads (decodeProofFields tag) writeProofFields fun proof => proof.tag = tag := by
  rw [decodeProofFields]
  split
  · next htag =>
      intro input proof rest h
      obtain ⟨_, mid, b₁, _, rfl, h₁, h⟩ := unreads_u32.peel h
      obtain ⟨_, mid, b₂, _, rfl, h₂, h⟩ := unreads_u32.peel h
      obtain ⟨_, mid, b₃, _, rfl, h₃, h⟩ := unreads_u64.peel h
      obtain ⟨_, mid, b₄, _, rfl, h₄, h⟩ := (unreads_array 32).peel h
      obtain ⟨_, mid, b₅, _, rfl, h₅, h⟩ := (unreads_array 32).peel h
      obtain ⟨_, mid, b₆, _, rfl, h₆, h⟩ := (unreads_array 32).peel h
      cases h
      refine ⟨htag.symm, b₁ ++ (b₂ ++ (b₃ ++ (b₄ ++ (b₅ ++ b₆)))), ?_, ?_⟩
      · simp only [List.append_assoc]
      · exact h₁.seq (h₂.seq (h₃.seq (h₄.seq (h₅.seq h₆))))
  split
  · next htag =>
      intro input proof rest h
      obtain ⟨_, mid, b₁, _, rfl, h₁, h⟩ := unreads_u32.peel h
      obtain ⟨_, mid, b₂, _, rfl, h₂, h⟩ := unreads_u32.peel h
      obtain ⟨_, mid, b₃, _, rfl, h₃, h⟩ := unreads_u64.peel h
      obtain ⟨_, mid, b₄, _, rfl, h₄, h⟩ := (unreads_array 32).peel h
      obtain ⟨_, mid, b₅, _, rfl, h₅, h⟩ := (unreads_array 32).peel h
      obtain ⟨_, mid, b₆, _, rfl, h₆, h⟩ := (unreads_array 32).peel h
      obtain ⟨_, mid, b₇, _, rfl, h₇, h⟩ := (unreads_array 32).peel h
      cases h
      refine ⟨htag.symm, b₁ ++ (b₂ ++ (b₃ ++ (b₄ ++ (b₅ ++ (b₆ ++ b₇))))), ?_, ?_⟩
      · simp only [List.append_assoc]
      · exact h₁.seq (h₂.seq (h₃.seq (h₄.seq (h₅.seq (h₆.seq h₇)))))
  · exact .fail

theorem unreads_proof (networkId : Bytes32) :
    WireUnreads (readProof networkId) (fun proof => writeProof proof networkId) anyValue := by
  rw [writeProof_eq]
  refine unreads_u8.bind fun tag _ => (unreads_array 32).bind fun _ _ => .check fun _ hnetwork => ?_
  obtain rfl := checkNetwork_eq_ok.mp hnetwork
  exact (unreads_proofFields tag).mono fun proof htag => ⟨rfl, congrArg Writer.u8 htag, trivial⟩

theorem encodeForgeMatrixProofPayload_decode {payload : List UInt8} {networkId : Bytes32}
    {proof : BlockProof} (h : decodeForgeMatrixProofPayload payload networkId = .ok proof) :
    encodeForgeMatrixProofPayload proof networkId = .ok payload := by
  simp only [decodeForgeMatrixProofPayload, bind_eq_ok] at h
  obtain ⟨_, hsize, hrun⟩ := h
  exact (payload_of_run _ (unreads_proof networkId) hrun (le_payloadLimit hsize)).2

/-! ## Blocks -/

theorem unreads_challenge (networkId : Bytes32) :
    WireUnreads (decodeChallenge networkId) encodeChallenge fun challenge =>
      challenge.networkId = networkId := by
  refine (unreads_array 32).bind fun _ _ => .check fun _ hnetwork => ?_
  have hnetwork := checkNetwork_eq_ok.mp hnetwork
  refine (unreads_array 32).bind fun _ _ => (unreads_array 32).bind fun _ _ =>
    unreads_u64.bind fun _ _ => unreads_u64.bind fun _ _ => ?_
  refine (unreads_array 32).map (fun _ => rfl) fun _ _ => ?_
  exact ⟨rfl, rfl, rfl, rfl, rfl, hnetwork⟩

theorem unreads_coinbase :
    WireUnreads decodeCoinbase encodeCoinbase fun coinbase =>
      coinbase.outputs.length ≤ maxCoinbaseOutputs := by
  refine unreads_u64.bind fun _ _ => (unreads_count _ _).bind fun count hcount => ?_
  refine (unreads_output.many count).map (fun _ => rfl) fun outputs houtputs => ?_
  obtain ⟨hlength, _⟩ := houtputs
  refine ⟨?_, rfl, ?_⟩
  · rw [hlength]
  · rw [hlength]
    exact hcount

/-- A payload inside a payload. -/
theorem unreads_embedded {α : Type} {decode : List UInt8 → Outcome WireError α}
    {encode : α → Outcome WireError (List UInt8)} {post : α → Prop} {maximum : Nat}
    {object : String}
    (h : ∀ payload a, decode payload = .ok a → post a ∧ encode a = .ok payload) :
    WireUnreads (Read.sizedBytes maximum object >>= fun payload => liftM (decode payload))
      (fun a => liftM (encode a) >>= fun payload => Writer.sizedBytes payload maximum object)
      post := by
  intro input a rest hdec
  obtain ⟨payload, mid, bs, _, rfl, hemits, hdec⟩ := (unreads_sizedBytes maximum object).peel hdec
  obtain ⟨hdecode, rfl⟩ := lift_eq_ok.mp hdec
  obtain ⟨hpost, hencode⟩ := h payload a hdecode
  exact ⟨hpost, bs, rfl, Emits.after hencode hemits⟩

theorem unreads_blockProof (networkId : Bytes32) :
    WireUnreads (readBlockProof networkId) (fun proof => writeBlockProof proof networkId)
      anyValue :=
  unreads_embedded fun _ _ h => ⟨trivial, encodeForgeMatrixProofPayload_decode h⟩

theorem unreads_blockTransaction (networkId : Bytes32) :
    WireUnreads (readBlockTransaction networkId) writeBlockTransaction fun transaction =>
      validateTransactionShape transaction networkId = .ok () := by
  refine unreads_embedded fun payload transaction h => ?_
  obtain ⟨_, hshape, hencode⟩ := encodeTransactionPayload_decode h
  exact ⟨hshape, hencode⟩

/-- The loop that reads the transactions keeps the totals the shape check keeps. -/
theorem unreads_blockTransactions (networkId : Bytes32) (n : Nat) (totals : BlockResources) :
    WireUnreads (readBlockTransactions networkId n totals) (writeMany writeBlockTransaction)
      fun transactions => transactions.length = n ∧ ∃ totals',
        transactions.foldlM (fun totals transaction => do
          validateTransactionShape transaction networkId
          addBlockResources totals transaction) totals = .ok totals' := by
  induction n generalizing totals with
  | zero => exact .pure Emits.done ⟨rfl, totals, rfl⟩
  | succ n ih =>
      intro input transactions rest h
      rw [readBlockTransactions] at h
      obtain ⟨transaction, mid, bs, hshape, rfl, hfirst, h⟩ :=
        (unreads_blockTransaction networkId).peel h
      obtain ⟨next, htotals, h⟩ := lift_bind_eq_ok.mp h
      obtain ⟨transactions', mid, bs', ⟨hlength, totals', hfold⟩, rfl, hrest, h⟩ := (ih next).peel h
      cases h
      refine ⟨⟨congrArg (· + 1) hlength, totals', ?_⟩, bs ++ bs', (List.append_assoc ..).symm,
        hfirst.seq hrest⟩
      rw [List.foldlM_cons, hshape, ok_bind, htotals, ok_bind]
      exact hfold

theorem unreads_block (networkId : Bytes32) :
    WireUnreads (readBlock networkId) writeBlock fun block =>
      block.challenge.networkId = networkId ∧ validateBlockShape block = .ok () := by
  refine unreads_u32.bind fun _ _ => (unreads_challenge networkId).bind fun challenge hnetwork =>
    (unreads_blockProof challenge.networkId).bind fun _ _ =>
    unreads_coinbase.bind fun coinbase houtputs => (unreads_count _ _).bind fun count hcount => ?_
  refine (unreads_blockTransactions networkId count _).map (fun _ => rfl)
    fun transactions htransactions => ?_
  obtain ⟨hlength, totals, hfold⟩ := htransactions
  have hfewOutputs : ¬coinbase.outputs.length > maxCoinbaseOutputs := by omega
  have hfewTransactions : ¬transactions.length > maxBlockTransactions := by omega
  refine ⟨?_, rfl, rfl, rfl, rfl, hnetwork, ?_⟩
  · rw [hlength]
  · simp only [validateBlockShape, checkCount, hfewOutputs, hfewTransactions, not_false_eq_true,
      require_pos, ok_bind, hnetwork, hfold]
    rfl

/-! ## Frames -/

section

variable {P : Platform}

/-- A frame decodes to a payload if and only if it is the frame of the payload. -/
theorem decodeFrame_iff {kind : UInt8} {networkId : Bytes32} {payload bytes : List UInt8}
    {maximum : Nat} {object : String} :
    decodeFrame P bytes networkId kind maximum object = .ok payload ↔
      encodeFrame P kind networkId payload maximum object = .ok bytes := by
  refine ⟨fun h => ?_, decodeFrame_encodeFrame⟩
  have hroom : wireHeaderBytes ≤ bytes.length := by
    simp only [decodeFrame, bind_eq_ok, require_eq_ok] at h
    exact Nat.not_lt.mp h.choose_spec.1
  obtain ⟨parts⟩ := exists_frameParts hroom
  obtain ⟨hmax, hmagic, hnetwork, hversion, hkind, hflags, hlength, hpayload⟩ :=
    (decodeFrame_eq_ok parts).mp h
  rw [parts.length_eq, hpayload] at hmax
  have hword : leBytes32 (UInt32.ofNat (ofLe parts.length.1)) = parts.length.1 := by
    rw [leBytes32_ofLe]
  refine encodeFrame_eq_ok.mpr ⟨hmax, UInt32.ofNat (ofLe parts.length.1), ?_, ?_⟩
  · have hlt := ofLe_lt parts.length.1
    rw [parts.length.2, show 256 ^ 4 = 2 ^ 32 from by decide, hlength, hpayload] at hlt
    rw [lengthWord, if_pos hlt, okOr_some, hlength, hpayload]
  · rw [hword, ← hversion, leBytes16_ofLe, ← hmagic, ← hnetwork, ← hkind, ← hpayload]
    exact parts.eq.trans (by rw [hflags])

/-- The length in the header leaves no room for a longer frame. -/
theorem decodeFrame_prefix {kind : UInt8} {networkId : Bytes32} {bytes extra : List UInt8}
    {payload payload' : List UInt8} {maximum : Nat} {object : String}
    (h : decodeFrame P bytes networkId kind maximum object = .ok payload)
    (h' : decodeFrame P (bytes ++ extra) networkId kind maximum object = .ok payload') :
    extra = [] := by
  obtain ⟨_, word, hword, hbytes⟩ := encodeFrame_eq_ok.mp (decodeFrame_iff.mp h)
  obtain ⟨_, word', hword', hbytes'⟩ := encodeFrame_eq_ok.mp (decodeFrame_iff.mp h')
  rw [hbytes] at hbytes'
  simp only [List.append_assoc, List.cons_append] at hbytes'
  have hlengths := List.append_cancel_left (List.append_cancel_left (List.append_cancel_left
    hbytes'))
  obtain ⟨_, hlengths⟩ := List.cons.inj hlengths
  obtain ⟨_, hlengths⟩ := List.cons.inj hlengths
  obtain ⟨hsame, hrest⟩ := List.append_inj hlengths (by rw [length_leBytes32, length_leBytes32])
  have hle := congrArg ofLe hsame
  rw [ofLe_leBytes32, ofLe_leBytes32, lengthWord_eq_ok hword, lengthWord_eq_ok hword', ← hrest,
    List.length_append] at hle
  exact List.eq_nil_of_length_eq_zero (by omega)

end

/-! ## Nothing aborts -/

theorem total_count (maximum : Nat) (field : String) : Total (Read.count maximum field) :=
  (total_u32 _).bind fun _ => .check .require fun _ => .pure _

theorem total_sizedBytes (maximum : Nat) (object : String) :
    Total (Read.sizedBytes maximum object) :=
  (total_u32 _).bind fun _ => .check .require fun _ => total_bytes _ _

theorem total_channelTerms (networkId : Bytes32) : Total (decodeChannelTerms networkId) := by
  refine (total_array _ 32).bind fun _ => .check .require fun _ => ?_
  refine (total_array _ 32).bind fun _ => (total_array _ 32).bind fun _ => (total_array _ 32).bind fun _ =>
    (total_array _ 32).bind fun _ => (total_array _ 32).bind fun _ => (total_array _ 32).bind fun _ => ?_
  exact (total_u64 _).bind fun _ => (total_u64 _).bind fun _ => (total_u64 _).bind fun _ =>
    (total_u64 _).bind fun _ => (total_u64 _).bind fun _ => (total_u64 _).bind fun _ =>
    (total_u64 _).bind fun _ => (total_u64 _).bind fun _ => (total_u64 _).bind fun _ => .pure _

theorem total_paymentState : Total decodePaymentState :=
  (total_array _ 32).bind fun _ => (total_u64 _).bind fun _ => (total_u64 _).bind fun _ =>
    (total_u64 _).bind fun _ => (total_u64 _).bind fun _ => (total_u64 _).bind fun _ =>
    (total_u64 _).bind fun _ => (total_array _ 32).bind fun _ => .pure _

theorem total_signature : Total decodeSignature :=
  (total_array _ consensusSignatureBytes).bind fun _ => .pure _

theorem total_witness (networkId : Bytes32) (tag : UInt8) :
    Total (decodeWitness networkId tag) := by
  rw [decodeWitness]
  split
  · exact (total_array _ 32).bind fun _ => total_signature.bind fun _ => .pure _
  split
  · exact (total_channelTerms networkId).bind fun _ => total_paymentState.bind fun _ =>
      total_signature.bind fun _ => total_signature.bind fun _ => .pure _
  split
  · exact (total_channelTerms networkId).bind fun _ => .pure _
  · exact .fail

theorem total_input (networkId : Bytes32) : Total (decodeInput networkId) :=
  (total_array _ 32).bind fun _ => (total_u32 _).bind fun _ => (total_u8 _).bind fun _ =>
    (total_witness networkId _).bind fun _ => .pure _

theorem total_lock (tag : UInt8) : Total (decodeLock tag) := by
  rw [decodeLock]
  split
  · exact (total_array _ 32).bind fun _ => .pure _
  split
  · exact (total_array _ 32).bind fun _ => .pure _
  · exact .fail

theorem total_output : Total decodeOutput :=
  (total_u64 _).bind fun _ => (total_u8 _).bind fun _ => (total_lock _).bind fun _ =>
    (total_u64 _).bind fun _ => .pure _

theorem total_transaction (networkId : Bytes32) : Total (readTransaction networkId) := by
  refine (total_array _ 32).bind fun _ => .check .require fun _ => ?_
  exact (total_u32 _).bind fun _ => (total_count _ _).bind fun _ =>
    ((total_input networkId).many _).bind fun _ => (total_count _ _).bind fun _ =>
    (total_output.many _).bind fun _ => .pure _

theorem total_proof (networkId : Bytes32) : Total (readProof networkId) := by
  refine (total_u8 _).bind fun tag => (total_array _ 32).bind fun _ => .check .require fun _ => ?_
  rw [decodeProofFields]
  split
  · exact (total_u32 _).bind fun _ => (total_u32 _).bind fun _ => (total_u64 _).bind fun _ =>
      (total_array _ 32).bind fun _ => (total_array _ 32).bind fun _ =>
      (total_array _ 32).bind fun _ => .pure _
  split
  · exact (total_u32 _).bind fun _ => (total_u32 _).bind fun _ => (total_u64 _).bind fun _ =>
      (total_array _ 32).bind fun _ => (total_array _ 32).bind fun _ =>
      (total_array _ 32).bind fun _ => (total_array _ 32).bind fun _ => .pure _
  · exact .fail

/-- A reader that never aborts, on a whole payload. -/
theorem noPanic_run {α : Type} {dec : Read α} (h : Total dec) (payload : List UInt8) :
    NoPanic (Read.run dec payload) := by
  refine (h payload).bind fun read _ => ?_
  exact (NoPanic.require.bind fun _ _ => .ok).bind fun _ _ => .ok

theorem noPanic_transactionPayload (payload : List UInt8) (networkId : Bytes32) :
    NoPanic (decodeTransactionPayload payload networkId) :=
  NoPanic.require.bind fun _ _ => noPanic_run (total_transaction networkId) payload

theorem noPanic_proofPayload (payload : List UInt8) (networkId : Bytes32) :
    NoPanic (decodeForgeMatrixProofPayload payload networkId) :=
  NoPanic.require.bind fun _ _ => noPanic_run (total_proof networkId) payload

theorem noPanic_addSignatureChecks (inputs : List TxInput) (total : Nat) :
    NoPanic (inputs.foldlM addSignatureChecks total) := by
  induction inputs generalizing total with
  | nil => exact .ok
  | cons input rest ih =>
      rw [List.foldlM_cons]
      exact (NoPanic.require.bind fun _ _ => .ok).bind fun next _ => ih next

theorem noPanic_addBlockResources (totals : BlockResources) (transaction : Transaction) :
    NoPanic (addBlockResources totals transaction) :=
  NoPanic.require.bind fun _ _ => NoPanic.require.bind fun _ _ =>
    (noPanic_addSignatureChecks transaction.inputs _).bind fun _ _ => .ok

theorem total_blockTransactions (networkId : Bytes32) (n : Nat) (totals : BlockResources) :
    Total (readBlockTransactions networkId n totals) := by
  induction n generalizing totals with
  | zero => exact .pure []
  | succ n ih =>
      refine ((total_sizedBytes _ _).bind fun payload => .lift ?_).bind fun transaction => ?_
      · exact noPanic_transactionPayload payload networkId
      · exact .check (noPanic_addBlockResources totals transaction) fun next =>
          (ih next).bind fun _ => .pure _

theorem total_block (networkId : Bytes32) : Total (readBlock networkId) := by
  have hchallenge : Total (decodeChallenge networkId) :=
    (total_array _ 32).bind fun _ => .check .require fun _ => (total_array _ 32).bind fun _ =>
      (total_array _ 32).bind fun _ => (total_u64 _).bind fun _ => (total_u64 _).bind fun _ =>
      (total_array _ 32).bind fun _ => .pure _
  have hproof : ∀ networkId, Total (readBlockProof networkId) := fun networkId =>
    (total_sizedBytes _ _).bind fun payload => .lift (noPanic_proofPayload payload networkId)
  have hcoinbase : Total decodeCoinbase :=
    (total_u64 _).bind fun _ => (total_count _ _).bind fun _ => (total_output.many _).bind fun _ =>
      .pure _
  exact (total_u32 _).bind fun _ => hchallenge.bind fun challenge => (hproof _).bind fun _ =>
    hcoinbase.bind fun _ => (total_count _ _).bind fun count =>
    (total_blockTransactions networkId count _).bind fun _ => .pure _

section

variable {P : Platform}

theorem noPanic_decodeFrame (bytes : List UInt8) (networkId : Bytes32) (kind : UInt8)
    (maximum : Nat) (object : String) :
    NoPanic (decodeFrame P bytes networkId kind maximum object) := by
  have hheader : wireHeaderBytes = 16 := rfl
  refine NoPanic.require.bind fun _ hroom => NoPanic.require.bind fun _ _ => ?_
  have hroom := require_eq_ok.mp hroom
  refine (noPanic_sliceAt (by omega) (by omega)).bind fun _ _ => NoPanic.require.bind fun _ _ => ?_
  refine (noPanic_sliceAt (by omega) (by omega)).bind fun _ _ => NoPanic.require.bind fun _ _ => ?_
  refine (noPanic_sliceAt (by omega) (by omega)).bind fun _ _ => NoPanic.require.bind fun _ _ => ?_
  refine (noPanic_byteAt (by omega)).bind fun _ _ => NoPanic.require.bind fun _ _ => ?_
  refine (noPanic_byteAt (by omega)).bind fun _ _ => NoPanic.require.bind fun _ _ => ?_
  refine (noPanic_sliceAt (by omega) (by omega)).bind fun _ _ => NoPanic.require.bind fun _ _ => ?_
  exact NoPanic.require.bind fun _ _ => NoPanic.require.bind fun _ _ =>
    noPanic_sliceAt (by omega) le_rfl

/-! ## The three formats -/

/-- The encoder's size check, seen from a payload that decodes. -/
theorem ensurePayloadSize_of_frame {kind : UInt8} {networkId : Bytes32}
    {payload bytes : List UInt8} {maximum : Nat} {object : String}
    (h : encodeFrame P kind networkId payload maximum object = .ok bytes) :
    ensurePayloadSize payload.length maximum object = .ok () :=
  require_pos (Nat.not_lt.mpr (encodeFrame_eq_ok.mp h).1)

theorem decodeTransaction_iff {transaction : Transaction} {bytes : List UInt8}
    {networkId : Bytes32} :
    decodeTransaction P bytes networkId = .ok transaction ↔
      transaction.networkId = networkId ∧ encodeTransaction P transaction = .ok bytes := by
  constructor
  · intro h
    simp only [decodeTransaction, bind_eq_ok] at h
    obtain ⟨payload, hframe, hpayload⟩ := h
    obtain ⟨rfl, _, hencode⟩ := encodeTransactionPayload_decode hpayload
    refine ⟨rfl, ?_⟩
    rw [encodeTransaction, hencode]
    exact decodeFrame_iff.mp hframe
  · rintro ⟨rfl, h⟩
    exact decodeTransaction_encodeTransaction h

theorem decodeForgeMatrixProof_iff {proof : BlockProof} {bytes : List UInt8}
    {networkId : Bytes32} :
    decodeForgeMatrixProof P bytes networkId = .ok proof ↔
      encodeForgeMatrixProof P proof networkId = .ok bytes := by
  simp only [decodeForgeMatrixProof, encodeForgeMatrixProof, bind_eq_ok, decodeFrame_iff]
  constructor
  · rintro ⟨payload, hframe, hpayload⟩
    exact ⟨payload, encodeForgeMatrixProofPayload_decode hpayload, hframe⟩
  · rintro ⟨payload, hpayload, hframe⟩
    exact ⟨payload, hframe,
      decodeForgeMatrixProofPayload_encode hpayload (ensurePayloadSize_of_frame hframe)⟩

theorem decodeBlock_iff {block : Block} {bytes : List UInt8} {networkId : Bytes32} :
    decodeBlock P bytes networkId = .ok block ↔
      block.challenge.networkId = networkId ∧ encodeBlock P block = .ok bytes := by
  constructor
  · intro h
    simp only [decodeBlock, bind_eq_ok] at h
    obtain ⟨payload, hframe, hrun⟩ := h
    have hframe' := decodeFrame_iff.mp hframe
    obtain ⟨⟨rfl, hshape⟩, hpayload⟩ := payload_of_run "block"
      (unreads_block networkId) hrun (le_payloadLimit (ensurePayloadSize_of_frame hframe'))
    refine ⟨rfl, ?_⟩
    rw [encodeBlock, hshape, ok_bind, hpayload]
    exact hframe'
  · rintro ⟨rfl, h⟩
    exact decodeBlock_encodeBlock h

/-- A format whose payloads are framed is canonical, if its decoder accepts
exactly what its encoder writes and never aborts. -/
theorem canonical_of_frame {α : Type} {encode : α → Outcome WireError (List UInt8)}
    {Encodes : α → List UInt8 → Prop} {decode : List UInt8 → Outcome WireError α} {kind : UInt8}
    {networkId : Bytes32} {maximum : Nat} {object : String}
    {decodePayload : List UInt8 → Outcome WireError α}
    (hdecode : ∀ bytes, decode bytes =
      decodeFrame P bytes networkId kind maximum object >>= decodePayload)
    (hiff : ∀ a bytes, decode bytes = .ok a ↔ Encodes a bytes)
    (hencode : ∀ a bytes, Encodes a bytes → encode a = .ok bytes)
    (hpayload : ∀ payload, NoPanic (decodePayload payload)) : Canonical Encodes decode := by
  refine .of_no_extension hiff ?_ ?_ ?_
  · intro a bytes bytes' h h'
    exact Except.ok.inj ((hencode a bytes h).symm.trans (hencode a bytes' h'))
  · intro bytes
    rw [hdecode]
    exact (noPanic_decodeFrame bytes networkId kind maximum object).bind fun payload _ =>
      hpayload payload
  · intro a a' bytes extra h h'
    rw [hdecode, bind_eq_ok] at h h'
    obtain ⟨payload, hframe, _⟩ := h
    obtain ⟨payload', hframe', _⟩ := h'
    exact decodeFrame_prefix hframe hframe'

theorem canonical_transaction (networkId : Bytes32) :
    Canonical (fun transaction bytes =>
        transaction.networkId = networkId ∧ encodeTransaction P transaction = .ok bytes)
      (fun bytes => decodeTransaction P bytes networkId) :=
  canonical_of_frame (fun _ => rfl) (fun _ _ => decodeTransaction_iff) (fun _ _ h => h.2)
    fun payload => noPanic_transactionPayload payload networkId

theorem canonical_proof (networkId : Bytes32) :
    Canonical (fun proof bytes => encodeForgeMatrixProof P proof networkId = .ok bytes)
      (fun bytes => decodeForgeMatrixProof P bytes networkId) :=
  canonical_of_frame (fun _ => rfl) (fun _ _ => decodeForgeMatrixProof_iff) (fun _ _ h => h)
    fun payload => noPanic_proofPayload payload networkId

theorem canonical_block (networkId : Bytes32) :
    Canonical (fun block bytes =>
        block.challenge.networkId = networkId ∧ encodeBlock P block = .ok bytes)
      (fun bytes => decodeBlock P bytes networkId) :=
  canonical_of_frame (fun _ => rfl) (fun _ _ => decodeBlock_iff) (fun _ _ h => h.2)
    fun payload => noPanic_run (total_block networkId) payload

end

/-- Transactions, proofs and blocks have canonical encodings: under a network
identifier, the decoder accepts exactly the frames the encoder makes of values of
that network, nothing that extends or shortens one, and it never aborts. -/
theorem canonical_wire (P : Platform) (networkId : Bytes32) :
    Canonical (fun transaction bytes =>
        transaction.networkId = networkId ∧ encodeTransaction P transaction = .ok bytes)
      (fun bytes => decodeTransaction P bytes networkId) ∧
    Canonical (fun proof bytes => encodeForgeMatrixProof P proof networkId = .ok bytes)
      (fun bytes => decodeForgeMatrixProof P bytes networkId) ∧
    Canonical (fun block bytes =>
        block.challenge.networkId = networkId ∧ encodeBlock P block = .ok bytes)
      (fun bytes => decodeBlock P bytes networkId) :=
  ⟨canonical_transaction networkId, canonical_proof networkId, canonical_block networkId⟩

end CommonFoundry
