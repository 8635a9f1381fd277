/-
# `CommonFoundry.Consensus.Preimage` — what the hashed bytes show

The identifiers of `chain.rs` are hashes of byte strings without any framing beyond
tags, counts and fixed widths.  Here the strings are read back: those of a
transaction within the limits show all of it, those of a coinbase its height and
its outputs, and those of a block everything but the transactions, for which they
hold the root of their tree.

The first part of a transaction is hashed with unsigned witnesses, and is all that is
signed.  It shows the transaction but for its signatures; these are shown by the signed
witnesses that follow it in the string of the identifier.

A vector is hashed after its length as a 64-bit word.  The length of every vector of a
running program is such a word (`Representable`), whatever the limits of the network.
-/
import CommonFoundry.Consensus.Preflight
import CommonFoundry.Lib.Reveals

namespace CommonFoundry

open Lib Lib.Outcome Lib.Codec

variable {P : Platform}

/-! ## The hashed strings -/

/-- What `Transaction::txid` hashes. -/
def Transaction.idBytes (P : Platform) (transaction : Transaction) : List UInt8 :=
  encodeUnsignedTransaction P transaction ++
    transaction.inputs.flatMap fun input => encodeWitness P true input.witness

/-- What `Transaction::signing_digest` hashes. -/
def Transaction.signingBytes (P : Platform) (transaction : Transaction) : List UInt8 :=
  encodeUnsignedTransaction P transaction

/-- What `Coinbase::commitment` hashes. -/
def Coinbase.commitmentBytes (coinbase : Coinbase) (networkId : Bytes32) : List UInt8 :=
  networkId.1 ++ leBytes64 coinbase.height ++ encodeOutputs coinbase.outputs

/-- What `Block::block_id` hashes. -/
def Block.idBytes (block : Block) : List UInt8 :=
  leBytes32 block.version ++ block.challenge.networkId.1 ++ block.challenge.previousBlock.1 ++
    block.challenge.transactionRoot.1 ++ leBytes64 block.challenge.height ++
    leBytes64 block.challenge.timestamp ++ block.challenge.target.1 ++ block.proof.absorb

/-- What `Block::coinbase_outpoint_id` hashes. -/
def Block.outpointBytes (P : Platform) (block : Block) : List UInt8 :=
  block.challenge.networkId.1 ++ (block.blockId P).1

theorem txid_eq (transaction : Transaction) :
    transaction.txid P = P.deriveKey txIdDomain (transaction.idBytes P) := rfl

theorem signingDigest_eq (transaction : Transaction) :
    transaction.signingDigest P = P.deriveKey txSigningDomain (transaction.signingBytes P) := rfl

theorem commitment_eq (coinbase : Coinbase) (networkId : Bytes32) :
    coinbase.commitment P networkId =
      P.deriveKey coinbaseIdDomain (coinbase.commitmentBytes networkId) := rfl

theorem blockId_eq (block : Block) :
    block.blockId P = P.deriveKey blockIdDomain block.idBytes := rfl

theorem coinbaseOutpointId_eq (block : Block) :
    block.coinbaseOutpointId P =
      P.deriveKey coinbaseOutpointDomain (block.outpointBytes P) := rfl

/-! ## Terms and states -/

theorem reveals_terms : Reveals anyValue encodeTerms id := by
  intro a b x y _ _ h
  cases a
  cases b
  simp only [encodeTerms, List.append_assoc] at h
  obtain ⟨hnetwork, h⟩ := array_append_inj h
  obtain ⟨hjob, h⟩ := array_append_inj h
  obtain ⟨hcustomer, h⟩ := array_append_inj h
  obtain ⟨hprovider, h⟩ := array_append_inj h
  obtain ⟨hmodel, h⟩ := array_append_inj h
  obtain ⟨hruntime, h⟩ := array_append_inj h
  obtain ⟨hinput, h⟩ := array_append_inj h
  obtain ⟨hwords, h⟩ := words_append_inj (by rfl) h
  simp only [List.cons.injEq, and_true] at hwords
  simp only [id, ChannelTerms.mk.injEq]
  exact ⟨⟨hnetwork, hjob, hcustomer, hprovider, hmodel, hruntime, hinput, hwords⟩, h⟩

theorem reveals_state : Reveals anyValue encodeState id := by
  intro a b x y _ _ h
  cases a
  cases b
  simp only [encodeState, List.append_assoc] at h
  obtain ⟨hchannel, h⟩ := array_append_inj h
  obtain ⟨hwords, h⟩ := words_append_inj (by rfl) h
  obtain ⟨hreceipt, h⟩ := array_append_inj h
  simp only [List.cons.injEq, and_true] at hwords
  obtain ⟨hsequence, hin, hout, hpayment, hrefund, hfee⟩ := hwords
  simp only [id, PaymentState.mk.injEq]
  exact ⟨⟨hchannel, hsequence, hin, hout, hpayment, hrefund, hfee, hreceipt⟩, h⟩

/-! ## Outputs -/

theorem reveals_lock : Reveals anyValue encodeLock id := by
  intro a b x y _ _ h
  cases a with
  | key owner =>
      cases b with
      | key owner' =>
          obtain ⟨rfl, hrest⟩ := array_append_inj (List.cons.inj h).2
          exact ⟨rfl, hrest⟩
      | inferenceChannel => exact absurd (List.cons.inj h).1 (by decide)
  | inferenceChannel channelId =>
      cases b with
      | key => exact absurd (List.cons.inj h).1 (by decide)
      | inferenceChannel channelId' =>
          obtain ⟨rfl, hrest⟩ := array_append_inj (List.cons.inj h).2
          exact ⟨rfl, hrest⟩

theorem reveals_outputs :
    Reveals (fun outputs : List TxOutput => outputs.length < 2 ^ 64) encodeOutputs id := by
  have houtput : Reveals (α := TxOutput) anyValue (fun output =>
      leBytes64 output.value ++ encodeLock output.lock ++ leBytes64 output.spendableHeight) id := by
    intro a b x y _ _ h
    cases a
    cases b
    simp only [List.append_assoc] at h
    obtain ⟨hvalue, h⟩ := leBytes64_append_inj h
    obtain ⟨hlock, h⟩ := reveals_lock trivial trivial h
    obtain ⟨hheight, h⟩ := leBytes64_append_inj h
    simp only [id, TxOutput.mk.injEq]
    exact ⟨⟨hvalue, hlock, hheight⟩, h⟩
  intro a b x y ha hb h
  obtain ⟨hmap, h⟩ := houtput.counted ⟨ha, fun _ _ => trivial⟩ ⟨hb, fun _ _ => trivial⟩ h
  rw [List.map_id, List.map_id] at hmap
  exact ⟨hmap, h⟩

/-! ## Witnesses -/

/-- The witness with its signatures taken out. -/
def InputWitness.unsigned : InputWitness → InputWitness
  | .key publicKey _ => .key publicKey []
  | .inferenceSettlement terms settlement =>
      .inferenceSettlement terms { state := ⟨settlement.state.state, []⟩, providerSignature := [] }
  | .inferenceRefund terms => .inferenceRefund terms

/-- The lengths of the signatures are 64-bit words. -/
def InputWitness.Representable : InputWitness → Prop
  | .key _ signature => signature.length < 2 ^ 64
  | .inferenceSettlement _ settlement =>
      settlement.state.customerSignature.length < 2 ^ 64 ∧
        settlement.providerSignature.length < 2 ^ 64
  | .inferenceRefund _ => True

instance : DecidablePred InputWitness.Representable
  | .key _ signature => inferInstanceAs (Decidable (signature.length < 2 ^ 64))
  | .inferenceSettlement _ settlement => inferInstanceAs (Decidable
      (settlement.state.customerSignature.length < 2 ^ 64 ∧
        settlement.providerSignature.length < 2 ^ 64))
  | .inferenceRefund _ => inferInstanceAs (Decidable True)

/-- Without its signatures, a witness shows everything else. -/
theorem reveals_unsignedWitness :
    Reveals anyValue (encodeWitness P false) InputWitness.unsigned := by
  intro a b x y _ _ h
  cases a <;> cases b <;>
    simp only [encodeWitness, Bool.false_eq_true, if_false, List.append_nil, List.cons_append,
      List.append_assoc, List.cons.injEq] at h
  · obtain ⟨hkey, h⟩ := array_append_inj h.2
    rw [InputWitness.unsigned, InputWitness.unsigned, hkey]
    exact ⟨rfl, h⟩
  · exact absurd h.1 (by decide)
  · exact absurd h.1 (by decide)
  · exact absurd h.1 (by decide)
  · obtain ⟨hterms, h⟩ := reveals_terms trivial trivial h.2
    obtain ⟨hstate, h⟩ := reveals_state trivial trivial h
    simp only [id] at hterms hstate
    rw [InputWitness.unsigned, InputWitness.unsigned, hterms, hstate]
    exact ⟨rfl, h⟩
  · exact absurd h.1 (by decide)
  · exact absurd h.1 (by decide)
  · exact absurd h.1 (by decide)
  · obtain ⟨hterms, h⟩ := reveals_terms trivial trivial h.2
    simp only [id] at hterms
    rw [InputWitness.unsigned, InputWitness.unsigned, hterms]
    exact ⟨rfl, h⟩

theorem encodeBytes_append_inj {a b x y : List UInt8} (ha : a.length < 2 ^ 64)
    (hb : b.length < 2 ^ 64) (h : encodeBytes a ++ x = encodeBytes b ++ y) : a = b ∧ x = y := by
  simp only [encodeBytes, lengthBytes, List.append_assoc] at h
  exact lengthPrefixed_append_inj ha hb h

/-- With its signatures, it shows everything. -/
theorem reveals_witness : Reveals InputWitness.Representable (encodeWitness P true) id := by
  intro a b x y ha hb h
  cases a <;> cases b <;>
    simp only [encodeWitness, if_true, List.cons_append, List.append_assoc, List.cons.injEq] at h
  · obtain ⟨hkey, h⟩ := array_append_inj h.2
    obtain ⟨hsignature, h⟩ := encodeBytes_append_inj ha hb h
    simp only [id, InputWitness.key.injEq]
    exact ⟨⟨hkey, hsignature⟩, h⟩
  · exact absurd h.1 (by decide)
  · exact absurd h.1 (by decide)
  · exact absurd h.1 (by decide)
  · next terms settlement terms' settlement' =>
      obtain ⟨⟨state, customer⟩, provider⟩ := settlement
      obtain ⟨⟨state', customer'⟩, provider'⟩ := settlement'
      obtain ⟨hterms, h⟩ := reveals_terms trivial trivial h.2
      obtain ⟨hstate, h⟩ := reveals_state trivial trivial h
      obtain ⟨hcustomer, h⟩ := encodeBytes_append_inj ha.1 hb.1 h
      obtain ⟨hprovider, h⟩ := encodeBytes_append_inj ha.2 hb.2 h
      obtain ⟨_, h⟩ := array_append_inj h
      simp only [id, InputWitness.inferenceSettlement.injEq, Settlement.mk.injEq,
        SignedPaymentState.mk.injEq]
      exact ⟨⟨hterms, ⟨hstate, hcustomer⟩, hprovider⟩, h⟩
  · exact absurd h.1 (by decide)
  · exact absurd h.1 (by decide)
  · exact absurd h.1 (by decide)
  · obtain ⟨hterms, h⟩ := reveals_terms trivial trivial h.2
    simp only [id, InputWitness.inferenceRefund.injEq]
    exact ⟨hterms, h⟩

/-! ## Transactions -/

/-- The transaction with all its signatures taken out. -/
def Transaction.unsigned (transaction : Transaction) : Transaction :=
  { transaction with
    inputs := transaction.inputs.map fun input => { input with witness := input.witness.unsigned } }

/-- The lengths of all vectors are 64-bit words. -/
structure Transaction.Representable (transaction : Transaction) : Prop where
  inputs : transaction.inputs.length < 2 ^ 64
  outputs : transaction.outputs.length < 2 ^ 64
  witnesses : ∀ input ∈ transaction.inputs, input.witness.Representable

theorem representable_of_signatureLengths {witness : InputWitness}
    (h : checkSignatureLengths witness = .ok ()) : witness.Representable := by
  have hsmall : consensusSignatureBytes < 2 ^ 64 := by decide
  cases witness with
  | key publicKey signature =>
      rw [checkSignatureLengths, require_eq_ok] at h
      exact h.trans_lt hsmall
  | inferenceSettlement terms settlement =>
      rw [checkSignatureLengths, require_eq_ok, not_or, not_not, not_not] at h
      exact ⟨h.1.trans_lt hsmall, h.2.trans_lt hsmall⟩
  | inferenceRefund terms => exact trivial

/-- A transaction within the limits of the network. -/
theorem Transaction.Sized.representable {transaction : Transaction} (h : transaction.Sized) :
    transaction.Representable := by
  have hinputs : maxTransactionInputs < 2 ^ 64 := by decide
  have houtputs : maxTransactionOutputs < 2 ^ 64 := by decide
  exact ⟨h.inputs.trans_lt hinputs, h.outputs.trans_lt houtputs,
    fun input hmem => representable_of_signatureLengths (h.signatures input hmem)⟩

/-- What is signed shows everything but the signatures. -/
theorem reveals_unsignedTransaction :
    Reveals Transaction.Representable (encodeUnsignedTransaction P) Transaction.unsigned := by
  have hinput : Reveals (α := TxInput) anyValue (fun input => input.previous.txid.1 ++
      (leBytes32 input.previous.index ++ encodeWitness P false input.witness))
      fun input => { input with witness := input.witness.unsigned } := by
    intro a b x y _ _ h
    obtain ⟨⟨txid, index⟩, witness⟩ := a
    obtain ⟨⟨txid', index'⟩, witness'⟩ := b
    simp only [List.append_assoc] at h
    obtain ⟨htxid, h⟩ := array_append_inj h
    obtain ⟨hindex, h⟩ := leBytes32_append_inj h
    obtain ⟨hwitness, h⟩ := reveals_unsignedWitness trivial trivial h
    simp only [TxInput.mk.injEq, OutPoint.mk.injEq]
    exact ⟨⟨⟨htxid, hindex⟩, hwitness⟩, h⟩
  intro a b x y ha hb h
  simp only [encodeUnsignedTransaction, List.append_assoc] at h
  obtain ⟨hnetwork, h⟩ := array_append_inj h
  obtain ⟨hversion, h⟩ := leBytes32_append_inj h
  rw [← List.append_assoc, ← List.append_assoc (leBytes64 (UInt64.ofNat b.inputs.length))] at h
  obtain ⟨hinputs, h⟩ := hinput.counted ⟨ha.inputs, fun _ _ => trivial⟩
    ⟨hb.inputs, fun _ _ => trivial⟩ h
  obtain ⟨houtputs, h⟩ := reveals_outputs ha.outputs hb.outputs h
  simp only [Transaction.unsigned, Transaction.mk.injEq]
  exact ⟨⟨hnetwork, hversion, hinputs, houtputs⟩, h⟩

/-- The bytes of an identifier show the whole transaction. -/
theorem Transaction.Representable.idBytes_inj {a b : Transaction} (ha : a.Representable)
    (hb : b.Representable) (h : a.idBytes P = b.idBytes P) : a = b := by
  obtain ⟨hunsigned, h⟩ := reveals_unsignedTransaction ha hb h
  simp only [Transaction.unsigned, Transaction.mk.injEq] at hunsigned
  obtain ⟨hnetwork, hversion, hunsigned, houtputs⟩ := hunsigned
  have hwitness : Reveals (α := TxInput) (fun input => input.witness.Representable)
      (fun input => encodeWitness P true input.witness) fun input => input.witness :=
    fun _ _ _ _ ha hb h => reveals_witness ha hb h
  have hlength := congrArg List.length hunsigned
  rw [List.length_map, List.length_map] at hlength
  obtain ⟨hwitnesses, _⟩ := hwitness.list (x := []) (y := []) hlength ha.witnesses hb.witnesses
    (by rw [h])
  have hinputs : a.inputs = b.inputs := by
    refine List.ext_getElem hlength fun i hi hi' => ?_
    have hprevious := List.getElem_of_eq hunsigned (i := i) (by simpa)
    have hwitness := List.getElem_of_eq hwitnesses (i := i) (by simpa)
    simp only [List.getElem_map, TxInput.mk.injEq] at hprevious hwitness
    exact TxInput.mk.injEq .. ▸ ⟨hprevious.1, hwitness⟩
  cases a
  cases b
  simp only [Transaction.mk.injEq]
  exact ⟨hnetwork, hversion, hinputs, houtputs⟩

theorem Transaction.idBytes_inj {a b : Transaction} (ha : a.Sized) (hb : b.Sized)
    (h : a.idBytes P = b.idBytes P) : a = b :=
  ha.representable.idBytes_inj hb.representable h

/-- What is hashed for the identifier of a transaction shows it all; what is hashed to be
signed shows all but the signatures. -/
theorem transaction_bytes_inj (P : Platform) (a b : Transaction) (ha : a.Representable)
    (hb : b.Representable) :
    (a.idBytes P = b.idBytes P → a = b) ∧
      (a.signingBytes P = b.signingBytes P → a.unsigned = b.unsigned) :=
  ⟨ha.idBytes_inj hb, reveals_unsignedTransaction.inj ha hb⟩

/-- The sample funding and the same without its signatures: their identifiers are hashes
of different strings, and what is signed differs in the signatures at most. -/
theorem transaction_bytes_inj_sample :
    sampleFunding.idBytes samplePlatform ≠ sampleFunding.unsigned.idBytes samplePlatform ∧
      sampleFunding.unsigned = sampleFunding.unsigned.unsigned := by
  have hinj := transaction_bytes_inj samplePlatform sampleFunding sampleFunding.unsigned
    ⟨by decide, by decide, by decide⟩ ⟨by decide, by decide, by decide⟩
  refine ⟨fun hsame => ?_, hinj.2 rfl⟩
  exact absurd (hinj.1 hsame) (by decide +kernel)

/-! ## Coinbases and blocks -/

/-- The bytes of a commitment show the coinbase. -/
theorem Coinbase.commitmentBytes_inj {a b : Coinbase} {networkId networkId' : Bytes32}
    (ha : a.outputs.length < 2 ^ 64) (hb : b.outputs.length < 2 ^ 64)
    (h : a.commitmentBytes networkId = b.commitmentBytes networkId') : a = b := by
  simp only [commitmentBytes, List.append_assoc] at h
  obtain ⟨_, h⟩ := array_append_inj h
  obtain ⟨hheight, h⟩ := leBytes64_append_inj h
  have houtputs := reveals_outputs.inj ha hb h
  cases a
  cases b
  simp only [Coinbase.mk.injEq]
  exact ⟨hheight, houtputs⟩

theorem absorb_inj {a b : BlockProof} (h : a.absorb = b.absorb) : a = b := by
  cases a with
  | v1Legacy a =>
      cases b with
      | v1Legacy b =>
          cases a
          cases b
          simp only [BlockProof.absorb, List.append_assoc] at h
          obtain ⟨_, h⟩ := leBytes16_append_inj h
          obtain ⟨halgorithm, h⟩ := leBytes32_append_inj h
          obtain ⟨hmodel, h⟩ := leBytes32_append_inj h
          obtain ⟨hnonce, h⟩ := leBytes64_append_inj h
          obtain ⟨hroot, h⟩ := array_append_inj h
          obtain ⟨houtput, hwork⟩ := array_append_inj h
          simp only [BlockProof.v1Legacy.injEq, ForgeMatrixProof.mk.injEq]
          exact ⟨halgorithm, hmodel, hnonce, hroot, houtput, Subtype.ext hwork⟩
      | v2Reference b => exact absurd (leBytes16_append_inj h).1 (by decide : (1 : UInt16) ≠ 2)
  | v2Reference a =>
      cases b with
      | v1Legacy b => exact absurd (leBytes16_append_inj h).1 (by decide : (2 : UInt16) ≠ 1)
      | v2Reference b =>
          cases a
          cases b
          simp only [BlockProof.absorb, List.append_assoc] at h
          obtain ⟨_, h⟩ := leBytes16_append_inj h
          obtain ⟨halgorithm, h⟩ := leBytes32_append_inj h
          obtain ⟨hproof, h⟩ := leBytes32_append_inj h
          obtain ⟨hnonce, h⟩ := leBytes64_append_inj h
          obtain ⟨hmanifest, h⟩ := array_append_inj h
          obtain ⟨hchallenge, h⟩ := array_append_inj h
          obtain ⟨hactivation, hwork⟩ := array_append_inj h
          simp only [BlockProof.v2Reference.injEq, ForgeMatrixV2CompactProof.mk.injEq]
          exact ⟨halgorithm, hproof, hnonce, hmanifest, hchallenge, hactivation,
            Subtype.ext hwork⟩

/-- The bytes of a block identifier show the header and the proof. -/
theorem Block.idBytes_inj {a b : Block} (h : a.idBytes = b.idBytes) :
    a.version = b.version ∧ a.challenge = b.challenge ∧ a.proof = b.proof := by
  simp only [idBytes, List.append_assoc] at h
  obtain ⟨hversion, h⟩ := leBytes32_append_inj h
  obtain ⟨hnetwork, h⟩ := array_append_inj h
  obtain ⟨hprevious, h⟩ := array_append_inj h
  obtain ⟨hroot, h⟩ := array_append_inj h
  obtain ⟨hheight, h⟩ := leBytes64_append_inj h
  obtain ⟨htimestamp, h⟩ := leBytes64_append_inj h
  obtain ⟨htarget, h⟩ := array_append_inj h
  refine ⟨hversion, ?_, absorb_inj h⟩
  rcases ha : a.challenge
  rcases hb : b.challenge
  rw [ha, hb] at hnetwork hprevious hroot hheight htimestamp htarget
  simp only [BlockChallenge.mk.injEq]
  exact ⟨hnetwork, hprevious, hroot, hheight, htimestamp, htarget⟩

end CommonFoundry
