/-
# `CommonFoundry.Consensus.BlockSize` — the size of a block, and when it is encoded

The frame of a block is as long as its parts (`Block.frameSize`), and nothing but
its shape, its transactions and that length decides whether there is one
(`encodeBlock_ok`, `encodeBlock_length`).

`Appends` of the previous module says what is written where there is room.
`Takes` is the converse: whatever has been written, took this many bytes.
-/
import CommonFoundry.Consensus.WireSize

namespace CommonFoundry

open Lib Lib.Outcome Lib.Codec

/-- The size of a transaction's payload, if it has an encoding. -/
def Transaction.payloadSize (transaction : Transaction) : Nat :=
  match encodeTransactionPayload transaction with
  | .ok payload => payload.length
  | .error _ => 0

/-- The size of a block's payload: version, challenge, proof, coinbase and the
transactions, each after its length. -/
def Block.payloadSize (block : Block) : Nat :=
  4 + (144 + (4 + block.proof.payloadSize + (12 + block.coinbase.outputs.length * 49 +
    (4 + (block.transactions.map fun transaction => 4 + transaction.payloadSize).sum))))

def Block.frameSize (block : Block) : Nat := wireHeaderBytes + block.payloadSize

theorem payloadSize_eq {transaction : Transaction} {payload : List UInt8}
    (h : encodeTransactionPayload transaction = .ok payload) :
    transaction.payloadSize = payload.length := by
  rw [Transaction.payloadSize, h]

/-! ## Single transactions -/

section

variable {P : Platform}

/-- The frame of a transaction is its payload behind a header. -/
theorem encodeTransaction_eq_ok {transaction : Transaction} {bytes : List UInt8}
    (h : encodeTransaction P transaction = .ok bytes) :
    validateTransactionShape transaction transaction.networkId = .ok () ∧
      (∃ payload, encodeTransactionPayload transaction = .ok payload ∧
        wireHeaderBytes + payload.length ≤ maxTransactionBytes) ∧
      bytes.length = wireHeaderBytes + transaction.payloadSize := by
  simp only [encodeTransaction, encodeFrame, ensurePayloadSize, bind_eq_ok, require_eq_ok,
    pure_eq_ok] at h
  obtain ⟨payload, hpayload, _, hsize, word, _, rfl⟩ := h
  refine ⟨?_, ⟨payload, hpayload, Nat.not_lt.mp hsize⟩, ?_⟩
  · simp only [encodeTransactionPayload, bind_eq_ok] at hpayload
    obtain ⟨_, hshape, _⟩ := hpayload
    exact hshape
  · have hheader : wireHeaderBytes = 16 := rfl
    rw [payloadSize_eq hpayload]
    simp only [List.length_append, frameMagic, length_networkMagic, length_leBytes16,
      length_leBytes32, List.length_cons, List.length_nil]
    omega

theorem encodeTransaction_ok {transaction : Transaction} {payload : List UInt8}
    (hpayload : encodeTransactionPayload transaction = .ok payload)
    (hsize : wireHeaderBytes + payload.length ≤ maxTransactionBytes) :
    ∃ bytes, encodeTransaction P transaction = .ok bytes := by
  have hmax : maxTransactionBytes = 65536 := rfl
  have hword : lengthWord payload.length = .ok (UInt32.ofNat payload.length) := by
    rw [lengthWord, if_pos (by omega), okOr_some]
  simp only [encodeTransaction, hpayload, encodeFrame, ensurePayloadSize,
    require_pos (Nat.not_lt.mpr hsize), hword, ok_bind]
  exact ⟨_, rfl⟩

/-! ## What is written where there is room -/

/-- The size of a witness, its tag included. -/
def InputWitness.wireSize : InputWitness → Nat
  | .key .. => 97
  | .inferenceSettlement .. => 537
  | .inferenceRefund .. => 297

namespace Appends

/-- Values of different sizes, one after the other. -/
theorem each {α : Type} {enc : α → Write} {size : α → Nat} {values : List α}
    (h : ∀ a ∈ values, Appends (enc a) (size a)) :
    Appends (writeMany enc values) (values.map size).sum := by
  induction values with
  | nil => exact done
  | cons a rest ih =>
      rw [List.map_cons, List.sum_cons]
      exact (h a List.mem_cons_self).seq (ih fun b hmem => h b (List.mem_cons_of_mem _ hmem))

theorem channelTerms (terms : ChannelTerms) : Appends (writeChannelTerms terms) 296 :=
  (array _).seq ((array _).seq ((array _).seq ((array _).seq ((array _).seq ((array _).seq
    ((array _).seq ((u64 _).seq ((u64 _).seq ((u64 _).seq ((u64 _).seq ((u64 _).seq ((u64 _).seq
      ((u64 _).seq ((u64 _).seq (u64 _)))))))))))))))

theorem paymentState (state : PaymentState) : Appends (writePaymentState state) 112 :=
  (array _).seq ((u64 _).seq ((u64 _).seq ((u64 _).seq ((u64 _).seq ((u64 _).seq ((u64 _).seq
    (array _)))))))

theorem signature {signature : List UInt8} (h : checkSignature signature = .ok ()) :
    Appends (encodeSignature signature) 64 := by
  have hlength : signature.length = 64 := require_eq_ok.mp h
  rw [← hlength]
  exact after h (put signature)

theorem input {networkId : Bytes32} {input : TxInput}
    (h : checkInputShape networkId input = .ok ()) :
    Appends (encodeInput input) (36 + input.witness.wireSize) := by
  obtain ⟨previous, witness⟩ := input
  cases witness with
  | key publicKey bytes =>
      exact (array _).seq ((u32 _).seq ((u8 0).seq ((array _).seq (signature h))))
  | inferenceSettlement terms settlement =>
      simp only [checkInputShape, bind_eq_ok] at h
      obtain ⟨_, _, _, hcustomer, hprovider⟩ := h
      exact (array _).seq ((u32 _).seq ((u8 1).seq ((channelTerms _).seq
        ((paymentState _).seq ((signature hcustomer).seq (signature hprovider))))))
  | inferenceRefund terms =>
      exact (array _).seq ((u32 _).seq ((u8 2).seq (channelTerms _)))

theorem transaction {transaction : Transaction}
    (h : validateTransactionShape transaction transaction.networkId = .ok ()) :
    Appends (writeTransaction transaction)
      (32 + (4 + (4 + ((transaction.inputs.map fun input => 36 + input.witness.wireSize).sum +
        (4 + transaction.outputs.length * 49))))) := by
  simp only [validateTransactionShape, checkCount, bind_eq_ok, require_eq_ok, Nat.not_lt] at h
  obtain ⟨_, _, _, hinputs, _, houtputs, hshapes⟩ := h
  have hmax : maxTransactionInputs < 2 ^ 32 ∧ maxTransactionOutputs < 2 ^ 32 := by decide
  have heach : Appends (writeMany encodeInput transaction.inputs)
      (transaction.inputs.map fun input => 36 + input.witness.wireSize).sum :=
    each fun one hmem => input (forM_eq_ok_iff.mp hshapes one hmem)
  exact (array _).seq ((u32 _).seq ((count _ hinputs (by omega)).seq (heach.seq
    ((count _ houtputs (by omega)).seq (many output _)))))

theorem blockTransaction {transaction : Transaction} {bytes : List UInt8}
    (h : encodeTransaction P transaction = .ok bytes) :
    Appends (writeBlockTransaction transaction) (4 + transaction.payloadSize) := by
  obtain ⟨-, ⟨payload, hpayload, hsize⟩, -⟩ := encodeTransaction_eq_ok h
  have hmax : maxTransactionBytes = 65536 := rfl
  rw [payloadSize_eq hpayload]
  exact after hpayload (sizedBytes "transaction" hsize (by omega))

theorem block {block : Block} (hshape : validateBlockShape block = .ok ())
    (htransactions : ∀ transaction ∈ block.transactions,
      ∃ bytes, encodeTransaction P transaction = .ok bytes) :
    Appends (writeBlock block) block.payloadSize := by
  simp only [validateBlockShape, checkCount, bind_eq_ok, require_eq_ok, Nat.not_lt] at hshape
  obtain ⟨_, houtputs, _, hcount, _⟩ := hshape
  have hmax : maxBlockTransactions < 2 ^ 32 := by decide
  have heach : Appends (writeMany writeBlockTransaction block.transactions)
      (block.transactions.map fun transaction => 4 + transaction.payloadSize).sum := by
    refine each fun transaction hmem => ?_
    obtain ⟨bytes, hbytes⟩ := htransactions transaction hmem
    exact blockTransaction hbytes
  exact (u32 _).seq ((challenge _).seq ((blockProof _ _).seq ((coinbase houtputs).seq
    ((count _ hcount (by omega)).seq heach))))

end Appends

/-- A transaction of the right shape that is small enough is encoded. -/
theorem encodeTransaction_of_shape {transaction : Transaction}
    (hshape : validateTransactionShape transaction transaction.networkId = .ok ())
    (hsize : 60 + ((transaction.inputs.map fun input => 36 + input.witness.wireSize).sum +
      transaction.outputs.length * 49) ≤ maxTransactionBytes) :
    ∃ bytes, encodeTransaction P transaction = .ok bytes := by
  have hheader : wireHeaderBytes = 16 := rfl
  have hmax : maxTransactionBytes = 65536 := rfl
  have hlimit : payloadLimit maxTransactionBytes = 65520 := rfl
  have hroom : 32 + (4 + (4 + ((transaction.inputs.map fun input => 36 +
      input.witness.wireSize).sum + (4 + transaction.outputs.length * 49)))) ≤
        payloadLimit maxTransactionBytes := by omega
  obtain ⟨payload, hlen, hpayload⟩ :=
    (Appends.transaction hshape).payload "transaction" hroom
  have hencode : encodeTransactionPayload transaction = .ok payload := by
    rw [encodeTransactionPayload, hshape, ok_bind, hpayload]
  exact encodeTransaction_ok hencode (by omega)

/-- A block of the right shape whose frame is within the limit is encoded. -/
theorem encodeBlock_ok {block : Block} (hshape : validateBlockShape block = .ok ())
    (htransactions : ∀ transaction ∈ block.transactions,
      ∃ bytes, encodeTransaction P transaction = .ok bytes)
    (hframe : block.frameSize ≤ maxBlockBytes) : ∃ bytes, encodeBlock P block = .ok bytes := by
  have hheader : wireHeaderBytes = 16 := rfl
  have hmax : maxBlockBytes = 1048576 := rfl
  have hlimit : payloadLimit maxBlockBytes = 1048560 := rfl
  have hsize : block.frameSize = wireHeaderBytes + block.payloadSize := rfl
  have hroom : block.payloadSize ≤ payloadLimit maxBlockBytes := by omega
  obtain ⟨payload, hlen, hpayload⟩ :=
    (Appends.block hshape htransactions).payload "block" hroom
  have hword : lengthWord payload.length = .ok (UInt32.ofNat payload.length) := by
    rw [lengthWord, if_pos (by omega), okOr_some]
  have hfits : ¬wireHeaderBytes + payload.length > maxBlockBytes := by omega
  simp only [encodeBlock, hshape, hpayload, encodeFrame, ensurePayloadSize, require_pos hfits,
    hword, ok_bind]
  exact ⟨_, rfl⟩

/-! ## What has been written -/

/-- Whenever `enc` succeeds, it has written so many bytes. -/
def Takes (enc : Write) (size : Nat) : Prop :=
  ∀ (writer : Writer) (u : Unit) (writer' : Writer), enc writer = .ok (u, writer') →
    writer'.bytes.length = writer.bytes.length + size

namespace Takes

theorem put (value : List UInt8) : Takes (Writer.put value) value.length := by
  intro writer u writer' h
  rw [put_eq_ok h, List.length_append]

theorem array {n : Nat} (value : Bytes n) : Takes (Writer.put value.1) n := by
  have h := put value.1
  rwa [value.2] at h

theorem u8 (value : UInt8) : Takes (Writer.u8 value) 1 := put [value]

theorem u32 (value : UInt32) : Takes (Writer.u32 value) 4 := by
  have h := put (leBytes32 value)
  rwa [length_leBytes32] at h

theorem u64 (value : UInt64) : Takes (Writer.u64 value) 8 := by
  have h := put (leBytes64 value)
  rwa [length_leBytes64] at h

theorem seq {enc enc' : Write} {size size' : Nat} (h : Takes enc size) (h' : Takes enc' size') :
    Takes (enc >>= fun _ => enc') (size + size') := by
  intro writer u writer' hboth
  rw [bind_apply, bind_eq_ok] at hboth
  obtain ⟨⟨_, middle⟩, hfirst, hsecond⟩ := hboth
  rw [h' _ _ _ hsecond, h _ _ _ hfirst, Nat.add_assoc]

/-- After a check, whatever it gave. -/
theorem after {α : Type} {check : Outcome WireError α} {enc : α → Write} {size : Nat}
    (h : ∀ value, check = .ok value → Takes (enc value) size) :
    Takes ((liftM check : StateT Writer (Outcome WireError) α) >>= enc) size := by
  cases check with
  | ok value => exact h value rfl
  | error fault =>
      intro writer u writer' hfails
      cases hfails

theorem count (count maximum : Nat) (field : String) :
    Takes (Writer.count count maximum field) 4 :=
  after fun _ _ => after fun word _ => u32 word

theorem sizedBytes (value : List UInt8) (maximumFrameBytes : Nat) (object : String) :
    Takes (Writer.sizedBytes value maximumFrameBytes object) (4 + value.length) :=
  after fun _ _ => after fun word _ => (u32 word).seq (put value)

theorem each {α : Type} {enc : α → Write} {size : α → Nat} (h : ∀ a, Takes (enc a) (size a))
    (values : List α) : Takes (writeMany enc values) (values.map size).sum := by
  induction values with
  | nil =>
      intro writer u writer' hnil
      cases hnil
      rfl
  | cons a rest ih =>
      rw [List.map_cons, List.sum_cons]
      exact (h a).seq ih

theorem payload {enc : Write} {size limit : Nat} {object : String} {bytes : List UInt8}
    (h : Takes enc size) (hpayload : Writer.payload limit object enc = .ok bytes) :
    bytes.length = size := by
  simp only [Writer.payload, bind_eq_ok, pure_eq_ok] at hpayload
  obtain ⟨⟨_, writer⟩, hwrite, rfl⟩ := hpayload
  rw [h _ _ _ hwrite]
  exact Nat.zero_add size

theorem output (output : TxOutput) : Takes (encodeOutput output) 49 := by
  obtain ⟨value, lock, spendableHeight⟩ := output
  cases lock with
  | key owner => exact (u64 value).seq ((u8 0).seq ((array owner).seq (u64 spendableHeight)))
  | inferenceChannel channelId =>
      exact (u64 value).seq ((u8 1).seq ((array channelId).seq (u64 spendableHeight)))

theorem challenge (challenge : BlockChallenge) : Takes (encodeChallenge challenge) 144 :=
  (array _).seq ((array _).seq ((array _).seq ((u64 _).seq ((u64 _).seq (array _)))))

theorem proof (proof : BlockProof) (networkId : Bytes32) :
    Takes (writeProof proof networkId) proof.payloadSize := by
  cases proof with
  | v1Legacy proof =>
      exact (u8 _).seq ((array _).seq ((u32 _).seq ((u32 _).seq ((u64 _).seq ((array _).seq
        ((array _).seq (array _)))))))
  | v2Reference proof =>
      exact (u8 _).seq ((array _).seq ((u32 _).seq ((u32 _).seq ((u64 _).seq ((array _).seq
        ((array _).seq ((array _).seq (array _))))))))

theorem blockProof (proof : BlockProof) (networkId : Bytes32) :
    Takes (writeBlockProof proof networkId) (4 + proof.payloadSize) := by
  refine after fun bytes hbytes => ?_
  rw [← (Takes.proof proof networkId).payload hbytes]
  exact sizedBytes bytes _ _

theorem coinbase (coinbase : Coinbase) :
    Takes (encodeCoinbase coinbase) (12 + coinbase.outputs.length * 49) := by
  have hsum : (coinbase.outputs.map fun _ => 49).sum = coinbase.outputs.length * 49 := by
    rw [List.map_const']
    exact List.sum_replicate_nat
  rw [← hsum, show 12 = 8 + 4 from rfl, Nat.add_assoc]
  exact (u64 _).seq ((count _ _ _).seq (each output _))

theorem blockTransaction (transaction : Transaction) :
    Takes (writeBlockTransaction transaction) (4 + transaction.payloadSize) := by
  refine after fun payload hpayload => ?_
  rw [payloadSize_eq hpayload]
  exact sizedBytes payload _ _

theorem block (block : Block) : Takes (writeBlock block) block.payloadSize :=
  (u32 _).seq ((challenge _).seq ((blockProof _ _).seq ((coinbase _).seq
    ((count _ _ _).seq (each blockTransaction _)))))

end Takes

/-- What is encoded as a block has the size of its parts. -/
theorem encodeBlock_length {block : Block} {bytes : List UInt8}
    (h : encodeBlock P block = .ok bytes) : bytes.length = block.frameSize := by
  simp only [encodeBlock, encodeFrame, bind_eq_ok, pure_eq_ok] at h
  obtain ⟨_, _, payload, hpayload, _, _, word, _, rfl⟩ := h
  have hheader : wireHeaderBytes = 16 := rfl
  rw [Block.frameSize, ← (Takes.block block).payload hpayload]
  simp only [List.length_append, frameMagic, length_networkMagic, length_leBytes16,
    length_leBytes32, List.length_cons, List.length_nil]
  omega

/-- What has been written was written item by item. -/
theorem writeMany_eq_ok {α : Type} {enc : α → Write} {values : List α} :
    ∀ {writer writer' : Writer} {u : Unit}, writeMany enc values writer = .ok (u, writer') →
      ∀ a ∈ values, ∃ before after, enc a before = .ok ((), after) := by
  induction values with
  | nil =>
      intro _ _ _ _ a hmem
      cases hmem
  | cons b rest ih =>
      intro writer writer' u h a hmem
      rw [writeMany, bind_apply, bind_eq_ok] at h
      obtain ⟨⟨_, middle⟩, hfirst, hrest⟩ := h
      rcases List.mem_cons.mp hmem with rfl | hmem
      · exact ⟨writer, middle, hfirst⟩
      · exact ih hrest a hmem

/-- The transactions of an encoded block have encodings of their own. -/
theorem encodeBlock_transactions {block : Block} {bytes : List UInt8}
    (h : encodeBlock P block = .ok bytes) : ∀ transaction ∈ block.transactions,
      ∃ canonical, encodeTransaction P transaction = .ok canonical := by
  simp only [encodeBlock, Writer.payload, bind_eq_ok] at h
  obtain ⟨_, _, payload, ⟨⟨_, writer⟩, hwrite, _⟩, _⟩ := h
  simp only [writeBlock, bind_apply, bind_eq_ok] at hwrite
  obtain ⟨_, _, _, _, _, _, _, _, _, _, hmany⟩ := hwrite
  intro transaction hmem
  obtain ⟨before, after, hone⟩ := writeMany_eq_ok hmany transaction hmem
  rw [writeBlockTransaction, bind_apply, bind_eq_ok] at hone
  obtain ⟨⟨payload, _⟩, hlift, hsized⟩ := hone
  obtain ⟨payload', hpayload, heq⟩ : ∃ payload', encodeTransactionPayload transaction =
      .ok payload' ∧ payload' = payload := by
    cases hencode : encodeTransactionPayload transaction with
    | ok payload' =>
        rw [hencode] at hlift
        cases hlift
        exact ⟨_, rfl, rfl⟩
    | error fault =>
        rw [hencode] at hlift
        cases hlift
  subst heq
  refine encodeTransaction_ok hpayload ?_
  cases hcheck : ensurePayloadSize payload'.length maxTransactionBytes "transaction" with
  | ok _ => exact Nat.not_lt.mp (require_eq_ok.mp hcheck)
  | error fault =>
      simp only [Writer.sizedBytes, hcheck] at hsized
      cases hsized

end

end CommonFoundry
