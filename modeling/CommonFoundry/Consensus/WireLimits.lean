/-
# `CommonFoundry.Consensus.WireLimits` — the limits of the codec and of consensus

Counts, signatures and sizes are limited twice: by `encode_block` while it writes
and by `validate_block_resources` before a block is applied.  The codec checks its
totals after every transaction and every signature, consensus once at the end; as
the totals only grow, both say the same of every block
(`validateBlockShape_iff`).

What the codec asks for beyond that is listed by name: the network identifiers
inside the block, the payload of each transaction, and the frame
(`encodeBlock_iff`).  The sizes are sums over the fields, not lengths of
encodings.
-/
import CommonFoundry.Consensus.Preflight

namespace CommonFoundry

open Lib Lib.Outcome Lib.Codec

/-- Every network identifier inside a block is that of its challenge. -/
structure Block.OnNetwork (block : Block) : Prop where
  transactions : ∀ transaction ∈ block.transactions,
    transaction.networkId = block.challenge.networkId
  witnesses : ∀ transaction ∈ block.transactions, ∀ input ∈ transaction.inputs,
    input.witness.OnNetwork block.challenge.networkId

/-- The bytes of a transaction's fields, with signatures of 64 bytes. -/
def Transaction.wireSize (transaction : Transaction) : Nat :=
  32 + (4 + (4 + ((transaction.inputs.map fun input => 36 + input.witness.wireSize).sum +
    (4 + transaction.outputs.length * 49))))

/-- The bytes of a block's frame: its header, and the fields of the block. -/
def Block.wireSize (block : Block) : Nat :=
  wireHeaderBytes + (4 + (144 + (4 + block.proof.payloadSize +
    (12 + block.coinbase.outputs.length * 49 +
      (4 + (block.transactions.map fun transaction => 4 + transaction.wireSize).sum)))))

/-! ## The shape of one transaction -/

theorem checkInputShape_iff {networkId : Bytes32} {input : TxInput} :
    checkInputShape networkId input = .ok () ↔
      checkSignatureLengths input.witness = .ok () ∧ input.witness.OnNetwork networkId := by
  obtain ⟨previous, witness⟩ := input
  cases witness with
  | key publicKey signature =>
      simp only [checkInputShape, checkSignature, checkSignatureLengths, require_eq_ok,
        InputWitness.OnNetwork, and_true]
  | inferenceSettlement terms settlement =>
      simp only [checkInputShape, checkTermsNetwork, checkNetwork, checkSignature,
        checkSignatureLengths, bind_eq_ok, require_eq_ok, not_or, Decidable.not_not,
        InputWitness.OnNetwork, exists_const]
      exact And.comm
  | inferenceRefund terms =>
      simp only [checkInputShape, checkTermsNetwork, checkNetwork, checkSignatureLengths,
        pure_eq_ok, require_eq_ok, InputWitness.OnNetwork, true_and]

/-- The shape is the size of a transaction that consensus asks for, and its network. -/
theorem validateTransactionShape_iff {networkId : Bytes32} {transaction : Transaction} :
    validateTransactionShape transaction networkId = .ok () ↔ transaction.Sized ∧
      transaction.networkId = networkId ∧
      ∀ input ∈ transaction.inputs, input.witness.OnNetwork networkId := by
  simp only [validateTransactionShape, checkNetwork, checkCount, bind_eq_ok, require_eq_ok,
    Nat.not_lt, forM_eq_ok_iff, checkInputShape_iff, exists_const]
  constructor
  · rintro ⟨hnetwork, hinputs, houtputs, hshapes⟩
    exact ⟨⟨hinputs, houtputs, fun input hmem => (hshapes input hmem).1⟩, hnetwork,
      fun input hmem => (hshapes input hmem).2⟩
  · rintro ⟨hsized, hnetwork, hwitnesses⟩
    exact ⟨hnetwork, hsized.inputs, hsized.outputs,
      fun input hmem => ⟨hsized.signatures input hmem, hwitnesses input hmem⟩⟩

/-! ## Running totals -/

/-- Totals that have passed their checks. -/
structure BlockResources.Within (totals : BlockResources) : Prop where
  inputs : totals.inputs ≤ maxBlockAggregateInputs
  outputs : totals.outputs ≤ maxBlockAggregateOutputs
  signatureChecks : totals.signatureChecks ≤ maxBlockSignatureChecks

/-- The totals after one more transaction. -/
def BlockResources.add (totals : BlockResources) (transaction : Transaction) : BlockResources where
  inputs := totals.inputs + transaction.inputs.length
  outputs := totals.outputs + transaction.outputs.length
  signatureChecks := totals.signatureChecks + transaction.signatureChecks

/-- Counting up signatures ends at their number, within the limit it started in. -/
theorem addSignatureChecks_within {inputs : List TxInput} : ∀ {total total' : Nat},
    inputs.foldlM addSignatureChecks total = .ok total' → total ≤ maxBlockSignatureChecks →
    total' = total + (inputs.map (·.witness.signatureChecks)).sum ∧
      total' ≤ maxBlockSignatureChecks := by
  induction inputs with
  | nil =>
      intro total total' h hle
      rw [List.foldlM_nil, pure_eq_ok] at h
      subst h
      exact ⟨rfl, hle⟩
  | cons input rest ih =>
      intro total total' h _
      obtain ⟨middle, hfirst, hrest⟩ := foldlM_cons_eq_ok.mp h
      simp only [addSignatureChecks, checkCount, bind_eq_ok, require_eq_ok, pure_eq_ok,
        Nat.not_lt] at hfirst
      obtain ⟨_, hmiddle, rfl⟩ := hfirst
      obtain ⟨rfl, hle⟩ := ih hrest hmiddle
      rw [List.map_cons, List.sum_cons]
      exact ⟨Nat.add_assoc _ _ _, hle⟩

theorem addBlockResources_within {totals totals' : BlockResources} {transaction : Transaction}
    (h : addBlockResources totals transaction = .ok totals') (hwithin : totals.Within) :
    totals' = totals.add transaction ∧ totals'.Within := by
  simp only [addBlockResources, checkCount, bind_eq_ok, require_eq_ok, pure_eq_ok,
    Nat.not_lt] at h
  obtain ⟨_, hinputs, _, houtputs, signatures, hloop, rfl⟩ := h
  obtain ⟨rfl, hsignatures⟩ := addSignatureChecks_within hloop hwithin.signatureChecks
  exact ⟨rfl, hinputs, houtputs, hsignatures⟩

/-- A run of the transaction loop has seen every transaction in shape, and its
totals are within the limits. -/
theorem validateBlockShape_run {networkId : Bytes32} {transactions : List Transaction} :
    ∀ {totals totals' : BlockResources},
      transactions.foldlM (fun totals transaction => do
        validateTransactionShape transaction networkId
        addBlockResources totals transaction) totals = .ok totals' → totals.Within →
      (∀ transaction ∈ transactions,
        validateTransactionShape transaction networkId = .ok ()) ∧
      totals'.Within ∧ totals' = transactions.foldl BlockResources.add totals := by
  induction transactions with
  | nil =>
      intro totals totals' h hwithin
      rw [List.foldlM_nil, pure_eq_ok] at h
      subst h
      exact ⟨fun _ hmem => (by cases hmem), hwithin, rfl⟩
  | cons transaction rest ih =>
      intro totals totals' h hwithin
      obtain ⟨middle, hfirst, hrest⟩ := foldlM_cons_eq_ok.mp h
      obtain ⟨_, hshape, hadd⟩ := bind_eq_ok.mp hfirst
      obtain ⟨rfl, hmiddle⟩ := addBlockResources_within hadd hwithin
      obtain ⟨hshapes, hfinal, htotals⟩ := ih hrest hmiddle
      exact ⟨List.forall_mem_cons.mpr ⟨hshape, hshapes⟩, hfinal, htotals⟩

/-- The totals are the sums that consensus compares with its limits. -/
theorem BlockResources.foldl_add (transactions : List Transaction) : ∀ totals : BlockResources,
    transactions.foldl BlockResources.add totals = {
      inputs := totals.inputs + (transactions.map (·.inputs.length)).sum
      outputs := totals.outputs + (transactions.map (·.outputs.length)).sum
      signatureChecks := totals.signatureChecks +
        (transactions.map (·.signatureChecks)).sum } := by
  induction transactions with
  | nil => exact fun _ => rfl
  | cons transaction rest ih =>
      intro totals
      rw [List.foldl_cons, ih]
      simp only [BlockResources.add, List.map_cons, List.sum_cons, Nat.add_assoc]

theorem validateBlockShape_iff {block : Block} :
    validateBlockShape block = .ok () ↔
      validateBlockResources block = .ok () ∧ block.OnNetwork := by
  rw [validateBlockResources_eq_ok]
  constructor
  · intro h
    simp only [validateBlockShape, checkCount, bind_eq_ok, require_eq_ok, Nat.not_lt] at h
    obtain ⟨_, hcoinbase, _, hcount, totals, hloop, -⟩ := h
    obtain ⟨hshapes, hwithin, rfl⟩ := validateBlockShape_run hloop
      ⟨Nat.zero_le _, Nat.zero_le _, Nat.zero_le _⟩
    rw [BlockResources.foldl_add] at hwithin
    simp only [Nat.zero_add] at hwithin
    obtain ⟨hinputs, houtputs, hsignatures⟩ := hwithin
    have hsized : ∀ transaction ∈ block.transactions, transaction.Sized :=
      fun transaction hmem => (validateTransactionShape_iff.mp (hshapes transaction hmem)).1
    refine ⟨⟨hcoinbase, _, validateTransactionSetResources_iff.mpr
      ⟨hsized, ⟨hcount, hinputs, houtputs, hsignatures⟩, rfl⟩⟩, ?_, ?_⟩
    · intro transaction hmem
      exact (validateTransactionShape_iff.mp (hshapes transaction hmem)).2.1
    · intro transaction hmem
      exact (validateTransactionShape_iff.mp (hshapes transaction hmem)).2.2
  · rintro ⟨⟨hcoinbase, totals, htotals⟩, hnetwork⟩
    obtain ⟨hsized, hlimits, -⟩ := validateTransactionSetResources_iff.mp htotals
    refine validateBlockShape_ok hcoinbase hlimits fun transaction hmem => ?_
    exact validateTransactionShape_iff.mpr ⟨hsized transaction hmem,
      hnetwork.transactions transaction hmem, hnetwork.witnesses transaction hmem⟩

/-! ## The size of one transaction -/

namespace Takes

theorem channelTerms (terms : ChannelTerms) : Takes (writeChannelTerms terms) 296 :=
  (array _).seq ((array _).seq ((array _).seq ((array _).seq ((array _).seq ((array _).seq
    ((array _).seq ((u64 _).seq ((u64 _).seq ((u64 _).seq ((u64 _).seq ((u64 _).seq ((u64 _).seq
      ((u64 _).seq ((u64 _).seq (u64 _)))))))))))))))

theorem paymentState (state : PaymentState) : Takes (writePaymentState state) 112 :=
  (array _).seq ((u64 _).seq ((u64 _).seq ((u64 _).seq ((u64 _).seq ((u64 _).seq ((u64 _).seq
    (array _)))))))

theorem signature (signature : List UInt8) : Takes (encodeSignature signature) 64 := by
  refine after fun _ hcheck => ?_
  have hlength : signature.length = 64 := require_eq_ok.mp hcheck
  rw [← hlength]
  exact put signature

theorem input (input : TxInput) : Takes (encodeInput input) (36 + input.witness.wireSize) := by
  obtain ⟨previous, witness⟩ := input
  cases witness with
  | key publicKey bytes =>
      exact (array _).seq ((u32 _).seq ((u8 0).seq ((array _).seq (signature bytes))))
  | inferenceSettlement terms settlement =>
      exact (array _).seq ((u32 _).seq ((u8 1).seq ((channelTerms _).seq
        ((paymentState _).seq ((signature _).seq (signature _))))))
  | inferenceRefund terms =>
      exact (array _).seq ((u32 _).seq ((u8 2).seq (channelTerms _)))

theorem transaction (transaction : Transaction) :
    Takes (writeTransaction transaction) transaction.wireSize := by
  have houtputs : Takes (writeMany encodeOutput transaction.outputs)
      (transaction.outputs.length * 49) := by
    have h := each output transaction.outputs
    rwa [List.map_const', List.sum_replicate_nat] at h
  exact (array _).seq ((u32 _).seq ((count _ _ _).seq ((each input _).seq
    ((count _ _ _).seq houtputs))))

end Takes

/-- A payload is as long as the fields it encodes. -/
theorem encodeTransactionPayload_length {transaction : Transaction} {payload : List UInt8}
    (h : encodeTransactionPayload transaction = .ok payload) :
    payload.length = transaction.wireSize := by
  simp only [encodeTransactionPayload, bind_eq_ok] at h
  obtain ⟨_, _, hpayload⟩ := h
  exact (Takes.transaction transaction).payload hpayload

section

variable {P : Platform} {block : Block}

theorem encodeTransaction_length {transaction : Transaction} {bytes : List UInt8}
    (h : encodeTransaction P transaction = .ok bytes) :
    bytes.length = wireHeaderBytes + transaction.wireSize := by
  obtain ⟨-, ⟨payload, hpayload, -⟩, hlength⟩ := encodeTransaction_eq_ok h
  rw [hlength, payloadSize_eq hpayload, encodeTransactionPayload_length hpayload]

theorem encodeTransaction_iff {transaction : Transaction} :
    (∃ bytes, encodeTransaction P transaction = .ok bytes) ↔
      validateTransactionShape transaction transaction.networkId = .ok () ∧
      wireHeaderBytes + transaction.wireSize ≤ maxTransactionBytes := by
  constructor
  · rintro ⟨bytes, hbytes⟩
    obtain ⟨hshape, ⟨payload, hpayload, hsize⟩, -⟩ := encodeTransaction_eq_ok hbytes
    rw [encodeTransactionPayload_length hpayload] at hsize
    exact ⟨hshape, hsize⟩
  · rintro ⟨hshape, hsize⟩
    have hheader : wireHeaderBytes = 16 := rfl
    refine encodeTransaction_of_shape hshape ?_
    rw [Transaction.wireSize] at hsize
    omega

/-- Where the transactions have encodings, the frame is as long as its fields. -/
theorem Block.frameSize_eq (h : ∀ transaction ∈ block.transactions,
    ∃ bytes, encodeTransaction P transaction = .ok bytes) : block.frameSize = block.wireSize := by
  have hsizes : (block.transactions.map fun transaction => 4 + transaction.payloadSize) =
      block.transactions.map fun transaction => 4 + transaction.wireSize := by
    refine List.map_congr_left fun transaction hmem => ?_
    obtain ⟨bytes, hbytes⟩ := h transaction hmem
    obtain ⟨-, ⟨payload, hpayload, -⟩, -⟩ := encodeTransaction_eq_ok hbytes
    rw [payloadSize_eq hpayload, encodeTransactionPayload_length hpayload]
  rw [Block.frameSize, Block.payloadSize, hsizes, Block.wireSize]

/-! ## Blocks -/

/-- What the codec asks of a block beyond the resource rules of consensus. -/
structure Block.Fits (block : Block) : Prop where
  network : block.OnNetwork
  transactions : ∀ transaction ∈ block.transactions,
    wireHeaderBytes + transaction.wireSize ≤ maxTransactionBytes
  frame : block.wireSize ≤ maxBlockBytes

theorem encodeBlock_eq_ok {bytes : List UInt8} (h : encodeBlock P block = .ok bytes) :
    validateBlockResources block = .ok () ∧ block.Fits ∧ bytes.length = block.wireSize := by
  have hshape : validateBlockShape block = .ok () := by
    simp only [encodeBlock, bind_eq_ok] at h
    obtain ⟨_, hshape, _⟩ := h
    exact hshape
  obtain ⟨hresources, hnetwork⟩ := validateBlockShape_iff.mp hshape
  have hencoded := encodeBlock_transactions h
  have hlength : bytes.length = block.wireSize := by
    rw [encodeBlock_length h, Block.frameSize_eq hencoded]
  refine ⟨hresources, ⟨hnetwork, ?_, ?_⟩, hlength⟩
  · intro transaction hmem
    exact (encodeTransaction_iff.mp (hencoded transaction hmem)).2
  · rw [← hlength]
    exact encodeBlock_length_le h

theorem encodeBlock_of_fits (hresources : validateBlockResources block = .ok ())
    (hfits : block.Fits) : ∃ bytes, encodeBlock P block = .ok bytes := by
  have hshape : validateBlockShape block = .ok () :=
    validateBlockShape_iff.mpr ⟨hresources, hfits.network⟩
  obtain ⟨-, totals, htotals⟩ := validateBlockResources_eq_ok.mp hresources
  obtain ⟨hsized, -⟩ := validateTransactionSetResources_iff.mp htotals
  have hencoded : ∀ transaction ∈ block.transactions,
      ∃ bytes, encodeTransaction P transaction = .ok bytes := by
    intro transaction hmem
    have hnetwork := hfits.network.transactions transaction hmem
    refine encodeTransaction_iff.mpr ⟨validateTransactionShape_iff.mpr
      ⟨hsized transaction hmem, rfl, ?_⟩, hfits.transactions transaction hmem⟩
    rw [hnetwork]
    exact hfits.network.witnesses transaction hmem
  refine encodeBlock_ok hshape hencoded ?_
  rw [Block.frameSize_eq hencoded]
  exact hfits.frame

end

/-- A block is encoded exactly where consensus accepts its resources, it is on its
network throughout, and each transaction and the whole frame are within their byte
limits.  The sizes are those of the encodings, wherever there are any. -/
theorem encodeBlock_iff (P : Platform) (block : Block) :
    ((∃ bytes, encodeBlock P block = .ok bytes) ↔
      validateBlockResources block = .ok () ∧ block.OnNetwork ∧
      (∀ transaction ∈ block.transactions,
        wireHeaderBytes + transaction.wireSize ≤ maxTransactionBytes) ∧
      block.wireSize ≤ maxBlockBytes) ∧
    (∀ bytes, encodeBlock P block = .ok bytes → bytes.length = block.wireSize ∧
      ∀ transaction ∈ block.transactions, ∃ payload,
        encodeTransactionPayload transaction = .ok payload ∧
          payload.length = transaction.wireSize) := by
  refine ⟨⟨?_, ?_⟩, ?_⟩
  · rintro ⟨bytes, hbytes⟩
    obtain ⟨hresources, hfits, -⟩ := encodeBlock_eq_ok hbytes
    exact ⟨hresources, hfits.network, hfits.transactions, hfits.frame⟩
  · rintro ⟨hresources, hnetwork, htransactions, hframe⟩
    exact encodeBlock_of_fits hresources ⟨hnetwork, htransactions, hframe⟩
  · intro bytes hbytes
    refine ⟨(encodeBlock_eq_ok hbytes).2.2, fun transaction hmem => ?_⟩
    obtain ⟨canonical, hcanonical⟩ := encodeBlock_transactions hbytes transaction hmem
    obtain ⟨-, ⟨payload, hpayload, -⟩, -⟩ := encodeTransaction_eq_ok hcanonical
    exact ⟨payload, hpayload, encodeTransactionPayload_length hpayload⟩

end CommonFoundry
