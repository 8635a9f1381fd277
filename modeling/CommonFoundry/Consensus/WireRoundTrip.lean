/-
# `CommonFoundry.Consensus.WireRoundTrip` — what the encoder writes, the decoder reads

`decodeBlock_encodeBlock`: a block the encoder accepts is read back from its own
bytes, under its own network identifier.  Nothing is assumed of the hash: the
network magic is the same four bytes on both sides.

The proof is one `Codes` chain per record, in the order of its fields.  Two
checks of the decoder are not checks of the writer and come from the shape
validation that runs before it: the network identifier inside channel terms,
and the running totals of a block.
-/
import CommonFoundry.Consensus.Wire

namespace CommonFoundry

open Lib Lib.Outcome Lib.Codec

/-- `Codes` for the writer of this codec. -/
abbrev WireCodes {α : Type} (enc : Write) (dec : Read α) (a : α) : Prop :=
  Codes Writer.bytes enc dec a

/-! ## Words and arrays -/

theorem put_eq_ok {value : List UInt8} {w w' : Writer} {u : Unit}
    (h : Writer.put value w = .ok (u, w')) : w' = { w with bytes := w.bytes ++ value } := by
  simp only [Writer.put, bind_eq_ok, pure_eq_ok, Prod.mk.injEq, true_and] at h
  obtain ⟨_, _, h⟩ := h
  exact h.symm

/-- The writer of this codec appends while its limit allows. -/
def wireSink : Sink Writer where
  room writer n := writer.bytes.length + n ≤ writer.limit
  push writer bs := { writer with bytes := writer.bytes ++ bs }
  push_nil writer := by rw [List.append_nil]
  push_append writer bs bs' := by rw [List.append_assoc]
  room_append writer bs n h := by
    show _ ≤ _ ∧ (writer.bytes ++ bs).length + n ≤ writer.limit
    rw [List.length_append]
    omega

theorem wirePuts : Puts wireSink Writer.bytes Writer.put where
  emits value writer hroom := by
    have hfits : ¬writer.bytes.length + value.length > writer.limit := Nat.not_lt.mpr hroom
    simp only [Writer.put, require_pos hfits]
    rfl
  appends value w u w' h := by rw [put_eq_ok h]

theorem codes_array {n : Nat} (value : Bytes n) :
    WireCodes (Writer.put value.1) (Read.array n) value := Puts.codes wirePuts (reads_array _ value)

theorem codes_u8 (value : UInt8) : WireCodes (Writer.u8 value) Read.u8 value :=
  Puts.codes wirePuts (reads_u8 _ value)

theorem codes_u32 (value : UInt32) : WireCodes (Writer.u32 value) Read.u32 value :=
  Puts.codes wirePuts (reads_u32 _ value)

theorem codes_u64 (value : UInt64) : WireCodes (Writer.u64 value) Read.u64 value :=
  Puts.codes wirePuts (reads_u64 _ value)

/-! ## Counts and length prefixes -/

theorem lengthWord_eq_ok {length : Nat} {word : UInt32} (h : lengthWord length = .ok word) :
    word.toNat = length := by
  rw [lengthWord, okOr_eq_ok] at h
  split at h
  · next hlt =>
      cases h
      rw [UInt32.toNat_ofNat']
      exact Nat.mod_eq_of_lt hlt
  · cases h

theorem codes_count (count maximum : Nat) (field : String) :
    WireCodes (Writer.count count maximum field) (Read.count maximum field) count := by
  refine Codes.lift_bind fun _ hcheck => Codes.lift_bind fun word hword => ?_
  have hcount := lengthWord_eq_ok hword
  rw [← hcount] at hcheck ⊢
  have hread : ∀ bs, Reads Read.u32 bs word → Reads (Read.count maximum field) bs word.toNat := by
    intro bs hbs rest
    rw [Read.count, bind_apply, hbs rest]
    show (liftM (checkCount word.toNat maximum field) >>= fun _ => pure word.toNat : Read Nat)
      rest = _
    rw [hcheck]
    rfl
  rintro w u w' hw
  obtain ⟨bs, hout, hbs⟩ := codes_u32 word w u w' hw
  exact ⟨bs, hout, hread bs hbs⟩

theorem codes_sizedBytes (value : List UInt8) (maximum : Nat) (object : String) :
    WireCodes (Writer.sizedBytes value maximum object) (Read.sizedBytes maximum object) value := by
  refine Codes.lift_bind fun _ hsize => Codes.lift_bind fun word hword => ?_
  refine (codes_u32 word).bind (Codes.bind_lift (v := ()) ?_ ?_)
  · rw [lengthWord_eq_ok hword]
    exact hsize
  · rw [lengthWord_eq_ok hword]
    exact Puts.codes wirePuts (reads_bytes _ value)

/-! ## Channel data -/

theorem checkNetwork_self (networkId : Bytes32) (field : String) :
    checkNetwork networkId networkId field = .ok () := require_pos rfl

theorem checkNetwork_eq_ok {networkId expected : Bytes32} {field : String} {u : Unit} :
    checkNetwork networkId expected field = .ok u ↔ networkId = expected := require_eq_ok

theorem codes_channelTerms (terms : ChannelTerms) :
    WireCodes (writeChannelTerms terms) (decodeChannelTerms terms.networkId) terms := by
  refine (codes_array _).bind (Codes.bind_lift (checkNetwork_self _ _) ?_)
  refine (codes_array _).bind <| (codes_array _).bind <| (codes_array _).bind <|
    (codes_array _).bind <| (codes_array _).bind <| (codes_array _).bind ?_
  refine (codes_u64 _).bind <| (codes_u64 _).bind <| (codes_u64 _).bind <|
    (codes_u64 _).bind <| (codes_u64 _).bind <| (codes_u64 _).bind <| (codes_u64 _).bind <|
    (codes_u64 _).bind ?_
  exact (codes_u64 terms.refundHeight).map fun refundHeight => { terms with refundHeight }

theorem codes_paymentState (state : PaymentState) :
    WireCodes (writePaymentState state) decodePaymentState state := by
  refine (codes_array _).bind ?_
  refine (codes_u64 _).bind <| (codes_u64 _).bind <| (codes_u64 _).bind <|
    (codes_u64 _).bind <| (codes_u64 _).bind <| (codes_u64 _).bind ?_
  exact (codes_array state.previousReceipt).map fun previousReceipt =>
    { state with previousReceipt }

theorem codes_signature (signature : List UInt8) :
    WireCodes (encodeSignature signature) decodeSignature signature := by
  refine Codes.lift_bind fun _ hcheck => ?_
  have hlen : signature.length = consensusSignatureBytes := require_eq_ok.mp hcheck
  exact (codes_array ⟨signature, hlen⟩).map fun signature => signature.1

/-! ## Inputs and outputs -/

/-- The identifier the decoder compares with the expected one, where a witness
embeds one. -/
def InputWitness.OnNetwork (networkId : Bytes32) : InputWitness → Prop
  | .key .. => True
  | .inferenceSettlement terms _ => terms.networkId = networkId
  | .inferenceRefund terms => terms.networkId = networkId

theorem checkInputShape_onNetwork {networkId : Bytes32} {input : TxInput} {u : Unit}
    (h : checkInputShape networkId input = .ok u) : input.witness.OnNetwork networkId := by
  unfold checkInputShape at h
  cases hw : input.witness with
  | key publicKey signature => trivial
  | inferenceSettlement terms settlement =>
      simp only [hw, bind_eq_ok] at h
      obtain ⟨_, hterms, _⟩ := h
      exact checkNetwork_eq_ok.mp hterms
  | inferenceRefund terms =>
      simp only [hw] at h
      exact checkNetwork_eq_ok.mp h

theorem codes_input {networkId : Bytes32} {input : TxInput}
    (h : input.witness.OnNetwork networkId) :
    WireCodes (encodeInput input) (decodeInput networkId) input := by
  obtain ⟨previous, witness⟩ := input
  refine (codes_array _).bind ((codes_u32 _).bind ?_)
  cases witness with
  | key publicKey signature =>
      have hfields : WireCodes (Writer.put publicKey.1 >>= fun _ => encodeSignature signature)
          (decodeWitness networkId 0) (.key publicKey signature) :=
        (codes_array _).bind ((codes_signature _).map (InputWitness.key publicKey))
      exact (codes_u8 0).bind (hfields.map (TxInput.mk previous))
  | inferenceSettlement terms settlement =>
      obtain ⟨⟨state, customerSignature⟩, providerSignature⟩ := settlement
      obtain rfl : terms.networkId = networkId := h
      have hfields : WireCodes
          (writeChannelTerms terms >>= fun _ => writePaymentState state >>= fun _ =>
            encodeSignature customerSignature >>= fun _ => encodeSignature providerSignature)
          (decodeWitness terms.networkId 1)
          (.inferenceSettlement terms ⟨⟨state, customerSignature⟩, providerSignature⟩) :=
        (codes_channelTerms _).bind <| (codes_paymentState _).bind <| (codes_signature _).bind <|
          (codes_signature _).map fun providerSignature =>
            InputWitness.inferenceSettlement terms ⟨⟨state, customerSignature⟩, providerSignature⟩
      exact (codes_u8 1).bind (hfields.map (TxInput.mk previous))
  | inferenceRefund terms =>
      obtain rfl : terms.networkId = networkId := h
      have hfields : WireCodes (writeChannelTerms terms)
          (decodeWitness terms.networkId 2) (.inferenceRefund terms) :=
        (codes_channelTerms terms).map InputWitness.inferenceRefund
      exact (codes_u8 2).bind (hfields.map (TxInput.mk previous))

theorem codes_output (output : TxOutput) :
    WireCodes (encodeOutput output) decodeOutput output := by
  obtain ⟨value, lock, spendableHeight⟩ := output
  refine (codes_u64 _).bind ?_
  cases lock with
  | key owner =>
      have hlock : WireCodes (Writer.put owner.1) (decodeLock 0) (.key owner) :=
        (codes_array owner).map OutputLock.key
      exact (codes_u8 0).bind <| hlock.bind <|
        (codes_u64 _).map (TxOutput.mk value (.key owner))
  | inferenceChannel channelId =>
      have hlock : WireCodes (Writer.put channelId.1) (decodeLock 1)
          (.inferenceChannel channelId) := (codes_array channelId).map OutputLock.inferenceChannel
      exact (codes_u8 1).bind <| hlock.bind <|
        (codes_u64 _).map (TxOutput.mk value (.inferenceChannel channelId))

/-! ## Payloads -/

/-- A payload is read back by the reader of the program that wrote it. -/
theorem run_payload {α : Type} {limit : Nat} {object : String} {enc : Write} {dec : Read α}
    {a : α} {bytes : List UInt8} (hcodes : WireCodes enc dec a)
    (h : Writer.payload limit object enc = .ok bytes) : Read.run dec bytes = .ok a := by
  simp only [Writer.payload, bind_eq_ok, pure_eq_ok] at h
  obtain ⟨⟨u, w⟩, hw, rfl⟩ := h
  obtain ⟨bs, hout, hreads⟩ := hcodes _ _ _ hw
  have hbytes : w.bytes = bs := hout
  rw [Read.run, hbytes, hreads.all]
  rfl

/-- A payload inside a payload: its size is checked on both sides, so the decoder
of the inner one may rely on it. -/
theorem codes_embedded {α : Type} {inner : Outcome WireError (List UInt8)}
    {decode : List UInt8 → Outcome WireError α} {a : α} {maximum : Nat} {object : String}
    (h : ∀ payload, inner = .ok payload →
      ensurePayloadSize payload.length maximum object = .ok () → decode payload = .ok a) :
    WireCodes (liftM inner >>= fun payload => Writer.sizedBytes payload maximum object)
      (Read.sizedBytes maximum object >>= fun payload => liftM (decode payload)) a := by
  refine Codes.lift_bind fun payload hpayload w u w' hw => ?_
  have hsize : ensurePayloadSize payload.length maximum object = .ok () := by
    cases hcheck : ensurePayloadSize payload.length maximum object with
    | ok _ => rfl
    | error e =>
        rw [Writer.sizedBytes, hcheck] at hw
        cases hw
  exact (codes_sizedBytes payload maximum object).finish (h payload hpayload hsize) w u w' hw

/-! ## Transactions -/

theorem codes_transaction {transaction : Transaction} {u : Unit}
    (h : validateTransactionShape transaction transaction.networkId = .ok u) :
    WireCodes (writeTransaction transaction) (readTransaction transaction.networkId)
      transaction := by
  simp only [validateTransactionShape, bind_eq_ok] at h
  obtain ⟨_, _, _, _, _, _, hshape⟩ := h
  have hinputs : ∀ input ∈ transaction.inputs,
      WireCodes (encodeInput input) (decodeInput transaction.networkId) input :=
    fun input hmem => codes_input (checkInputShape_onNetwork (forM_eq_ok_iff.mp hshape input hmem))
  refine (codes_array _).bind (Codes.bind_lift (checkNetwork_self _ _) ?_)
  refine (codes_u32 _).bind <| (codes_count _ _ _).bind <| (codes_many hinputs).bind <|
    (codes_count _ _ _).bind ?_
  exact (codes_many fun output _ => codes_output output).map fun outputs =>
    { transaction with outputs }

theorem decodeTransactionPayload_encode {transaction : Transaction} {payload : List UInt8}
    (h : encodeTransactionPayload transaction = .ok payload)
    (hsize : ensurePayloadSize payload.length maxTransactionBytes "transaction" = .ok ()) :
    decodeTransactionPayload payload transaction.networkId = .ok transaction := by
  simp only [encodeTransactionPayload, bind_eq_ok] at h
  obtain ⟨_, hshape, hpayload⟩ := h
  rw [decodeTransactionPayload, hsize]
  exact run_payload (codes_transaction hshape) hpayload

/-! ## Proofs -/

theorem codes_proof (proof : BlockProof) (networkId : Bytes32) :
    WireCodes (writeProof proof networkId) (readProof networkId) proof := by
  cases proof with
  | v1Legacy proof =>
      refine (codes_u8 _).bind ((codes_array _).bind (Codes.bind_lift (checkNetwork_self _ _) ?_))
      exact (codes_u32 _).bind <| (codes_u32 _).bind <| (codes_u64 _).bind <|
        (codes_array _).bind <| (codes_array _).bind <|
        (codes_array _).map fun workDigest => BlockProof.v1Legacy { proof with workDigest }
  | v2Reference proof =>
      refine (codes_u8 _).bind ((codes_array _).bind (Codes.bind_lift (checkNetwork_self _ _) ?_))
      exact (codes_u32 _).bind <| (codes_u32 _).bind <| (codes_u64 _).bind <|
        (codes_array _).bind <| (codes_array _).bind <| (codes_array _).bind <|
        (codes_array _).map fun workDigest => BlockProof.v2Reference { proof with workDigest }

theorem decodeForgeMatrixProofPayload_encode {proof : BlockProof} {networkId : Bytes32}
    {payload : List UInt8} (h : encodeForgeMatrixProofPayload proof networkId = .ok payload)
    (hsize : ensurePayloadSize payload.length maxProofBytes "ForgeMatrix proof" = .ok ()) :
    decodeForgeMatrixProofPayload payload networkId = .ok proof := by
  rw [decodeForgeMatrixProofPayload, hsize]
  exact run_payload (codes_proof proof networkId) h

/-! ## Blocks -/

theorem codes_challenge (challenge : BlockChallenge) :
    WireCodes (encodeChallenge challenge) (decodeChallenge challenge.networkId) challenge := by
  refine (codes_array _).bind (Codes.bind_lift (checkNetwork_self _ _) ?_)
  exact (codes_array _).bind <| (codes_array _).bind <| (codes_u64 _).bind <|
    (codes_u64 _).bind <| (codes_array challenge.target).map fun target =>
      { challenge with target }

theorem codes_coinbase (coinbase : Coinbase) :
    WireCodes (encodeCoinbase coinbase) decodeCoinbase coinbase := by
  refine (codes_u64 _).bind <| (codes_count _ _ _).bind ?_
  exact (codes_many fun output _ => codes_output output).map fun outputs =>
    { coinbase with outputs }

theorem codes_blockProof (proof : BlockProof) (networkId : Bytes32) :
    WireCodes (writeBlockProof proof networkId) (readBlockProof networkId) proof :=
  codes_embedded fun _ hpayload hsize => decodeForgeMatrixProofPayload_encode hpayload hsize

theorem codes_blockTransaction (transaction : Transaction) :
    WireCodes (writeBlockTransaction transaction) (readBlockTransaction transaction.networkId)
      transaction :=
  codes_embedded fun _ hpayload hsize => decodeTransactionPayload_encode hpayload hsize

/-- The loop over the transactions: the totals the decoder keeps are those the
shape validation kept. -/
theorem codes_blockTransactions {networkId : Bytes32} {transactions : List Transaction} :
    ∀ {totals final : BlockResources},
      transactions.foldlM (fun totals transaction => do
        validateTransactionShape transaction networkId
        addBlockResources totals transaction) totals = .ok final →
      WireCodes (writeMany writeBlockTransaction transactions)
        (readBlockTransactions networkId transactions.length totals) transactions := by
  induction transactions with
  | nil => exact fun _ => Codes.pure []
  | cons transaction rest ih =>
      intro totals final h
      rw [foldlM_cons_eq_ok] at h
      obtain ⟨next, hstep, hrest⟩ := h
      simp only [bind_eq_ok] at hstep
      obtain ⟨_, hshape, htotals⟩ := hstep
      obtain rfl : transaction.networkId = networkId := by
        simp only [validateTransactionShape, bind_eq_ok] at hshape
        obtain ⟨_, hnetwork, _⟩ := hshape
        exact checkNetwork_eq_ok.mp hnetwork
      refine (codes_blockTransaction transaction).bind (Codes.bind_lift htotals ?_)
      exact (ih hrest).map (transaction :: ·)

theorem codes_block {block : Block} {u : Unit} (h : validateBlockShape block = .ok u) :
    WireCodes (writeBlock block) (readBlock block.challenge.networkId) block := by
  simp only [validateBlockShape, bind_eq_ok] at h
  obtain ⟨_, _, _, _, _, hfold, _⟩ := h
  refine (codes_u32 _).bind <| (codes_challenge _).bind <| (codes_blockProof _ _).bind <|
    (codes_coinbase _).bind <| (codes_count _ _ _).bind ?_
  exact (codes_blockTransactions hfold).map fun transactions => { block with transactions }

/-! ## Frames -/

section Frame

variable {P : Platform}

theorem length_networkMagic (networkId : Bytes32) : (networkMagic P networkId).length = 4 := by
  rw [networkMagic, List.length_take, (P.deriveKey networkMagicDomain networkId.1).2]
  rfl

/-- A frame, cut where `decode_frame` cuts it. -/
structure FrameParts (bytes : List UInt8) where
  magic : Bytes 4
  network : Bytes 4
  version : Bytes 2
  kind : UInt8
  flags : UInt8
  length : Bytes 4
  payload : List UInt8
  eq : bytes = magic.1 ++ (network.1 ++ (version.1 ++ kind :: flags :: (length.1 ++ payload)))

theorem FrameParts.length_eq {bytes : List UInt8} (parts : FrameParts bytes) :
    bytes.length = wireHeaderBytes + parts.payload.length := by
  have hheader : wireHeaderBytes = 16 := rfl
  have hlength := congrArg List.length parts.eq
  simp only [List.length_append, List.length_cons, parts.magic.2, parts.network.2,
    parts.version.2, parts.length.2] at hlength
  omega

/-- What has room for a header has one. -/
theorem exists_frameParts {bytes : List UInt8} (h : wireHeaderBytes ≤ bytes.length) :
    Nonempty (FrameParts bytes) := by
  have hheader : wireHeaderBytes = 16 := rfl
  obtain ⟨magic, rest, rfl, hrest⟩ := exists_array_append bytes 4 (by omega)
  obtain ⟨network, rest, rfl, hrest⟩ := exists_array_append rest 4 (by omega)
  obtain ⟨version, rest, rfl, hrest⟩ := exists_array_append rest 2 (by omega)
  cases rest with
  | nil => simp only [List.length_nil] at *; omega
  | cons kind rest =>
      cases rest with
      | nil => simp only [List.length_cons, List.length_nil] at *; omega
      | cons flags rest =>
          simp only [List.length_cons] at *
          obtain ⟨length, payload, rfl, _⟩ :=
            exists_array_append rest 4 (by omega)
          exact ⟨⟨magic, network, version, kind, flags, length, payload, rfl⟩⟩

/-- The checks of `decode_frame` on the parts of a frame. -/
theorem decodeFrame_eq_ok {bytes payload : List UInt8} (parts : FrameParts bytes)
    {networkId : Bytes32} {kind : UInt8} {maximum : Nat} {object : String} :
    decodeFrame P bytes networkId kind maximum object = .ok payload ↔
      bytes.length ≤ maximum ∧ parts.magic.1 = frameMagic ∧
      parts.network.1 = networkMagic P networkId ∧
      UInt16.ofNat (ofLe parts.version.1) = wireVersion ∧ parts.kind = kind ∧ parts.flags = 0 ∧
      ofLe parts.length.1 = parts.payload.length ∧ parts.payload = payload := by
  have hheader : wireHeaderBytes = 16 := rfl
  have hlength := parts.length_eq
  obtain ⟨magic, network, version, kind', flags, length, payload', rfl⟩ := parts
  simp only at hlength ⊢
  generalize hbytes : magic.1 ++ (network.1 ++ (version.1 ++ kind' :: flags ::
    (length.1 ++ payload'))) = bytes at hlength ⊢
  have h0 : (sliceAt bytes 0 4 : Outcome WireError _) = .ok magic.1 := by
    rw [← hbytes]
    exact sliceAt_append (List.length_nil) (by rw [magic.2])
  have h4 : (sliceAt bytes 4 8 : Outcome WireError _) = .ok network.1 := by
    rw [← hbytes]
    exact sliceAt_append magic.2 (by rw [network.2])
  have h8 : (sliceAt bytes 8 10 : Outcome WireError _) = .ok version.1 := by
    rw [← hbytes, ← List.append_assoc]
    exact sliceAt_append (by rw [List.length_append, magic.2, network.2]) (by rw [version.2])
  have h10 : (byteAt bytes 10 : Outcome WireError _) = .ok kind' := by
    rw [← hbytes, ← List.append_assoc, ← List.append_assoc]
    exact byteAt_append (by simp only [List.length_append, magic.2, network.2, version.2])
  have h11 : (byteAt bytes 11 : Outcome WireError _) = .ok flags := by
    rw [← hbytes, ← List.append_assoc, ← List.append_assoc, ← List.singleton_append,
      ← List.append_assoc]
    exact byteAt_append (by simp [magic.2, network.2, version.2])
  have hbefore : bytes = (magic.1 ++ network.1 ++ version.1 ++ [kind', flags]) ++
      (length.1 ++ payload') := by
    rw [← hbytes]
    simp only [List.append_assoc, List.cons_append, List.nil_append]
  have hbeforeLen : (magic.1 ++ network.1 ++ version.1 ++ [kind', flags]).length = 12 := by
    simp [magic.2, network.2, version.2]
  have h12 : (sliceAt bytes 12 16 : Outcome WireError _) = .ok length.1 := by
    rw [hbefore]
    exact sliceAt_append hbeforeLen (by rw [length.2])
  have hrest : (sliceAt bytes 16 bytes.length : Outcome WireError _) = .ok payload' := by
    have hparts : bytes = (magic.1 ++ network.1 ++ version.1 ++ [kind', flags] ++ length.1) ++
        (payload' ++ []) := by rw [hbefore, List.append_nil, ← List.append_assoc]
    rw [hlength, hparts]
    exact sliceAt_append (by rw [List.length_append, hbeforeLen, length.2]) (by rw [hheader])
  simp only [decodeFrame, h0, h4, h8, h10, h11, h12, hrest, ensurePayloadSize, hheader,
    bind_eq_ok, require_eq_ok, ok_bind, Except.ok.injEq]
  constructor
  · rintro ⟨_, _, _, hmax, _, hmagic, _, hnetwork, _, hversion, _, hkind, _, hflags, _, _, _,
      hle, _, hge, hpayload⟩
    exact ⟨by omega, hmagic, hnetwork, hversion, hkind, hflags, by omega, hpayload⟩
  · rintro ⟨hmax, hmagic, hnetwork, hversion, hkind, hflags, hlen, hpayload⟩
    exact ⟨(), by omega, (), by omega, (), hmagic, (), hnetwork, (), hversion, (), hkind, (),
      hflags, (), by omega, (), by omega, (), by omega, hpayload⟩

/-- The header that `encode_frame` writes. -/
theorem encodeFrame_eq_ok {kind : UInt8} {networkId : Bytes32} {payload bytes : List UInt8}
    {maximum : Nat} {object : String} :
    encodeFrame P kind networkId payload maximum object = .ok bytes ↔
      wireHeaderBytes + payload.length ≤ maximum ∧ ∃ word : UInt32,
        lengthWord payload.length = .ok word ∧
        bytes = frameMagic ++ (networkMagic P networkId ++ (leBytes16 wireVersion ++
          kind :: 0 :: (leBytes32 word ++ payload))) := by
  simp only [encodeFrame, ensurePayloadSize, bind_eq_ok, require_eq_ok, pure_eq_ok,
    List.append_assoc, List.cons_append, List.nil_append]
  constructor
  · rintro ⟨_, hsize, word, hword, rfl⟩
    exact ⟨by omega, word, hword, rfl⟩
  · rintro ⟨hsize, word, hword, rfl⟩
    exact ⟨(), by omega, word, hword, rfl⟩

theorem decodeFrame_encodeFrame {kind : UInt8} {networkId : Bytes32} {payload bytes : List UInt8}
    {maximum : Nat} {object : String}
    (h : encodeFrame P kind networkId payload maximum object = .ok bytes) :
    decodeFrame P bytes networkId kind maximum object = .ok payload := by
  obtain ⟨hsize, word, hword, rfl⟩ := encodeFrame_eq_ok.mp h
  let parts : FrameParts _ := ⟨⟨frameMagic, rfl⟩, ⟨_, length_networkMagic (P := P) networkId⟩,
    ⟨_, length_leBytes16 wireVersion⟩, kind, 0, ⟨_, length_leBytes32 word⟩, payload, rfl⟩
  refine (decodeFrame_eq_ok parts).mpr ⟨?_, rfl, rfl, rfl, rfl, rfl, ?_, rfl⟩
  · rw [parts.length_eq]
    exact hsize
  · exact (ofLe_leBytes32 word).trans (lengthWord_eq_ok hword)

/-! ## The round trips -/

theorem decodeTransaction_encodeTransaction {transaction : Transaction} {bytes : List UInt8}
    (h : encodeTransaction P transaction = .ok bytes) :
    decodeTransaction P bytes transaction.networkId = .ok transaction := by
  simp only [encodeTransaction, bind_eq_ok] at h
  obtain ⟨payload, hpayload, hframe⟩ := h
  have hsize : ensurePayloadSize payload.length maxTransactionBytes "transaction" = .ok () := by
    simp only [encodeFrame, bind_eq_ok] at hframe
    exact hframe.choose_spec.1
  rw [decodeTransaction, decodeFrame_encodeFrame hframe]
  exact decodeTransactionPayload_encode hpayload hsize

theorem decodeBlock_encodeBlock {block : Block} {bytes : List UInt8}
    (h : encodeBlock P block = .ok bytes) :
    decodeBlock P bytes block.challenge.networkId = .ok block := by
  simp only [encodeBlock, bind_eq_ok] at h
  obtain ⟨_, hshape, payload, hpayload, hframe⟩ := h
  rw [decodeBlock, decodeFrame_encodeFrame hframe]
  exact run_payload (codes_block hshape) hpayload

end Frame

end CommonFoundry
