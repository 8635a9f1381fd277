/-
# `CommonFoundry.Node.PeerCodec` — peer frames have one encoding

`canonical_peerFrame`: under a network identifier, the decoder accepts exactly
the frames the encoder makes of messages of that network, and it never aborts.

Each kind contributes two chains, one that its payload is read back and one that
what is read is what would be written; `decodeMessage_iff` puts the thirteen
together, and the header is dealt with once, behind them.
-/
import CommonFoundry.Consensus.WireCanonical
import CommonFoundry.Node.PeerFrame

namespace CommonFoundry

open Lib Lib.Outcome Lib.Codec

/-! ## Payloads as programs -/

/-- A payload takes whatever is appended. -/
def payloadSink : Sink (List UInt8) where
  room _ _ := True
  push payload bs := payload ++ bs
  push_nil payload := List.append_nil payload
  push_append _ _ _ := (List.append_assoc ..).symm
  room_append _ _ _ _ := ⟨trivial, trivial⟩

abbrev PayloadCodes {α : Type} (enc : PayloadWrite) (dec : PayloadRead α) (a : α) : Prop :=
  Codes id enc dec a

abbrev PayloadUnreads {α : Type} (dec : PayloadRead α) (enc : α → PayloadWrite)
    (post : α → Prop) : Prop := Unreads payloadSink dec enc post

theorem payloadPuts : Puts payloadSink id Payload.put where
  emits _ _ _ := rfl
  appends value w u w' h := by
    cases h
    rfl

section Fields

theorem payload_array {n : Nat} (value : Bytes n) :
    PayloadCodes (Payload.put value.1) (PayloadReader.array n) value :=
  Puts.codes payloadPuts (reads_array _ value)

theorem payload_u8 (value : UInt8) : PayloadCodes (Payload.u8 value) PayloadReader.u8 value :=
  Puts.codes payloadPuts (reads_u8 _ value)

theorem payload_u16 (value : UInt16) : PayloadCodes (Payload.u16 value) PayloadReader.u16 value :=
  Puts.codes payloadPuts (reads_u16 _ value)

theorem payload_u32 (value : UInt32) : PayloadCodes (Payload.u32 value) PayloadReader.u32 value :=
  Puts.codes payloadPuts (reads_u32 _ value)

theorem payload_u64 (value : UInt64) : PayloadCodes (Payload.u64 value) PayloadReader.u64 value :=
  Puts.codes payloadPuts (reads_u64 _ value)

theorem unread_array (n : Nat) :
    PayloadUnreads (PayloadReader.array n) (fun value => Payload.put value.1) anyValue :=
  Puts.unreads_array _ payloadPuts n

theorem unread_u8 : PayloadUnreads PayloadReader.u8 Payload.u8 anyValue := Puts.unreads_u8 _ payloadPuts

theorem unread_u16 : PayloadUnreads PayloadReader.u16 Payload.u16 anyValue :=
  Puts.unreads_u16 _ payloadPuts

theorem unread_u32 : PayloadUnreads PayloadReader.u32 Payload.u32 anyValue :=
  Puts.unreads_u32 _ payloadPuts

theorem unread_u64 : PayloadUnreads PayloadReader.u64 Payload.u64 anyValue :=
  Puts.unreads_u64 _ payloadPuts

end Fields

theorem peerCheck_eq_ok {p : Prop} [Decidable p] {error : PeerError} {u : Unit} :
    peerCheck p error = .ok u ↔ p := require_eq_ok

theorem peerCheck_pos {p : Prop} [Decidable p] {error : PeerError} (h : p) :
    peerCheck p error = .ok () := require_pos h

theorem noPanic_peerCheck {p : Prop} [Decidable p] {error : PeerError} :
    NoPanic (peerCheck p error) := NoPanic.require

section Whole

variable {α : Type} {enc : PayloadWrite} {dec : PayloadRead α} {payload : List UInt8} {a : α}

/-- A payload is read back by the reader of the program that wrote it. -/
theorem run_build (hcodes : PayloadCodes enc dec a) (h : Payload.build enc = .ok payload) :
    PayloadReader.run dec payload = .ok a := by
  simp only [Payload.build, bind_eq_ok, pure_eq_ok] at h
  obtain ⟨⟨u, w⟩, hw, rfl⟩ := h
  obtain ⟨bs, hout, hreads⟩ := hcodes [] u w hw
  obtain rfl : w = bs := hout
  rw [PayloadReader.run, hreads.all]
  rfl

/-- What is read from a payload is written to the same payload. -/
theorem build_of_run {enc : α → PayloadWrite} {post : α → Prop} (h : PayloadUnreads dec enc post)
    (hrun : PayloadReader.run dec payload = .ok a) :
    post a ∧ Payload.build (enc a) = .ok payload := by
  simp only [PayloadReader.run, bind_eq_ok, peerCheck_eq_ok, pure_eq_ok] at hrun
  obtain ⟨⟨_, rest⟩, hdec, _, hrest, rfl⟩ := hrun
  obtain ⟨hpost, bs, rfl, hemits⟩ := h payload _ rest hdec
  obtain rfl := List.eq_nil_of_length_eq_zero hrest
  refine ⟨hpost, ?_⟩
  rw [Payload.build, hemits [] trivial, List.append_nil]
  rfl

theorem noPanic_payload (h : Total dec) (payload : List UInt8) :
    NoPanic (PayloadReader.run dec payload) :=
  (h payload).bind fun _ _ => noPanic_peerCheck.bind fun _ _ => .ok

end Whole

/-! ## Hello -/

theorem payload_hello (hello : PeerHello) : PayloadCodes (writeHello hello) readHello hello :=
  (payload_array _).bind <| (payload_array _).bind <| (payload_array _).bind <|
    (payload_array _).bind <| (payload_u64 _).bind <|
    (payload_array hello.cumulativeWork).map fun cumulativeWork => { hello with cumulativeWork }

theorem unread_hello : PayloadUnreads readHello writeHello anyValue := by
  refine (unread_array 32).bind fun _ _ => (unread_array 32).bind fun _ _ =>
    (unread_array 32).bind fun _ _ => (unread_array 32).bind fun _ _ => unread_u64.bind fun _ _ => ?_
  exact (unread_array 64).map (fun _ => rfl) fun _ _ => ⟨rfl, rfl, rfl, rfl, rfl, trivial⟩

theorem total_hello : Total readHello :=
  (total_array _ 32).bind fun _ => (total_array _ 32).bind fun _ => (total_array _ 32).bind fun _ =>
    (total_array _ 32).bind fun _ => (total_u64 _).bind fun _ => (total_array _ 64).bind fun _ =>
    .pure _

/-! ## Lists of identifiers -/

section Identifiers

variable {max : Nat} {field : String} {requireNonempty : Bool}

theorem validateIdentifiers_eq_ok {identifiers : List Bytes32} {u : Unit} :
    validateIdentifiers identifiers max field requireNonempty = .ok u ↔
      ¬(requireNonempty = true ∧ identifiers.isEmpty = true) ∧ identifiers.length ≤ max ∧
        identifiers.Nodup := by
  simp only [validateIdentifiers, bind_eq_ok, peerCheck_eq_ok, Nat.not_lt]
  constructor
  · rintro ⟨_, hempty, _, hmax, hnodup⟩
    exact ⟨hempty, hmax, hnodup⟩
  · rintro ⟨hempty, hmax, hnodup⟩
    exact ⟨(), hempty, (), hmax, hnodup⟩

theorem toNat_ofNat_length {n : Nat} (h : n < 2 ^ 16) : (UInt16.ofNat n).toNat = n := by
  rw [UInt16.toNat_ofNat', Nat.mod_eq_of_lt h]

theorem payload_identifiers (hsmall : max < 2 ^ 16) {identifiers : List Bytes32} {u : Unit}
    (h : validateIdentifiers identifiers max field requireNonempty = .ok u) :
    PayloadCodes (writeIdentifiers identifiers) (readIdentifiers max field requireNonempty)
      identifiers := by
  obtain ⟨hempty, hmax, _⟩ := validateIdentifiers_eq_ok.mp h
  have hcount := toNat_ofNat_length (lt_of_le_of_lt hmax hsmall)
  have hnonempty : ¬(requireNonempty = true ∧ (UInt16.ofNat identifiers.length).toNat = 0) := by
    rintro ⟨hrequired, hzero⟩
    rw [hcount] at hzero
    exact hempty ⟨hrequired, List.isEmpty_iff.mpr (List.eq_nil_of_length_eq_zero hzero)⟩
  refine (payload_u16 _).bind (Codes.bind_lift (peerCheck_pos hnonempty)
    (Codes.bind_lift (peerCheck_pos ?_) ?_))
  · rw [hcount]
    exact Nat.not_lt.mpr hmax
  · rw [hcount]
    exact codes_many fun identifier _ => payload_array identifier

theorem unread_identifiers :
    PayloadUnreads (readIdentifiers max field requireNonempty) writeIdentifiers anyValue := by
  refine unread_u16.bind fun count _ => .check fun _ _ => .check fun _ _ => ?_
  refine ((unread_array 32).many count.toNat).mono fun identifiers hlength => ⟨?_, trivial⟩
  rw [hlength.1, UInt16.ofNat_toNat]

theorem total_identifiers : Total (readIdentifiers max field requireNonempty) :=
  (total_u16 _).bind fun _ => .check noPanic_peerCheck fun _ => .check noPanic_peerCheck fun _ =>
    (total_array _ 32).many _

theorem noPanic_validateIdentifiers {identifiers : List Bytes32} :
    NoPanic (validateIdentifiers identifiers max field requireNonempty) :=
  noPanic_peerCheck.bind fun _ _ => noPanic_peerCheck.bind fun _ _ => noPanic_peerCheck

end Identifiers

theorem payload_getHeaders {locator : List Bytes32} {u : Unit}
    (h : validateIdentifiers locator maxHeaderLocators "header locator" true = .ok u)
    (stop : Bytes32) :
    PayloadCodes (writeGetHeaders locator stop) readGetHeaders (locator, stop) :=
  (payload_identifiers (by decide) h).bind ((payload_array stop).map fun stop => (locator, stop))

theorem unread_getHeaders :
    PayloadUnreads readGetHeaders (fun request => writeGetHeaders request.1 request.2)
      anyValue := by
  refine unread_identifiers.bind fun _ _ => ?_
  exact (unread_array 32).map (fun _ => rfl) fun _ _ => ⟨rfl, trivial⟩

/-! ## Submission results -/

theorem fromByte_toByte (status : BlockSubmissionStatus) :
    BlockSubmissionStatus.fromByte status.toByte = .ok status := by
  cases status with
  | accepted => rfl
  | alreadyKnown => rfl
  | rejected => rfl

theorem toByte_of_fromByte {byte : UInt8} {status : BlockSubmissionStatus}
    (h : BlockSubmissionStatus.fromByte byte = .ok status) : status.toByte = byte := by
  rw [BlockSubmissionStatus.fromByte] at h
  split at h
  · next hbyte =>
      cases h
      exact hbyte.symm
  split at h
  · next hbyte =>
      cases h
      exact hbyte.symm
  split at h
  · next hbyte =>
      cases h
      exact hbyte.symm
  · cases h

theorem payload_submissionResult (result : BlockSubmissionResult) :
    PayloadCodes (writeSubmissionResult result) readSubmissionResult result :=
  (payload_array _).bind <| (payload_u8 _).bind <| Codes.bind_lift (fromByte_toByte _) <|
    (payload_u64 _).bind <| (payload_array result.peerTip).map fun peerTip =>
      { result with peerTip }

theorem unread_submissionResult :
    PayloadUnreads readSubmissionResult writeSubmissionResult anyValue := by
  refine (unread_array 32).bind fun _ _ => unread_u8.bind fun byte _ => .check fun status hstatus =>
    unread_u64.bind fun _ _ => ?_
  refine (unread_array 32).map (fun _ => rfl) fun _ _ => ?_
  exact ⟨rfl, congrArg Payload.u8 (toByte_of_fromByte hstatus), rfl, trivial⟩

theorem noPanic_fromByte (byte : UInt8) : NoPanic (BlockSubmissionStatus.fromByte byte) := by
  rw [BlockSubmissionStatus.fromByte]
  split
  · exact .ok
  split
  · exact .ok
  split
  · exact .ok
  · exact .fail

theorem total_submissionResult : Total readSubmissionResult :=
  (total_array _ 32).bind fun _ => (total_u8 _).bind fun byte => .check (noPanic_fromByte byte)
    fun _ => (total_u64 _).bind fun _ => (total_array _ 32).bind fun _ => .pure _

/-! ## Blocks and transactions -/

section Consensus

variable {P : Platform}

theorem fromWire_eq_ok {α : Type} {result : Outcome WireError α} {a : α} :
    fromWire result = .ok a ↔ result = .ok a := mapErr_eq_ok

theorem noPanic_fromWire {α : Type} {result : Outcome WireError α} (h : NoPanic result) :
    NoPanic (fromWire result) := by
  cases result with
  | ok a => exact .ok
  | error fault =>
      cases fault with
      | err e => exact .fail
      | panic => exact absurd rfl h

/-- The comparison behind the decoder never fails: the decoder is canonical. -/
theorem decodeCanonicalTransaction_iff {encoded : List UInt8} {networkId : Bytes32}
    {transaction : Transaction} :
    decodeCanonicalTransaction P encoded networkId = .ok transaction ↔
      transaction.networkId = networkId ∧ encodeTransaction P transaction = .ok encoded := by
  simp only [decodeCanonicalTransaction, bind_eq_ok, fromWire_eq_ok, peerCheck_eq_ok, pure_eq_ok,
    decodeTransaction_iff]
  constructor
  · rintro ⟨_, ⟨hnetwork, hencode⟩, _, _, _, _, rfl⟩
    exact ⟨hnetwork, hencode⟩
  · rintro ⟨hnetwork, hencode⟩
    exact ⟨transaction, ⟨hnetwork, hencode⟩, encoded, hencode, (), rfl, rfl⟩

theorem decodeCanonicalBlock_iff {payload : List UInt8} {networkId : Bytes32} {block : Block} :
    decodeCanonicalBlock P payload networkId = .ok block ↔
      block.challenge.networkId = networkId ∧ encodeBlock P block = .ok payload := by
  simp only [decodeCanonicalBlock, bind_eq_ok, fromWire_eq_ok, peerCheck_eq_ok, pure_eq_ok,
    decodeBlock_iff]
  constructor
  · rintro ⟨_, ⟨hnetwork, hencode⟩, _, _, _, _, rfl⟩
    exact ⟨hnetwork, hencode⟩
  · rintro ⟨hnetwork, hencode⟩
    exact ⟨block, ⟨hnetwork, hencode⟩, payload, hencode, (), rfl, rfl⟩

theorem noPanic_decodeCanonicalTransaction (encoded : List UInt8) (networkId : Bytes32) :
    NoPanic (decodeCanonicalTransaction P encoded networkId) := by
  refine (noPanic_fromWire ((canonical_transaction networkId).noPanic encoded)).bind
    fun transaction h => ?_
  obtain ⟨_, hencode⟩ := decodeTransaction_iff.mp (fromWire_eq_ok.mp h)
  rw [fromWire_eq_ok.mpr hencode, ok_bind]
  exact noPanic_peerCheck.bind fun _ _ => .ok

theorem noPanic_decodeCanonicalBlock (payload : List UInt8) (networkId : Bytes32) :
    NoPanic (decodeCanonicalBlock P payload networkId) := by
  refine (noPanic_fromWire ((canonical_block networkId).noPanic payload)).bind
    fun block h => ?_
  obtain ⟨_, hencode⟩ := decodeBlock_iff.mp (fromWire_eq_ok.mp h)
  rw [fromWire_eq_ok.mpr hencode, ok_bind]
  exact noPanic_peerCheck.bind fun _ _ => .ok

theorem length_encodeFrame {kind : UInt8} {networkId : Bytes32} {payload bytes : List UInt8}
    {maximum : Nat} {object : String}
    (h : encodeFrame P kind networkId payload maximum object = .ok bytes) :
    bytes.length = wireHeaderBytes + payload.length ∧ bytes.length ≤ maximum := by
  obtain ⟨hsize, word, _, rfl⟩ := encodeFrame_eq_ok.mp h
  have hheader : wireHeaderBytes = 16 := rfl
  simp only [List.length_append, List.length_cons, frameMagic, length_networkMagic,
    length_leBytes16, length_leBytes32, List.length_nil]
  omega

theorem length_encodeTransaction {transaction : Transaction} {bytes : List UInt8}
    (h : encodeTransaction P transaction = .ok bytes) : bytes.length ≤ maxTransactionBytes := by
  simp only [encodeTransaction, bind_eq_ok] at h
  obtain ⟨_, _, hframe⟩ := h
  exact (length_encodeFrame hframe).2

/-! ## Mining templates -/

theorem challengeOn_eq_ok {networkId : Bytes32} {challenge challenge' : BlockChallenge} :
    challengeOn networkId challenge = .ok challenge' ↔
      challenge.networkId = networkId ∧ challenge = challenge' := by
  simp only [challengeOn, bind_eq_ok, peerCheck_eq_ok, pure_eq_ok]
  exact ⟨fun ⟨_, hnetwork, h⟩ => ⟨hnetwork, h⟩, fun ⟨hnetwork, h⟩ => ⟨(), hnetwork, h⟩⟩

theorem payload_challenge (challenge : BlockChallenge) :
    PayloadCodes (encodeBlockChallenge challenge) (decodeBlockChallenge challenge.networkId)
      challenge :=
  (payload_array _).bind <| (payload_array _).bind <| (payload_array _).bind <|
    (payload_u64 _).bind <| (payload_u64 _).bind <|
    (payload_array challenge.target).finish (challengeOn_eq_ok.mpr ⟨rfl, rfl⟩)

theorem unread_challenge (networkId : Bytes32) :
    PayloadUnreads (decodeBlockChallenge networkId) encodeBlockChallenge anyValue := by
  refine (unread_array 32).bind fun _ _ => (unread_array 32).bind fun _ _ =>
    (unread_array 32).bind fun _ _ => unread_u64.bind fun _ _ => unread_u64.bind fun _ _ => ?_
  refine (unread_array 32).finish fun target challenge _ h => ?_
  obtain ⟨_, rfl⟩ := challengeOn_eq_ok.mp h
  exact ⟨rfl, rfl, rfl, rfl, rfl, rfl, trivial⟩

/-- What follows the tag of a lock. -/
def writeTemplateLock : OutputLock → PayloadWrite
  | .key owner => Payload.put owner.1
  | .inferenceChannel channelId => Payload.put channelId.1

theorem encodeTemplateOutput_eq : encodeTemplateOutput = (fun output => do
    Payload.u64 output.value
    Payload.u8 output.lock.tag
    writeTemplateLock output.lock
    Payload.u64 output.spendableHeight) := by
  funext output
  obtain ⟨value, lock, spendableHeight⟩ := output
  cases lock with
  | key => rfl
  | inferenceChannel => rfl

theorem payload_output (output : TxOutput) :
    PayloadCodes (encodeTemplateOutput output) decodeTemplateOutput output := by
  have hlock : ∀ lock : OutputLock,
      PayloadCodes (writeTemplateLock lock) (decodeTemplateLock lock.tag) lock := by
    intro lock
    cases lock with
    | key owner => exact (payload_array owner).map OutputLock.key
    | inferenceChannel channelId => exact (payload_array channelId).map OutputLock.inferenceChannel
  rw [encodeTemplateOutput_eq]
  exact (payload_u64 _).bind <| (payload_u8 _).bind <| (hlock _).bind <|
    (payload_u64 output.spendableHeight).map fun spendableHeight => { output with spendableHeight }

theorem unread_output : PayloadUnreads decodeTemplateOutput encodeTemplateOutput anyValue := by
  have hlock : ∀ tag, PayloadUnreads (decodeTemplateLock tag) writeTemplateLock
      fun lock => lock.tag = tag := by
    intro tag
    rw [decodeTemplateLock]
    split
    · next htag => exact (unread_array 32).map (fun _ => rfl) fun _ _ => htag.symm
    split
    · next htag => exact (unread_array 32).map (fun _ => rfl) fun _ _ => htag.symm
    · exact .fail
  rw [encodeTemplateOutput_eq]
  refine unread_u64.bind fun _ _ => unread_u8.bind fun tag _ => (hlock tag).bind fun lock htag => ?_
  exact unread_u64.map (fun _ => rfl) fun _ _ => ⟨rfl, congrArg Payload.u8 htag, rfl, trivial⟩

theorem total_templateOutput : Total decodeTemplateOutput := by
  refine (total_u64 _).bind fun _ => (total_u8 _).bind fun tag => Total.bind ?_ fun _ =>
    (total_u64 _).bind fun _ => .pure _
  rw [decodeTemplateLock]
  split
  · exact (total_array _ 32).bind fun _ => .pure _
  split
  · exact (total_array _ 32).bind fun _ => .pure _
  · exact .fail

theorem payloadLengthWord_eq_ok {length max : Nat} {word : UInt32} :
    payloadLengthWord length max = .ok word ↔ word.toNat = length := by
  rw [payloadLengthWord, okOr_eq_ok]
  constructor
  · intro h
    split at h
    · next hlt =>
        cases h
        rw [UInt32.toNat_ofNat', Nat.mod_eq_of_lt hlt]
    · cases h
  · rintro rfl
    rw [if_pos word.toNat_lt, UInt32.ofNat_toNat]

theorem payload_transaction {networkId : Bytes32} {transaction : Transaction}
    (h : transaction.networkId = networkId) :
    PayloadCodes (writeTemplateTransaction P transaction) (readTemplateTransaction P networkId)
      transaction := by
  refine Codes.lift_bind fun encoded hencode => Codes.lift_bind fun word hword => ?_
  have hencode := fromWire_eq_ok.mp hencode
  have hlength := payloadLengthWord_eq_ok.mp hword
  refine (payload_u32 word).bind (Codes.bind_lift (peerCheck_pos ?_) ?_)
  · rw [hlength]
    exact Nat.not_lt.mpr (length_encodeTransaction hencode)
  · rw [hlength]
    exact (Puts.codes payloadPuts (reads_bytes _ encoded)).finish
      (decodeCanonicalTransaction_iff.mpr ⟨h, hencode⟩)

theorem unread_transaction (networkId : Bytes32) :
    PayloadUnreads (readTemplateTransaction P networkId) (writeTemplateTransaction P) anyValue := by
  intro input transaction rest h
  obtain ⟨word, mid, bs, _, rfl, hlength, h⟩ := unread_u32.peel h
  obtain ⟨_, _, h⟩ := lift_bind_eq_ok.mp h
  obtain ⟨encoded, mid, bs', hencoded, rfl, hemits, h⟩ :=
    (Puts.unreads_bytes PeerError.truncated payloadPuts word.toNat).peel h
  obtain ⟨hdecode, rfl⟩ := lift_eq_ok.mp h
  obtain ⟨_, hencode⟩ := decodeCanonicalTransaction_iff.mp hdecode
  refine ⟨trivial, bs ++ bs', (List.append_assoc ..).symm, ?_⟩
  exact Emits.after (fromWire_eq_ok.mpr hencode) (Emits.after
    (payloadLengthWord_eq_ok.mpr hencoded.symm) (hlength.seq hemits))

theorem total_templateTransaction (networkId : Bytes32) :
    Total (readTemplateTransaction P networkId) :=
  (total_u32 _).bind fun _ => .check noPanic_peerCheck fun _ => (total_bytes _ _).bind fun encoded =>
    .lift (noPanic_decodeCanonicalTransaction encoded networkId)

theorem validateMiningTemplate_eq_ok {template : MiningTemplate} {networkId : Bytes32} {u : Unit} :
    validateMiningTemplate P template networkId = .ok u ↔
      template.challenge.networkId = networkId ∧
      template.coinbase.height = template.challenge.height ∧
      template.coinbase.outputs.length ≤ maxCoinbaseOutputs ∧
      template.transactions.length ≤ maxBlockTransactions ∧
      (∀ transaction ∈ template.transactions, transaction.networkId = networkId) ∧
      merkleRoot P (template.coinbase.commitment P networkId ::
        template.transactions.map (·.txid P)) = template.challenge.transactionRoot := by
  simp only [validateMiningTemplate, bind_eq_ok, peerCheck_eq_ok, Nat.not_lt]
  constructor
  · rintro ⟨_, h₁, _, h₂, _, h₃, _, h₄, _, h₅, h₆⟩
    exact ⟨h₁, h₂, h₃, h₄, h₅, h₆⟩
  · rintro ⟨h₁, h₂, h₃, h₄, h₅, h₆⟩
    exact ⟨(), h₁, (), h₂, (), h₃, (), h₄, (), h₅, h₆⟩

theorem payload_miningTemplate {template : MiningTemplate} {u : Unit}
    (h : validateMiningTemplate P template template.challenge.networkId = .ok u) :
    PayloadCodes (writeMiningTemplate P template)
      (readMiningTemplate P template.challenge.networkId) template := by
  obtain ⟨_, _, houtputs, hcount, htransactions, _⟩ := validateMiningTemplate_eq_ok.mp h
  have hsmall : maxCoinbaseOutputs < 2 ^ 8 ∧ maxBlockTransactions < 2 ^ 16 := by decide
  have hoctet : (UInt8.ofNat template.coinbase.outputs.length).toNat =
      template.coinbase.outputs.length := by
    rw [UInt8.toNat_ofNat', Nat.mod_eq_of_lt (by omega)]
  have hword := toNat_ofNat_length (lt_of_le_of_lt hcount hsmall.2)
  refine (payload_challenge _).bind <| (payload_u64 _).bind <| (payload_u8 _).bind <|
    Codes.bind_lift (peerCheck_pos ?_) ?_
  · rw [hoctet]
    exact Nat.not_lt.mpr houtputs
  rw [hoctet]
  refine (codes_many fun output _ => payload_output output).bind <| (payload_u16 _).bind <|
    Codes.bind_lift (peerCheck_pos ?_) ?_
  · rw [hword]
    exact Nat.not_lt.mpr hcount
  rw [hword]
  exact (codes_many fun transaction hmem => payload_transaction (htransactions transaction hmem)).map
    fun transactions => { template with transactions }

theorem unread_miningTemplate (networkId : Bytes32) :
    PayloadUnreads (readMiningTemplate P networkId) (writeMiningTemplate P) anyValue := by
  refine (unread_challenge networkId).bind fun _ _ => unread_u64.bind fun _ _ =>
    unread_u8.bind fun outputCount _ => .check fun _ _ =>
    (unread_output.many outputCount.toNat).bind fun outputs houtputs =>
    unread_u16.bind fun transactionCount _ => .check fun _ _ => ?_
  refine ((unread_transaction networkId).many transactionCount.toNat).map (fun _ => rfl)
    fun transactions htransactions => ?_
  refine ⟨?_, rfl, ?_, rfl, rfl, trivial⟩
  · rw [htransactions.1, UInt16.ofNat_toNat]
  · rw [houtputs.1, UInt8.ofNat_toNat]

theorem total_miningTemplate (networkId : Bytes32) : Total (readMiningTemplate P networkId) := by
  have hchallenge : Total (decodeBlockChallenge networkId) :=
    (total_array _ 32).bind fun _ => (total_array _ 32).bind fun _ => (total_array _ 32).bind fun _ =>
      (total_u64 _).bind fun _ => (total_u64 _).bind fun _ => (total_array _ 32).bind fun _ =>
      .lift (noPanic_peerCheck.bind fun _ _ => .ok)
  exact hchallenge.bind fun _ => (total_u64 _).bind fun _ => (total_u8 _).bind fun _ =>
    .check noPanic_peerCheck fun _ => (total_templateOutput.many _).bind fun _ =>
    (total_u16 _).bind fun _ => .check noPanic_peerCheck fun _ =>
    ((total_templateTransaction networkId).many _).bind fun _ => .pure _

theorem noPanic_validateMiningTemplate (template : MiningTemplate) (networkId : Bytes32) :
    NoPanic (validateMiningTemplate P template networkId) :=
  noPanic_peerCheck.bind fun _ _ => noPanic_peerCheck.bind fun _ _ => noPanic_peerCheck.bind
    fun _ _ => noPanic_peerCheck.bind fun _ _ => noPanic_peerCheck.bind fun _ _ => noPanic_peerCheck

theorem decodeMiningTemplate_iff {payload : List UInt8} {networkId : Bytes32}
    {template : MiningTemplate} :
    decodeMiningTemplate P payload networkId = .ok template ↔
      template.challenge.networkId = networkId ∧ encodeMiningTemplate P template = .ok payload := by
  simp only [decodeMiningTemplate, encodeMiningTemplate, bind_eq_ok, pure_eq_ok]
  constructor
  · rintro ⟨_, hrun, _, hvalid, rfl⟩
    obtain ⟨hnetwork, _⟩ := validateMiningTemplate_eq_ok.mp hvalid
    refine ⟨hnetwork, (), hnetwork ▸ hvalid, ?_⟩
    exact (build_of_run (unread_miningTemplate networkId) hrun).2
  · rintro ⟨rfl, _, hvalid, hbuild⟩
    exact ⟨template, run_build (payload_miningTemplate hvalid) hbuild, (), hvalid, rfl⟩

/-! ## Messages -/

/-- The identifier the decoder compares with the expected one, where a message
embeds one. -/
def PeerMessage.OnNetwork (networkId : Bytes32) : PeerMessage → Prop
  | .hello sent => sent.networkId = networkId
  | .block sent => sent.challenge.networkId = networkId
  | .submitBlock sent => sent.challenge.networkId = networkId
  | .transaction sent => sent.networkId = networkId
  | .miningTemplate sent => sent.challenge.networkId = networkId
  | _ => True

theorem run_array {n : Nat} {payload : List UInt8} {value : Bytes n} :
    PayloadReader.run (PayloadReader.array n) payload = .ok value ↔ payload = value.1 := by
  constructor
  · intro h
    obtain ⟨_, hbuild⟩ := build_of_run (unread_array n) h
    cases hbuild
    rfl
  · rintro rfl
    exact run_build (payload_array value) rfl

theorem encodeMessage_decode {kind : UInt8} {payload : List UInt8} {networkId : Bytes32}
    {message : PeerMessage} (h : decodeMessage P kind payload networkId = .ok message) :
    message.OnNetwork networkId ∧ encodeMessage P message = .ok (kind, payload) := by
  rw [decodeMessage] at h
  by_cases hkind : kind = PeerKind.hello
  · rw [if_pos hkind] at h
    simp only [bind_eq_ok, pure_eq_ok, peerCheck_eq_ok] at h
    obtain ⟨hello, hrun, _, hvalid, _, hnetwork, rfl⟩ := h
    obtain ⟨_, hbuild⟩ := build_of_run unread_hello hrun
    refine ⟨hnetwork, ?_⟩
    rw [encodeMessage, hvalid, ok_bind, hbuild, hkind]
    rfl
  rw [if_neg hkind] at h
  by_cases hkind : kind = PeerKind.getHeaders
  · rw [if_pos hkind] at h
    simp only [bind_eq_ok, pure_eq_ok] at h
    obtain ⟨⟨locator, stop⟩, hrun, _, hvalid, rfl⟩ := h
    obtain ⟨_, hbuild⟩ := build_of_run unread_getHeaders hrun
    refine ⟨trivial, ?_⟩
    rw [encodeMessage, hvalid, ok_bind, hbuild, hkind]
    rfl
  rw [if_neg hkind] at h
  by_cases hkind : kind = PeerKind.inventory
  · rw [if_pos hkind] at h
    simp only [bind_eq_ok, pure_eq_ok] at h
    obtain ⟨blockIds, hrun, _, hvalid, rfl⟩ := h
    obtain ⟨_, hbuild⟩ := build_of_run unread_identifiers hrun
    refine ⟨trivial, ?_⟩
    rw [encodeMessage, hvalid, ok_bind, hbuild, hkind]
    rfl
  rw [if_neg hkind] at h
  by_cases hkind : kind = PeerKind.getBlock
  · rw [if_pos hkind] at h
    simp only [bind_eq_ok, pure_eq_ok, run_array] at h
    obtain ⟨blockId, rfl, rfl⟩ := h
    refine ⟨trivial, ?_⟩
    rw [encodeMessage, hkind]
    rfl
  rw [if_neg hkind] at h
  by_cases hkind : kind = PeerKind.block
  · rw [if_pos hkind] at h
    simp only [bind_eq_ok, pure_eq_ok, decodeCanonicalBlock_iff] at h
    obtain ⟨block, ⟨hnetwork, hencode⟩, rfl⟩ := h
    refine ⟨hnetwork, ?_⟩
    rw [encodeMessage, fromWire_eq_ok.mpr hencode, hkind]
    rfl
  rw [if_neg hkind] at h
  by_cases hkind : kind = PeerKind.submitBlock
  · rw [if_pos hkind] at h
    simp only [bind_eq_ok, pure_eq_ok, decodeCanonicalBlock_iff] at h
    obtain ⟨block, ⟨hnetwork, hencode⟩, rfl⟩ := h
    refine ⟨hnetwork, ?_⟩
    rw [encodeMessage, fromWire_eq_ok.mpr hencode, hkind]
    rfl
  rw [if_neg hkind] at h
  by_cases hkind : kind = PeerKind.blockSubmissionResult
  · rw [if_pos hkind] at h
    simp only [bind_eq_ok, pure_eq_ok] at h
    obtain ⟨result, hrun, rfl⟩ := h
    obtain ⟨_, hbuild⟩ := build_of_run unread_submissionResult hrun
    refine ⟨trivial, ?_⟩
    rw [encodeMessage, hbuild, hkind]
    rfl
  rw [if_neg hkind] at h
  by_cases hkind : kind = PeerKind.getMempool
  · rw [if_pos hkind] at h
    simp only [bind_eq_ok, pure_eq_ok] at h
    obtain ⟨_, hrun, rfl⟩ := h
    have hempty : PayloadUnreads (pure ()) (fun _ => pure ()) anyValue := .pure Emits.done trivial
    obtain ⟨_, hbuild⟩ := build_of_run hempty hrun
    cases hbuild
    refine ⟨trivial, ?_⟩
    rw [encodeMessage, hkind]
    rfl
  rw [if_neg hkind] at h
  by_cases hkind : kind = PeerKind.transactionInventory
  · rw [if_pos hkind] at h
    simp only [bind_eq_ok, pure_eq_ok] at h
    obtain ⟨txids, hrun, _, hvalid, rfl⟩ := h
    obtain ⟨_, hbuild⟩ := build_of_run unread_identifiers hrun
    refine ⟨trivial, ?_⟩
    rw [encodeMessage, hvalid, ok_bind, hbuild, hkind]
    rfl
  rw [if_neg hkind] at h
  by_cases hkind : kind = PeerKind.getTransaction
  · rw [if_pos hkind] at h
    simp only [bind_eq_ok, pure_eq_ok, run_array] at h
    obtain ⟨txid, rfl, rfl⟩ := h
    refine ⟨trivial, ?_⟩
    rw [encodeMessage, hkind]
    rfl
  rw [if_neg hkind] at h
  by_cases hkind : kind = PeerKind.transaction
  · rw [if_pos hkind] at h
    simp only [bind_eq_ok, pure_eq_ok, decodeCanonicalTransaction_iff, peerCheck_eq_ok] at h
    obtain ⟨_, hlength, transaction, ⟨hnetwork, hencode⟩, rfl⟩ := h
    refine ⟨hnetwork, ?_⟩
    rw [encodeMessage, fromWire_eq_ok.mpr hencode, ok_bind, peerCheck_pos hlength, hkind]
    rfl
  rw [if_neg hkind] at h
  by_cases hkind : kind = PeerKind.getMiningTemplate
  · rw [if_pos hkind] at h
    simp only [bind_eq_ok, pure_eq_ok, run_array] at h
    obtain ⟨payout, rfl, rfl⟩ := h
    refine ⟨trivial, ?_⟩
    rw [encodeMessage, hkind]
    rfl
  rw [if_neg hkind] at h
  by_cases hkind : kind = PeerKind.miningTemplate
  · rw [if_pos hkind] at h
    simp only [bind_eq_ok, pure_eq_ok, decodeMiningTemplate_iff] at h
    obtain ⟨template, ⟨hnetwork, hencode⟩, rfl⟩ := h
    refine ⟨hnetwork, ?_⟩
    rw [encodeMessage, hencode, hkind]
    rfl
  rw [if_neg hkind] at h
  cases h

theorem decodeMessage_encode {kind : UInt8} {payload : List UInt8} {networkId : Bytes32}
    {message : PeerMessage} (hnetwork : message.OnNetwork networkId)
    (h : encodeMessage P message = .ok (kind, payload)) :
    decodeMessage P kind payload networkId = .ok message := by
  cases message with
  | hello hello =>
      simp only [encodeMessage, bind_eq_ok, pure_eq_ok, Prod.mk.injEq] at h
      obtain ⟨_, hvalid, _, hbuild, rfl, rfl⟩ := h
      exact bind_eq_ok.mpr ⟨hello, run_build (payload_hello hello) hbuild, bind_eq_ok.mpr
        ⟨(), hvalid, bind_eq_ok.mpr ⟨(), peerCheck_pos hnetwork, rfl⟩⟩⟩
  | getHeaders locator stop =>
      simp only [encodeMessage, bind_eq_ok, pure_eq_ok, Prod.mk.injEq] at h
      obtain ⟨_, hvalid, _, hbuild, rfl, rfl⟩ := h
      exact bind_eq_ok.mpr ⟨(locator, stop), run_build (payload_getHeaders hvalid stop) hbuild,
        bind_eq_ok.mpr ⟨(), hvalid, rfl⟩⟩
  | inventory blockIds =>
      simp only [encodeMessage, bind_eq_ok, pure_eq_ok, Prod.mk.injEq] at h
      obtain ⟨_, hvalid, _, hbuild, rfl, rfl⟩ := h
      exact bind_eq_ok.mpr ⟨blockIds, run_build (payload_identifiers (by decide) hvalid) hbuild,
        bind_eq_ok.mpr ⟨(), hvalid, rfl⟩⟩
  | getBlock blockId =>
      simp only [encodeMessage, pure_eq_ok, Prod.mk.injEq] at h
      obtain ⟨rfl, rfl⟩ := h
      exact bind_eq_ok.mpr ⟨blockId, run_array.mpr rfl, rfl⟩
  | block block =>
      simp only [encodeMessage, bind_eq_ok, pure_eq_ok, Prod.mk.injEq, fromWire_eq_ok] at h
      obtain ⟨_, hencode, rfl, rfl⟩ := h
      exact bind_eq_ok.mpr ⟨block, decodeCanonicalBlock_iff.mpr ⟨hnetwork, hencode⟩, rfl⟩
  | submitBlock block =>
      simp only [encodeMessage, bind_eq_ok, pure_eq_ok, Prod.mk.injEq, fromWire_eq_ok] at h
      obtain ⟨_, hencode, rfl, rfl⟩ := h
      exact bind_eq_ok.mpr ⟨block, decodeCanonicalBlock_iff.mpr ⟨hnetwork, hencode⟩, rfl⟩
  | blockSubmissionResult result =>
      simp only [encodeMessage, bind_eq_ok, pure_eq_ok, Prod.mk.injEq] at h
      obtain ⟨_, hbuild, rfl, rfl⟩ := h
      exact bind_eq_ok.mpr ⟨result, run_build (payload_submissionResult result) hbuild, rfl⟩
  | getMempool =>
      simp only [encodeMessage, pure_eq_ok, Prod.mk.injEq] at h
      obtain ⟨rfl, rfl⟩ := h
      exact bind_eq_ok.mpr ⟨(), rfl, rfl⟩
  | transactionInventory txids =>
      simp only [encodeMessage, bind_eq_ok, pure_eq_ok, Prod.mk.injEq] at h
      obtain ⟨_, hvalid, _, hbuild, rfl, rfl⟩ := h
      exact bind_eq_ok.mpr ⟨txids, run_build (payload_identifiers (by decide) hvalid) hbuild,
        bind_eq_ok.mpr ⟨(), hvalid, rfl⟩⟩
  | getTransaction txid =>
      simp only [encodeMessage, pure_eq_ok, Prod.mk.injEq] at h
      obtain ⟨rfl, rfl⟩ := h
      exact bind_eq_ok.mpr ⟨txid, run_array.mpr rfl, rfl⟩
  | transaction transaction =>
      simp only [encodeMessage, bind_eq_ok, pure_eq_ok, Prod.mk.injEq, fromWire_eq_ok,
        peerCheck_eq_ok] at h
      obtain ⟨_, hencode, _, hlength, rfl, rfl⟩ := h
      exact bind_eq_ok.mpr ⟨(), peerCheck_pos hlength, bind_eq_ok.mpr ⟨transaction,
        decodeCanonicalTransaction_iff.mpr ⟨hnetwork, hencode⟩, rfl⟩⟩
  | getMiningTemplate payout =>
      simp only [encodeMessage, pure_eq_ok, Prod.mk.injEq] at h
      obtain ⟨rfl, rfl⟩ := h
      exact bind_eq_ok.mpr ⟨payout, run_array.mpr rfl, rfl⟩
  | miningTemplate template =>
      simp only [encodeMessage, bind_eq_ok, pure_eq_ok, Prod.mk.injEq] at h
      obtain ⟨_, hencode, rfl, rfl⟩ := h
      exact bind_eq_ok.mpr ⟨template, decodeMiningTemplate_iff.mpr ⟨hnetwork, hencode⟩, rfl⟩

theorem noPanic_decodeMessage (kind : UInt8) (payload : List UInt8) (networkId : Bytes32) :
    NoPanic (decodeMessage P kind payload networkId) := by
  rw [decodeMessage]
  by_cases hkind : kind = PeerKind.hello
  · rw [if_pos hkind]
    exact (noPanic_payload total_hello payload).bind fun _ _ => noPanic_peerCheck.bind fun _ _ =>
      noPanic_peerCheck.bind fun _ _ => .ok
  rw [if_neg hkind]
  by_cases hkind : kind = PeerKind.getHeaders
  · rw [if_pos hkind]
    have hread : Total readGetHeaders :=
      total_identifiers.bind fun _ => (total_array _ 32).bind fun _ => .pure _
    exact (noPanic_payload hread payload).bind fun _ _ => noPanic_validateIdentifiers.bind
      fun _ _ => .ok
  rw [if_neg hkind]
  by_cases hkind : kind = PeerKind.inventory
  · rw [if_pos hkind]
    exact (noPanic_payload total_identifiers payload).bind fun _ _ =>
      noPanic_validateIdentifiers.bind fun _ _ => .ok
  rw [if_neg hkind]
  by_cases hkind : kind = PeerKind.getBlock
  · rw [if_pos hkind]
    exact (noPanic_payload (total_array _ 32) payload).bind fun _ _ => .ok
  rw [if_neg hkind]
  by_cases hkind : kind = PeerKind.block
  · rw [if_pos hkind]
    exact (noPanic_decodeCanonicalBlock payload networkId).bind fun _ _ => .ok
  rw [if_neg hkind]
  by_cases hkind : kind = PeerKind.submitBlock
  · rw [if_pos hkind]
    exact (noPanic_decodeCanonicalBlock payload networkId).bind fun _ _ => .ok
  rw [if_neg hkind]
  by_cases hkind : kind = PeerKind.blockSubmissionResult
  · rw [if_pos hkind]
    exact (noPanic_payload total_submissionResult payload).bind fun _ _ => .ok
  rw [if_neg hkind]
  by_cases hkind : kind = PeerKind.getMempool
  · rw [if_pos hkind]
    exact (noPanic_payload (.pure ()) payload).bind fun _ _ => .ok
  rw [if_neg hkind]
  by_cases hkind : kind = PeerKind.transactionInventory
  · rw [if_pos hkind]
    exact (noPanic_payload total_identifiers payload).bind fun _ _ =>
      noPanic_validateIdentifiers.bind fun _ _ => .ok
  rw [if_neg hkind]
  by_cases hkind : kind = PeerKind.getTransaction
  · rw [if_pos hkind]
    exact (noPanic_payload (total_array _ 32) payload).bind fun _ _ => .ok
  rw [if_neg hkind]
  by_cases hkind : kind = PeerKind.transaction
  · rw [if_pos hkind]
    exact noPanic_peerCheck.bind fun _ _ =>
      (noPanic_decodeCanonicalTransaction payload networkId).bind fun _ _ => .ok
  rw [if_neg hkind]
  by_cases hkind : kind = PeerKind.getMiningTemplate
  · rw [if_pos hkind]
    exact (noPanic_payload (total_array _ 32) payload).bind fun _ _ => .ok
  rw [if_neg hkind]
  by_cases hkind : kind = PeerKind.miningTemplate
  · rw [if_pos hkind]
    exact ((noPanic_payload (total_miningTemplate networkId) payload).bind fun template _ =>
      (noPanic_validateMiningTemplate template networkId).bind fun _ _ => .ok).bind fun _ _ => .ok
  rw [if_neg hkind]
  exact .fail

/-! ## Frames -/

/-- A frame, cut where `decode_peer_frame` cuts it. -/
structure PeerFrameParts (bytes : List UInt8) where
  magic : Bytes 4
  version : Bytes 2
  kind : UInt8
  flags : UInt8
  sequence : Bytes 8
  length : Bytes 4
  payload : List UInt8
  eq : bytes = magic.1 ++ (version.1 ++ kind :: flags :: (sequence.1 ++ (length.1 ++ payload)))

theorem PeerFrameParts.length_eq {bytes : List UInt8} (parts : PeerFrameParts bytes) :
    bytes.length = peerFrameHeaderBytes + parts.payload.length := by
  have hheader : peerFrameHeaderBytes = 20 := rfl
  have hlength := congrArg List.length parts.eq
  simp only [List.length_append, List.length_cons, parts.magic.2, parts.version.2,
    parts.sequence.2, parts.length.2] at hlength
  omega

/-- What has room for a header has one. -/
theorem exists_peerFrameParts {bytes : List UInt8} (h : peerFrameHeaderBytes ≤ bytes.length) :
    Nonempty (PeerFrameParts bytes) := by
  have hheader : peerFrameHeaderBytes = 20 := rfl
  obtain ⟨magic, rest, rfl, hrest⟩ := exists_array_append bytes 4 (by omega)
  obtain ⟨version, rest, rfl, hrest⟩ := exists_array_append rest 2 (by omega)
  cases rest with
  | nil => simp only [List.length_nil] at *; omega
  | cons kind rest =>
      cases rest with
      | nil => simp only [List.length_cons, List.length_nil] at *; omega
      | cons flags rest =>
          simp only [List.length_cons] at *
          obtain ⟨sequence, rest, rfl, hrest⟩ :=
            exists_array_append rest 8 (by omega)
          obtain ⟨length, payload, rfl, _⟩ :=
            exists_array_append rest 4 (by omega)
          exact ⟨⟨magic, version, kind, flags, sequence, length, payload, rfl⟩⟩

/-- Where the parts of a frame are found. -/
theorem PeerFrameParts.reads {bytes : List UInt8} (parts : PeerFrameParts bytes) :
    (sliceAt bytes 0 4 : Outcome PeerError _) = .ok parts.magic.1 ∧
      (sliceAt bytes 4 6 : Outcome PeerError _) = .ok parts.version.1 ∧
      (byteAt bytes 6 : Outcome PeerError _) = .ok parts.kind ∧
      (byteAt bytes 7 : Outcome PeerError _) = .ok parts.flags ∧
      (sliceAt bytes 8 16 : Outcome PeerError _) = .ok parts.sequence.1 ∧
      (sliceAt bytes 16 20 : Outcome PeerError _) = .ok parts.length.1 ∧
      (sliceAt bytes 20 bytes.length : Outcome PeerError _) = .ok parts.payload := by
  have hlength := parts.length_eq
  have hheader : peerFrameHeaderBytes = 20 := rfl
  obtain ⟨magic, version, kind, flags, sequence, length, payload, hbytes⟩ := parts
  -- the string, cut before the field that is looked at
  have h7 : bytes = (magic.1 ++ version.1 ++ [kind]) ++
      flags :: (sequence.1 ++ (length.1 ++ payload)) := by
    rw [hbytes]
    simp only [List.append_assoc, List.cons_append, List.nil_append]
  have h8 : bytes = (magic.1 ++ version.1 ++ [kind, flags]) ++
      (sequence.1 ++ (length.1 ++ payload)) := by
    rw [hbytes]
    simp only [List.append_assoc, List.cons_append, List.nil_append]
  have h16 : bytes = (magic.1 ++ version.1 ++ [kind, flags] ++ sequence.1) ++
      (length.1 ++ payload) := by
    rw [h8]
    simp only [List.append_assoc]
  have h20 : bytes = (magic.1 ++ version.1 ++ [kind, flags] ++ sequence.1 ++ length.1) ++
      (payload ++ []) := by
    rw [h16]
    simp only [List.append_assoc, List.append_nil]
  simp only at hlength ⊢
  refine ⟨?_, ?_, ?_, ?_, ?_, ?_, ?_⟩
  · rw [hbytes]
    exact sliceAt_append (List.length_nil) (by rw [magic.2])
  · rw [hbytes]
    exact sliceAt_append magic.2 (by rw [version.2])
  · rw [hbytes, ← List.append_assoc]
    exact byteAt_append (by rw [List.length_append, magic.2, version.2])
  · rw [h7]
    exact byteAt_append (by simp [magic.2, version.2])
  · rw [h8]
    exact sliceAt_append (by simp [magic.2, version.2]) (by rw [sequence.2])
  · rw [h16]
    exact sliceAt_append (by simp [magic.2, version.2, sequence.2]) (by rw [length.2])
  · rw [hlength, h20]
    exact sliceAt_append (by simp [magic.2, version.2, sequence.2, length.2]) (by rw [hheader])

theorem toArray_self {n : Nat} (value : Bytes n) :
    (toArray n value.1 : Outcome PeerError _) = .ok value := dif_pos value.2

/-- The checks of `decode_peer_frame` on the parts of a frame. -/
theorem decodePeerFrame_eq_ok {bytes : List UInt8} (parts : PeerFrameParts bytes)
    {networkId : Bytes32} {frame : PeerFrame} :
    decodePeerFrame P bytes networkId = .ok frame ↔
      parts.magic.1 = peerMagic ∧ UInt16.ofNat (ofLe parts.version.1) = peerProtocolVersion ∧
      parts.flags = 0 ∧ ofLe parts.length.1 ≤ payloadLimitOf parts.kind ∧
      ofLe parts.length.1 = parts.payload.length ∧
      decodeMessage P parts.kind parts.payload networkId = .ok frame.message ∧
      UInt64.ofNat (ofLe parts.sequence.1) = frame.sequence := by
  have hheader : peerFrameHeaderBytes = 20 := rfl
  have hlength := parts.length_eq
  obtain ⟨h0, h4, h6, h7, h8, h16, h20⟩ := parts.reads
  simp only [decodePeerFrame, h0, h4, h6, h7, h8, h16, hheader, h20, toArray_self, ok_bind,
    bind_eq_ok, peerCheck_eq_ok, pure_eq_ok]
  obtain ⟨sequence, message⟩ := frame
  constructor
  · rintro ⟨_, _, _, hmagic, _, hversion, _, hflags, _, hlimit, _, hle, _, hge, _, hmessage, hframe⟩
    obtain ⟨rfl, rfl⟩ := PeerFrame.mk.inj hframe
    exact ⟨hmagic, hversion, hflags, by omega, by omega, hmessage, rfl⟩
  · rintro ⟨hmagic, hversion, hflags, hlimit, hlen, hmessage, rfl⟩
    exact ⟨(), by omega, (), hmagic, (), hversion, (), hflags, (), by omega, (), by omega, (),
      by omega, message, hmessage, rfl⟩

/-- The bytes that `encode_peer_frame` writes. -/
theorem encodePeerFrame_eq_ok {frame : PeerFrame} {bytes : List UInt8} :
    encodePeerFrame P frame = .ok bytes ↔ ∃ kind payload, ∃ word : UInt32,
      encodeMessage P frame.message = .ok (kind, payload) ∧
      payload.length ≤ maxPeerPayloadBytes ∧ word.toNat = payload.length ∧
      bytes = peerMagic ++ (leBytes16 peerProtocolVersion ++ kind :: 0 ::
        (leBytes64 frame.sequence ++ (leBytes32 word ++ payload))) := by
  simp only [encodePeerFrame, bind_eq_ok, peerCheck_eq_ok, pure_eq_ok, payloadLengthWord_eq_ok,
    List.append_assoc, List.cons_append, List.nil_append, Prod.exists, Nat.not_lt]
  constructor
  · rintro ⟨kind, payload, hmessage, _, hle, word, hword, rfl⟩
    exact ⟨kind, payload, word, hmessage, hle, hword, rfl⟩
  · rintro ⟨kind, payload, word, hmessage, hle, hword, rfl⟩
    exact ⟨kind, payload, hmessage, (), hle, word, hword, rfl⟩

/-- A frame is a header and a bounded payload. -/
theorem length_encodePeerFrame {frame : PeerFrame} {bytes : List UInt8}
    (h : encodePeerFrame P frame = .ok bytes) :
    bytes.length ≤ peerFrameHeaderBytes + maxPeerPayloadBytes := by
  obtain ⟨kind, payload, word, _, hle, _, rfl⟩ := encodePeerFrame_eq_ok.mp h
  have hmagic : peerMagic.length = 4 := rfl
  have hheader : peerFrameHeaderBytes = 20 := rfl
  simp only [List.length_append, List.length_cons, hmagic, length_leBytes16, length_leBytes32,
    length_leBytes64]
  omega

/-- What is encoded keeps the limit of its kind. -/
theorem payload_le_limit {message : PeerMessage} {kind : UInt8} {payload : List UInt8}
    (h : encodeMessage P message = .ok (kind, payload))
    (hle : payload.length ≤ maxPeerPayloadBytes) : payload.length ≤ payloadLimitOf kind := by
  rw [payloadLimitOf]
  split
  · next hkind =>
      -- only a transaction is sent under the kind of transactions
      cases message with
      | transaction transaction =>
          simp only [encodeMessage, bind_eq_ok, peerCheck_eq_ok, pure_eq_ok, Prod.mk.injEq] at h
          obtain ⟨_, _, _, hlength, _, rfl⟩ := h
          exact Nat.not_lt.mp hlength
      | _ =>
          simp only [encodeMessage, bind_eq_ok, pure_eq_ok, Prod.mk.injEq] at h
          grind [PeerKind.hello, PeerKind.getHeaders, PeerKind.inventory, PeerKind.getBlock,
            PeerKind.block, PeerKind.getMempool, PeerKind.transactionInventory,
            PeerKind.getTransaction, PeerKind.transaction, PeerKind.submitBlock,
            PeerKind.blockSubmissionResult, PeerKind.getMiningTemplate, PeerKind.miningTemplate]
  · exact hle

theorem payloadLimitOf_le (kind : UInt8) : payloadLimitOf kind ≤ maxPeerPayloadBytes := by
  rw [payloadLimitOf]
  split
  · exact Nat.le_of_ble_eq_true rfl
  · exact le_rfl

theorem decodePeerFrame_iff {frame : PeerFrame} {bytes : List UInt8} {networkId : Bytes32} :
    decodePeerFrame P bytes networkId = .ok frame ↔
      frame.message.OnNetwork networkId ∧ encodePeerFrame P frame = .ok bytes := by
  constructor
  · intro h
    have hroom : peerFrameHeaderBytes ≤ bytes.length := by
      simp only [decodePeerFrame, bind_eq_ok, peerCheck_eq_ok] at h
      exact Nat.not_lt.mp h.choose_spec.1
    obtain ⟨parts⟩ := exists_peerFrameParts hroom
    obtain ⟨hmagic, hversion, hflags, hlimit, hlength, hmessage, hsequence⟩ :=
      (decodePeerFrame_eq_ok parts).mp h
    obtain ⟨hnetwork, hencode⟩ := encodeMessage_decode hmessage
    refine ⟨hnetwork, encodePeerFrame_eq_ok.mpr ⟨parts.kind, parts.payload,
      UInt32.ofNat (ofLe parts.length.1), hencode, ?_, ?_, ?_⟩⟩
    · rw [← hlength]
      exact hlimit.trans (payloadLimitOf_le parts.kind)
    · have hlt := ofLe_lt parts.length.1
      rw [parts.length.2, show 256 ^ 4 = 2 ^ 32 from by decide] at hlt
      rw [UInt32.toNat_ofNat', Nat.mod_eq_of_lt hlt, hlength]
    · rw [leBytes32_ofLe, ← hsequence, leBytes64_ofLe, ← hversion, leBytes16_ofLe, ← hmagic,
        ← hflags]
      exact parts.eq
  · rintro ⟨hnetwork, h⟩
    obtain ⟨kind, payload, word, hmessage, hle, hword, rfl⟩ := encodePeerFrame_eq_ok.mp h
    let parts : PeerFrameParts _ := ⟨⟨peerMagic, rfl⟩, ⟨_, length_leBytes16 peerProtocolVersion⟩,
      kind, 0, ⟨_, length_leBytes64 frame.sequence⟩, ⟨_, length_leBytes32 word⟩, payload, rfl⟩
    have hlength : ofLe parts.length.1 = payload.length := (ofLe_leBytes32 word).trans hword
    refine (decodePeerFrame_eq_ok parts).mpr ⟨rfl, rfl, rfl, ?_, hlength,
      decodeMessage_encode hnetwork hmessage, ?_⟩
    · rw [hlength]
      exact payload_le_limit hmessage hle
    · show UInt64.ofNat (ofLe (leBytes64 frame.sequence)) = frame.sequence
      rw [ofLe_leBytes64, UInt64.ofNat_toNat]

/-- The length in the header leaves no room for a longer frame. -/
theorem decodePeerFrame_prefix {bytes extra : List UInt8} {networkId : Bytes32}
    {frame frame' : PeerFrame} (h : decodePeerFrame P bytes networkId = .ok frame)
    (h' : decodePeerFrame P (bytes ++ extra) networkId = .ok frame') : extra = [] := by
  obtain ⟨kind, payload, word, _, _, hword, hbytes⟩ :=
    encodePeerFrame_eq_ok.mp (decodePeerFrame_iff.mp h).2
  obtain ⟨kind', payload', word', _, _, hword', hbytes'⟩ :=
    encodePeerFrame_eq_ok.mp (decodePeerFrame_iff.mp h').2
  rw [hbytes] at hbytes'
  simp only [List.append_assoc, List.cons_append] at hbytes'
  have htail := List.append_cancel_left (List.append_cancel_left hbytes')
  obtain ⟨_, htail⟩ := List.cons.inj htail
  obtain ⟨_, htail⟩ := List.cons.inj htail
  obtain ⟨_, htail⟩ := List.append_inj htail (by rw [length_leBytes64, length_leBytes64])
  obtain ⟨hsame, hrest⟩ := List.append_inj htail (by rw [length_leBytes32, length_leBytes32])
  have hle := congrArg ofLe hsame
  rw [ofLe_leBytes32, ofLe_leBytes32, hword, hword', ← hrest, List.length_append] at hle
  exact List.eq_nil_of_length_eq_zero (by omega)

theorem noPanic_decodePeerFrame (bytes : List UInt8) (networkId : Bytes32) :
    NoPanic (decodePeerFrame P bytes networkId) := by
  refine noPanic_peerCheck.bind fun _ hroom => ?_
  obtain ⟨parts⟩ := exists_peerFrameParts (Nat.not_lt.mp (peerCheck_eq_ok.mp hroom))
  have hheader : peerFrameHeaderBytes = 20 := rfl
  obtain ⟨h0, h4, h6, h7, h8, h16, h20⟩ := parts.reads
  simp only [h0, h4, h6, h7, h8, h16, hheader, h20, toArray_self, ok_bind]
  exact noPanic_peerCheck.bind fun _ _ => noPanic_peerCheck.bind fun _ _ => noPanic_peerCheck.bind
    fun _ _ => noPanic_peerCheck.bind fun _ _ => noPanic_peerCheck.bind fun _ _ =>
    noPanic_peerCheck.bind fun _ _ => (noPanic_decodeMessage _ _ networkId).bind fun _ _ => .ok

end Consensus

/-- Peer frames have canonical encodings: under a network identifier, the decoder
accepts exactly the frames the encoder makes, with the same sequence number and
message, nothing that extends or shortens one, and it never aborts. -/
theorem canonical_peerFrame (P : Platform) (networkId : Bytes32) :
    Canonical (fun frame bytes =>
        frame.message.OnNetwork networkId ∧ encodePeerFrame P frame = .ok bytes)
      (fun bytes => decodePeerFrame P bytes networkId) :=
  .of_no_extension (fun _ _ => decodePeerFrame_iff)
    (fun _ _ _ h h' => Except.ok.inj (h.2.symm.trans h'.2))
    (fun bytes => noPanic_decodePeerFrame bytes networkId)
    fun _ _ _ _ h h' => decodePeerFrame_prefix h h'

end CommonFoundry
