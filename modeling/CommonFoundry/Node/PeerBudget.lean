/-
# `CommonFoundry.Node.PeerBudget` — a session fits into its own budget

A peer connection counts the messages and the bytes of both directions and gives up beyond its
limits.  No session that a node or a thin miner opens gets there under the default limits,
whatever its peer answers (`sessions_within_budget`): the budget never fails at a frame that the
program sends, nor at any frame that the header check lets through while it waits for an answer.

The bytes of a frame are bounded by its kind.  One answer of the wrong kind may be as long as any
frame, but it is the last.
-/
import CommonFoundry.Node.PeerNetwork

namespace CommonFoundry

open Lib Lib.Outcome

/-! ## How long a frame is -/

/-- No payload of the kind is longer. -/
def PeerMessage.payloadBound : PeerMessage → Nat
  | .getBlock _ | .getTransaction _ | .getMiningTemplate _ => 32
  | .getMempool => 0
  | .blockSubmissionResult _ => 73
  | .transaction _ => maxTransactionBytes
  | _ => maxPeerPayloadBytes

theorem PeerMessage.payloadBound_le (message : PeerMessage) :
    message.payloadBound ≤ maxPeerPayloadBytes := by
  have hhash : 32 ≤ maxPeerPayloadBytes := by decide
  have hresult : 73 ≤ maxPeerPayloadBytes := by decide
  have htransaction : maxTransactionBytes ≤ maxPeerPayloadBytes := by decide
  cases message with
  | getBlock | getTransaction | getMiningTemplate => exact hhash
  | getMempool => exact Nat.zero_le _
  | blockSubmissionResult => exact hresult
  | transaction => exact htransaction
  | _ => exact Nat.le_refl _

section

variable {P : Platform} {message : PeerMessage} {session session' : PeerSession}

theorem length_writeSubmissionResult {result : BlockSubmissionResult} {payload : List UInt8}
    (h : Payload.build (writeSubmissionResult result) = .ok payload) : payload.length = 73 := by
  cases h
  simp [length_leBytes64, result.blockId.2, result.peerTip.2]

theorem length_payload_le {kind : UInt8} {payload : List UInt8}
    (h : encodeMessage P message = .ok (kind, payload))
    (hle : payload.length ≤ maxPeerPayloadBytes) : payload.length ≤ message.payloadBound := by
  cases message with
  | getBlock id | getTransaction id | getMiningTemplate id =>
      cases h
      exact id.2.le
  | getMempool =>
      cases h
      exact Nat.le_refl 0
  | blockSubmissionResult result =>
      simp only [encodeMessage, bind_eq_ok, pure_eq_ok, Prod.mk.injEq] at h
      obtain ⟨_, hbuild, _, rfl⟩ := h
      exact (length_writeSubmissionResult hbuild).le
  | transaction transaction =>
      simp only [encodeMessage, bind_eq_ok, peerCheck_eq_ok, pure_eq_ok, Prod.mk.injEq] at h
      obtain ⟨_, _, _, hlength, _, rfl⟩ := h
      exact Nat.not_lt.mp hlength
  | _ => exact hle

theorem length_frame_le {frame : PeerFrame} {bytes : List UInt8}
    (h : encodePeerFrame P frame = .ok bytes) :
    bytes.length ≤ peerFrameHeaderBytes + frame.message.payloadBound := by
  obtain ⟨kind, payload, word, hmessage, hle, hword, rfl⟩ := encodePeerFrame_eq_ok.mp h
  have hpayload := length_payload_le hmessage hle
  have hmagic : peerMagic.length = 4 := rfl
  have hheader : peerFrameHeaderBytes = 20 := rfl
  simp only [List.length_append, List.length_cons, hmagic, length_leBytes16, length_leBytes32,
    length_leBytes64]
  omega

end

/-! ## Exchanges -/

/-- The budget of a session carries a message and whatever frame is the answer. -/
structure ExchangeFits (P : Platform) (message : PeerMessage) (session : PeerSession)
    (after : Outcome ConnectionError PeerMessage → Option PeerSession → Prop) : Prop where
  send : ∀ bytes, encodePeerFrame P { sequence := session.nextOutboundSequence, message } =
    .ok bytes → session.ensureBudget bytes.length = .ok ()
  wait : ∀ bytes session', Method.call (PeerSession.encodeOutbound P message) session =
    (.ok bytes, session') → ∀ length ≤ maxPeerPayloadBytes,
      session'.ensureBudget (peerFrameHeaderBytes + length) = .ok ()
  receive : ∀ bytes session' stream answer connection,
    Method.call (PeerSession.encodeOutbound P message) session = (.ok bytes, session') →
    Method.call (PeerConnection.receive P) { stream, session := session' } =
      (.ok answer, connection) → after (.ok answer) (some connection.session)

/-- A session that opens a connection starts with the budget of the defaults; without a connection
nothing is sent.  A connection that fails is given up. -/
def PeerCall.Fits (P : Platform) (call : PeerCall) (session : Option PeerSession)
    (after : Outcome ConnectionError PeerMessage → Option PeerSession → Prop) : Prop :=
  (∀ fault, after (.error fault) none) ∧
    match call, session with
    | .connect hello, _ => ∀ session, PeerSession.new hello .default = .ok session →
        ExchangeFits P (.hello hello) session after
    | .send message, some session => ExchangeFits P message session after
    | .send _, none => False

/-- No message of a session, and no answer that it waits for, is over the budget. -/
def WithinBudget {R : Type} (P : Platform) (Post : R → Option PeerSession → Prop)
    (talk : PeerTalk R) (session : Option PeerSession) : Prop :=
  talk.Within (PeerCall.Fits P) Post session

/-- Room for so many messages and bytes, and for one frame more. -/
structure PeerSession.Room (messages bytes : Nat) (session : PeerSession) : Prop where
  limits : session.limits = .default
  messages : session.messagesUsed.toNat + messages ≤ 512
  bytes : session.bytesUsed.toNat + bytes + (peerFrameHeaderBytes + maxPeerPayloadBytes) ≤
    32 * 1024 * 1024

/-- What a frame of this kind takes from the budget at most. -/
def PeerMessage.frameBound (message : PeerMessage) : Nat :=
  peerFrameHeaderBytes + message.payloadBound

section

variable {P : Platform} {session session' : PeerSession} {message answer : PeerMessage}
  {messages bytes count : Nat}

theorem PeerSession.Room.ensureBudget (h : session.Room (messages + 1) bytes)
    (hcount : count ≤ bytes + (peerFrameHeaderBytes + maxPeerPayloadBytes)) :
    session.ensureBudget count = .ok () := by
  have hmessages := h.messages
  have hbytes := h.bytes
  rw [PeerSession.ensureBudget_eq_ok, h.limits]
  have hword : (UInt64.ofNat count).toNat ≤ count := Nat.mod_le _ _
  have hmax : PeerLimits.default.maxMessagesPerPeer.toNat = 512 := rfl
  have hmax' : PeerLimits.default.maxBytesPerPeer.toNat = 32 * 1024 * 1024 := rfl
  omega

theorem PeerSession.Room.charged (h : session.Room (messages + 1) (count + bytes))
    (hword : (UInt64.ofNat count).toNat = count) :
    (session.charged count).Room messages bytes := by
  obtain ⟨hmessages, hbytes⟩ :=
    PeerSession.toNat_charged (h.ensureBudget (Nat.le_add_right_of_le (Nat.le_add_right _ _))) hword
  have hroom := h.messages
  have hroom' := h.bytes
  exact ⟨h.limits, by omega, by omega⟩

theorem PeerSession.Room.mono {messages' bytes' : Nat} (h : session.Room messages bytes)
    (hmessages : messages' ≤ messages) (hbytes : bytes' ≤ bytes) :
    session.Room messages' bytes' := by
  have hroom := h.messages
  have hroom' := h.bytes
  exact ⟨h.limits, by omega, by omega⟩

theorem PeerSession.Room.sent (h : session.Room (messages + 1) (message.frameBound + bytes))
    {frame : List UInt8}
    (hcall : Method.call (PeerSession.encodeOutbound P message) session = (.ok frame, session')) :
    session'.Room messages bytes := by
  obtain ⟨-, hencode, -, next, -, rfl⟩ := PeerSession.encodeOutbound_eq_ok.mp hcall
  have hlength := length_frame_le hencode
  have hroom := (h.mono (Nat.le_refl _) (Nat.add_le_add_right hlength bytes)).charged
    (PeerSession.toNat_length_of_encode hencode)
  exact ⟨hroom.limits, hroom.messages, hroom.bytes⟩

theorem PeerSession.Room.received (h : session.Room (messages + 1) (answer.frameBound + bytes))
    {stream : InterruptedReader ConnectionError} {connection : PeerConnection}
    (hcall : Method.call (PeerConnection.receive P) { stream, session } =
      (.ok answer, connection)) :
    connection.session.Room messages bytes := by
  obtain ⟨frame, -, haccept⟩ := receive_eq_ok hcall
  obtain ⟨-, hdecode, -, next, -, hsession⟩ := PeerSession.acceptInbound_eq_ok.mp haccept
  have hlength := length_frame_le (decodePeerFrame_iff.mp hdecode).2
  have hroom := (h.mono (Nat.le_refl _) (Nat.add_le_add_right hlength bytes)).charged
    (PeerSession.toNat_length_of_decode hdecode)
  rw [hsession, PeerSession.afterReceived]
  cases answer <;> exact ⟨hroom.limits, hroom.messages, hroom.bytes⟩

/-- An answer that is not longer than expected leaves room; of any other nothing is known. -/
theorem PeerSession.Room.exchange {answerBound : Nat}
    (h : session.Room (messages + 2)
      (message.frameBound + (peerFrameHeaderBytes + answerBound + bytes)))
    {after : Outcome ConnectionError PeerMessage → Option PeerSession → Prop}
    (hexpected : ∀ answer session', answer.payloadBound ≤ answerBound →
      session'.Room messages bytes → after (.ok answer) (some session'))
    (hother : ∀ answer session', answerBound < answer.payloadBound →
      after (.ok answer) (some session')) :
    ExchangeFits P message session after where
  send encoded hencode := by
    have hlength : encoded.length ≤ message.frameBound := length_frame_le hencode
    exact h.ensureBudget (by omega)
  wait encoded session' hcall length hle := (h.sent hcall).ensureBudget (by omega)
  receive encoded session' stream answer connection hcall hreceive := by
    rcases Nat.lt_or_ge answerBound answer.payloadBound with hlong | hshort
    · exact hother answer _ hlong
    · have hbound : answer.frameBound + bytes ≤ peerFrameHeaderBytes + answerBound + bytes := by
        rw [PeerMessage.frameBound]
        omega
      exact hexpected answer _ hshort
        (((h.sent hcall).mono (Nat.le_refl _) hbound).received hreceive)

end

/-! ## Requests -/

section

variable {P : Platform} {R : Type} {Post : R → Option PeerSession → Prop} {session : PeerSession}
  {message : PeerMessage} {messages bytes : Nat} {rest : PeerMessage → PeerTalk R}

theorem PeerCall.Fits.mono {call : PeerCall} {session : Option PeerSession}
    {after after' : Outcome ConnectionError PeerMessage → Option PeerSession → Prop}
    (hafter : ∀ answer session, after answer session → after' answer session)
    (h : call.Fits P session after) : call.Fits P session after' := by
  have hfits : ∀ {message session}, ExchangeFits P message session after →
      ExchangeFits P message session after' := fun h =>
    ⟨h.send, h.wait, fun bytes session' stream answer connection hcall hreceive =>
      hafter _ _ (h.receive bytes session' stream answer connection hcall hreceive)⟩
  refine ⟨fun fault => hafter _ _ (h.1 fault), ?_⟩
  cases call with
  | connect hello => exact fun session hnew => hfits (h.2 session hnew)
  | send message =>
      cases session with
      | none => exact h.2
      | some session => exact hfits h.2

theorem WithinBudget.bind {R' : Type} {Mid : R' → Option PeerSession → Prop}
    {talk : PeerTalk R'} {rest : R' → PeerTalk R} {session : Option PeerSession}
    (h : WithinBudget P Mid talk session)
    (hrest : ∀ r session, Mid r session → WithinBudget P Post (rest r) session) :
    WithinBudget P Post (talk >>= rest) session :=
  Dialogue.Within.bind PeerCall.Fits.mono h hrest

theorem WithinBudget.map {R' : Type} {f : R' → R} {talk : PeerTalk R'}
    {session : Option PeerSession} (h : WithinBudget P (fun _ _ => True) talk session) :
    WithinBudget P (fun _ _ => True) (talk >>= fun r => pure (f r)) session :=
  h.bind fun _ _ _ => trivial

/-- A request on an open connection. -/
theorem exchange_within {answerBound : Nat}
    (h : session.Room (messages + 2)
      (message.frameBound + (peerFrameHeaderBytes + answerBound + bytes)))
    (hexpected : ∀ answer session', session'.Room messages bytes →
      WithinBudget P Post (rest answer) (some session'))
    (hother : ∀ answer session', answerBound < answer.payloadBound →
      WithinBudget P Post (rest answer) (some session')) :
    WithinBudget P Post (exchange (.send message) >>= rest) (some session) := by
  refine ⟨fun fault => ?_, ?_⟩
  · cases fault <;> trivial
  · exact h.exchange (fun answer session' _ hroom => hexpected answer session' hroom) hother

theorem PeerSession.Room.new {hello : PeerHello}
    (hnew : PeerSession.new hello .default = .ok session) :
    session.Room 512 (30 * 1024 * 1024) := by
  simp only [PeerSession.new, bind_eq_ok, pure_eq_ok] at hnew
  obtain ⟨-, -, -, -, rfl⟩ := hnew
  have hframe : peerFrameHeaderBytes + maxPeerPayloadBytes ≤ 2 * 1024 * 1024 := by decide
  exact ⟨rfl, Nat.le_of_eq (Nat.zero_add 512), by show 0 + _ + _ ≤ _; omega⟩

/-- The greetings. -/
theorem connect_within {hello : PeerHello} {session : Option PeerSession}
    (hrest : ∀ answer session', session'.Room 510 (27 * 1024 * 1024) →
      WithinBudget P Post (rest answer) (some session')) :
    WithinBudget P Post (exchange (.connect hello) >>= rest) session := by
  refine ⟨fun fault => ?_, fun session hnew => ?_⟩
  · cases fault <;> trivial
  · have hframes : (PeerMessage.hello hello).frameBound + (peerFrameHeaderBytes +
        maxPeerPayloadBytes + 27 * 1024 * 1024) ≤ 30 * 1024 * 1024 := by
      show peerFrameHeaderBytes + maxPeerPayloadBytes + _ ≤ _
      decide
    refine ((PeerSession.Room.new hnew).mono (Nat.le_refl 512) hframes).exchange
      (fun answer session' _ hroom => hrest answer session' hroom) fun answer session' hlong => ?_
    exact absurd hlong (Nat.not_lt.mpr answer.payloadBound_le)

end

/-! ## Sessions -/

/-- What the request of a block and its answer take at most. -/
def blockExchangeBytes : Nat := 2 * peerFrameHeaderBytes + 32 + maxPeerPayloadBytes

/-- The request of a transaction and its answer. -/
def transactionExchangeBytes : Nat := 2 * peerFrameHeaderBytes + 32 + maxTransactionBytes

/-- A block and what becomes of it. -/
def submissionExchangeBytes : Nat := 2 * peerFrameHeaderBytes + maxPeerPayloadBytes + 73

section

variable {P : Platform} {session : PeerSession} {messages bytes : Nat}

theorem syncBlocks_within {surroundings : Bytes32 → Surroundings} {ids : List Bytes32} :
    ∀ {previous : Option Bytes32} {report : SyncReport} {session : PeerSession},
      session.Room (2 * ids.length + messages) (ids.length * blockExchangeBytes + bytes) →
      WithinBudget P (fun _ session => ∃ s, session = some s ∧ s.Room messages bytes)
        (syncBlocks P surroundings previous ids report) (some session) := by
  induction ids with
  | nil =>
      intro previous report session hroom
      exact ⟨session, rfl, hroom.mono (by omega) (by omega)⟩
  | cons id rest ih =>
      intro previous report session hroom
      have hone := Nat.add_one_mul rest.length blockExchangeBytes
      rw [List.length_cons, hone] at hroom
      refine .read_bind fun node => ?_
      split
      · exact ih (hroom.mono (by omega) (by omega))
      · have hfits : session.Room (2 * rest.length + messages + 2)
            ((PeerMessage.getBlock id).frameBound + (peerFrameHeaderBytes + maxPeerPayloadBytes +
              (rest.length * blockExchangeBytes + bytes))) := by
          refine hroom.mono (by omega) ?_
          simp only [PeerMessage.frameBound, PeerMessage.payloadBound, blockExchangeBytes]
          omega
        refine exchange_within hfits (fun answer session' hroom => ?_)
          fun answer session' hlong => absurd hlong (Nat.not_lt.mpr answer.payloadBound_le)
        refine .lift_bind fun block _ => .lift_bind fun _ _ => .read_bind fun node => ?_
        refine .lift_bind fun _ _ => .critical_bind fun node _ _ => ?_
        exact ih hroom

theorem syncTransactions_within {Post : SyncReport → Option PeerSession → Prop}
    (hpost : ∀ report session, Post report session) {requested : List Bytes32} :
    ∀ {report : SyncReport} {session : PeerSession},
      session.Room (2 * requested.length) (requested.length * transactionExchangeBytes) →
      WithinBudget P Post (syncTransactions P requested report) (some session) := by
  induction requested with
  | nil => exact fun _ => hpost _ _
  | cons txid rest ih =>
      intro report session hroom
      have hone := Nat.add_one_mul rest.length transactionExchangeBytes
      rw [List.length_cons, hone] at hroom
      have hfits : session.Room (2 * rest.length + 2)
          ((PeerMessage.getTransaction txid).frameBound + (peerFrameHeaderBytes +
            maxTransactionBytes + rest.length * transactionExchangeBytes)) := by
        refine hroom.mono (by omega) ?_
        simp only [PeerMessage.frameBound, PeerMessage.payloadBound, transactionExchangeBytes]
        omega
      refine exchange_within hfits (fun answer session' hroom => ?_)
        fun answer session' hlong => ?_
      · refine .lift_bind fun transaction _ => .lift_bind fun _ _ => .critical_bind fun _ _ _ => ?_
        split <;> exact ih hroom
      · refine .lift_bind fun transaction hexpect => ?_
        cases answer with
        | transaction _ => exact absurd hlong (Nat.lt_irrefl _)
        | _ => cases hexpect

theorem relayBlocks_within {Post : RelayReport → Option PeerSession → Prop}
    (hpost : ∀ report session, Post report session) {ids : List Bytes32} :
    ∀ {report : RelayReport} {session : PeerSession},
      session.Room (2 * ids.length) (ids.length * submissionExchangeBytes) →
      WithinBudget P Post (relayBlocks P ids report) (some session) := by
  induction ids with
  | nil => exact fun _ => hpost _ _
  | cons id rest ih =>
      intro report session hroom
      have hone := Nat.add_one_mul rest.length submissionExchangeBytes
      rw [List.length_cons, hone] at hroom
      refine .critical_bind fun node block _ => ?_
      have hfits : session.Room (2 * rest.length + 2) ((PeerMessage.submitBlock block).frameBound +
          (peerFrameHeaderBytes + 73 + rest.length * submissionExchangeBytes)) := by
        refine hroom.mono (by omega) ?_
        simp only [PeerMessage.frameBound, PeerMessage.payloadBound, submissionExchangeBytes]
        omega
      refine exchange_within hfits (fun answer session' hroom => ?_)
        fun answer session' hlong => ?_
      · refine .lift_bind fun result _ => .lift_bind fun _ _ => ?_
        cases result.status with
        | accepted => exact ih hroom
        | alreadyKnown => exact ih hroom
        | rejected => trivial
      · refine .lift_bind fun result hexpect => ?_
        cases answer with
        | blockSubmissionResult _ => exact absurd hlong (Nat.lt_irrefl _)
        | _ => cases hexpect

/-- One request behind the greetings. -/
theorem request_within {R : Type} {Post : R → Option PeerSession → Prop} {message : PeerMessage}
    {rest : PeerMessage → PeerTalk R} (hroom : session.Room (messages + 2) bytes)
    (hbytes : 3 * 1024 * 1024 ≤ bytes)
    (hrest : ∀ answer session', session'.Room messages (bytes - 3 * 1024 * 1024) →
      WithinBudget P Post (rest answer) (some session')) :
    WithinBudget P Post (exchange (.send message) >>= rest) (some session) := by
  have hframe : peerFrameHeaderBytes + maxPeerPayloadBytes ≤ 3 * 512 * 1024 := by decide
  have hmessage := message.payloadBound_le
  refine exchange_within (hroom.mono (Nat.le_refl _) ?_) hrest
    fun answer session' hlong => absurd hlong (Nat.not_lt.mpr answer.payloadBound_le)
  rw [PeerMessage.frameBound]
  omega

end

theorem Node.length_relayInventoryAfter_le (node : Node) (peerTip : Bytes32) (max : Nat) :
    (node.relayInventoryAfter peerTip max).length ≤ max := by
  rw [Node.relayInventoryAfter]
  split
  · exact Nat.zero_le _
  · split
    · exact Nat.zero_le _
    · exact List.length_take_le _ _

/-- **A session fits into its own budget**, whatever the peer answers and whatever becomes of the
node in between. -/
theorem sessions_within_budget (P : Platform) (identity : ProcessIdentity) (call : ClientCall)
    (session : Option PeerSession) :
    WithinBudget P (fun _ _ => True) (call.talk P identity) session := by
  cases call with
  | sync surroundings =>
      refine .map (.read_bind fun node => ?_)
      refine connect_within fun answer session hroom => .lift_bind fun hello _ => ?_
      refine request_within hroom (by decide) fun answer session hroom => ?_
      refine .lift_bind fun inventory _ => .lift_bind fun _ hcheck => ?_
      have hcount : inventory.length ≤ 16 := Nat.not_lt.mp (require_eq_ok.mp hcheck)
      have hblocks := Nat.mul_le_mul_right blockExchangeBytes hcount
      have hblocksBytes : 16 * blockExchangeBytes ≤ 16 * 1025 * 1024 := by decide
      have hroom' : session.Room (2 * inventory.length + 400)
          (inventory.length * blockExchangeBytes + 8000 * 1024) :=
        hroom.mono (by omega) (by omega)
      refine (syncBlocks_within hroom').bind ?_
      rintro report _ ⟨session, rfl, hroom⟩
      refine request_within hroom (by decide) fun answer session hroom => ?_
      refine .lift_bind fun txids _ => .read_bind fun node => ?_
      have hcount' := List.length_take_le maxTransactionsPerSync
        (txids.filter fun txid => !node.transactionInventory.contains txid)
      have htransactions := Nat.mul_le_mul_right transactionExchangeBytes hcount'
      have htransactionsBytes : maxTransactionsPerSync * transactionExchangeBytes ≤
          4200 * 1024 := by decide
      have hmax : maxTransactionsPerSync = 64 := rfl
      exact syncTransactions_within (fun _ _ => trivial) (hroom.mono (by omega) (by omega))
  | relay =>
      refine .map (.read_bind fun node => ?_)
      refine connect_within fun answer session hroom => .lift_bind fun hello _ => ?_
      refine .read_bind fun node => ?_
      have hcount := node.length_relayInventoryAfter_le hello.tip maxBlocksPerSync
      have hblocks := Nat.mul_le_mul_right submissionExchangeBytes hcount
      have hblocksBytes : maxBlocksPerSync * submissionExchangeBytes ≤ 17 * 1024 * 1024 := by decide
      have hmax : maxBlocksPerSync = 16 := rfl
      exact relayBlocks_within (fun _ _ => trivial) (hroom.mono (by omega) (by omega))
  | template hello payout =>
      refine .map ?_
      refine connect_within fun answer session hroom => .lift_bind fun remoteHello _ => ?_
      refine request_within hroom (by decide) fun answer session hroom => ?_
      exact .lift_bind fun _ _ => .lift_bind fun _ _ => .lift_bind fun _ _ => trivial
  | submission hello block =>
      refine .map ?_
      refine connect_within fun answer session hroom => .lift_bind fun remoteHello _ => ?_
      refine request_within hroom (by decide) fun answer session hroom => ?_
      exact .lift_bind fun _ _ => .lift_bind fun _ _ => trivial

end CommonFoundry
