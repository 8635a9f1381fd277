/-
# `CommonFoundry.Node.PeerLink` — two sessions and the frames between them

Two sides, each with a session, and a channel in each direction that loses nothing
and keeps the order.  What is in flight towards a side is what the other side has
sent, less what this side has accepted: a frame leaves the channel when it is
accepted, and stays at its head when the call fails.

The events are the calls of the two sides, in any order.  The hypotheses are
those of two honest sides: hellos of the same network and the same rules, with
different nonces, and messages of that network.

* `SessionRun.Greeted`    — the hello comes first, in both directions; holds of
                            every session, whatever is called on it.
* `Link.Honest`           — what two honest sides have in common.
* `accept_inFlight`       — the head of a channel is accepted, up to the budget.
* `reject_out_of_turn`    — any other frame that was sent is refused.
-/
import CommonFoundry.Node.PeerSession

namespace CommonFoundry

open Lib Lib.Outcome Lib.Codec

variable {P : Platform}

/-! ## The hello exchange, on one side -/

def PeerMessage.isHello : PeerMessage → Bool
  | .hello _ => true
  | _ => false

/-- A session that has sent and accepted its hellos first, and nothing before both. -/
structure SessionRun.Greeted (localHello : PeerHello) (run : SessionRun) : Prop where
  helloSent : run.session.helloSent = true ↔ run.sent ≠ []
  remoteHello : run.session.remoteHello.isSome = true ↔ run.accepted ≠ []
  sent : ∀ i record, run.sent[i]? = some record →
    (i = 0 ∧ record.message = .hello localHello) ∨
    (0 < i ∧ record.message.isHello = false ∧ run.accepted ≠ [])
  accepted : ∀ i record, run.accepted[i]? = some record →
    (i = 0 ∧ record.message.isHello = true) ∨
    (0 < i ∧ record.message.isHello = false ∧ run.sent ≠ [])

section

variable {session session' : PeerSession} {message : PeerMessage} {run : SessionRun}
  {localHello : PeerHello} {limits : PeerLimits}

theorem PeerSession.checkOutbound_eq_ok :
    session.checkOutbound message = .ok () ↔
      (message.isHello = true ∧ session.helloSent = false ∧
        message = .hello session.localHello) ∨
      (message.isHello = false ∧ session.helloSent = true ∧
        session.remoteHello.isSome = true) := by
  cases message <;>
    simp [PeerSession.checkOutbound, PeerMessage.isHello, bind_eq_ok, peerCheck_eq_ok]

theorem PeerSession.checkInbound_eq_ok :
    session.checkInbound message = .ok () ↔
      (∃ hello, message = .hello hello ∧ session.remoteHello = none ∧
        hello.consensusFingerprint = session.localHello.consensusFingerprint ∧
        hello.nodeNonce ≠ session.localHello.nodeNonce) ∨
      (message.isHello = false ∧ session.remoteHello.isSome = true ∧
        session.helloSent = true) := by
  cases message <;>
    simp [PeerSession.checkInbound, PeerMessage.isHello, bind_eq_ok, peerCheck_eq_ok]

namespace SessionRun.Greeted

theorem start (h : PeerSession.new localHello limits = .ok session) :
    Greeted localHello (.start session) := by
  simp only [PeerSession.new, bind_eq_ok, pure_eq_ok] at h
  obtain ⟨_, _, _, _, rfl⟩ := h
  exact ⟨by simp [SessionRun.start], by simp [SessionRun.start], by simp [SessionRun.start],
    by simp [SessionRun.start]⟩

/-- A frame is sent. -/
theorem send (h : Greeted localHello run) (hcounted : run.Counted P localHello limits)
    {record : PeerRecord}
    (hcall : Method.call (PeerSession.encodeOutbound P record.message) run.session =
      (.ok record.bytes, session)) :
    Greeted localHello { run with session, sent := run.sent ++ [record] } := by
  obtain ⟨hcheck, _, _, next, _, rfl⟩ := PeerSession.encodeOutbound_eq_ok.mp hcall
  have hnext : run.session.nextOutboundSequence = 0 ↔ run.sent = [] := by
    rw [← UInt64.toNat_inj, hcounted.outbound]
    exact List.length_eq_zero_iff
  refine ⟨?_, h.remoteHello, numbered_concat h.sent ?_, ?_⟩
  · -- the first frame sets the flag, and the others need it
    have hsent : (run.session.afterSent next record.bytes.length).helloSent = true := by
      show (if run.session.nextOutboundSequence = 0 then true else run.session.helloSent) = true
      split
      · rfl
      · next hne => exact h.helloSent.mpr (mt hnext.mpr hne)
    exact iff_of_true hsent (by simp)
  · rcases PeerSession.checkOutbound_eq_ok.mp hcheck with
      ⟨_, hfirst, hmessage⟩ | ⟨hlater, hhello, hremote⟩
    · have hnil : run.sent = [] := by
        by_contra hne
        rw [h.helloSent.mpr hne] at hfirst
        cases hfirst
      exact .inl ⟨by rw [hnil]; rfl, by rw [hmessage, hcounted.localHello_eq]⟩
    · exact .inr ⟨List.length_pos_iff.mpr (h.helloSent.mp hhello), hlater,
        h.remoteHello.mp hremote⟩
  · intro i accepted haccepted
    refine (h.accepted i accepted haccepted).imp_right fun ⟨hi, hlater, _⟩ => ?_
    exact ⟨hi, hlater, by simp⟩

/-- A frame is accepted. -/
theorem accept (h : Greeted localHello run) {record : PeerRecord}
    (hcall : Method.call (PeerSession.acceptInbound P record.bytes) run.session =
      (.ok record.message, session)) :
    Greeted localHello { run with session, accepted := run.accepted ++ [record] } := by
  obtain ⟨_, _, hcheck, next, _, rfl⟩ := PeerSession.acceptInbound_eq_ok.mp hcall
  have hkeeps : (run.session.afterReceived record.message next record.bytes.length).helloSent =
      run.session.helloSent := by
    unfold PeerSession.afterReceived PeerSession.received
    split <;> rfl
  refine ⟨?_, ?_, ?_, numbered_concat h.accepted ?_⟩
  · rw [hkeeps]
    exact h.helloSent
  · have hremote : (run.session.afterReceived record.message next
        record.bytes.length).remoteHello.isSome = true := by
      unfold PeerSession.afterReceived PeerSession.received
      rcases PeerSession.checkInbound_eq_ok.mp hcheck with ⟨hello, hmessage, _⟩ | ⟨_, hsome, _⟩
      · rw [hmessage]
        rfl
      · split
        · rfl
        · exact hsome
    exact iff_of_true hremote (by simp)
  · intro i sent hsent
    refine (h.sent i sent hsent).imp_right fun ⟨hi, hlater, _⟩ => ?_
    exact ⟨hi, hlater, by simp⟩
  · rcases PeerSession.checkInbound_eq_ok.mp hcheck with
      ⟨hello, hmessage, hnone, _⟩ | ⟨hlater, hsome, hhello⟩
    · have hnil : run.accepted = [] := by
        by_contra hne
        have hsome := h.remoteHello.mpr hne
        rw [hnone] at hsome
        cases hsome
      exact .inl ⟨by rw [hnil]; rfl, by rw [hmessage]; rfl⟩
    · exact .inr ⟨List.length_pos_iff.mpr (h.remoteHello.mp hsome), hlater,
        h.helloSent.mp hhello⟩

/-- Every call keeps the order. -/
theorem call (h : Greeted localHello run) (hcounted : run.Counted P localHello limits)
    (call : SessionCall) : Greeted localHello (run.call P call) := by
  rcases hcall : Method.call (call.method P) run.session with ⟨outcome, session⟩
  rw [SessionRun.call, hcall]
  cases outcome with
  | error fault =>
      obtain rfl := SessionCall.method_error hcall
      exact h
  | ok result =>
      rcases SessionCall.method_eq_ok hcall with ⟨record, rfl, hsend⟩ | ⟨record, rfl, haccept⟩
      · exact h.send hcounted hsend
      · exact h.accept haccept

end SessionRun.Greeted

/-! ## What a call adds -/

theorem SessionRun.call_encodeHello (P : Platform) (run : SessionRun) :
    run.call P .encodeHello = run.call P (.encodeOutbound (.hello run.session.localHello)) := by
  simp only [SessionRun.call, SessionCall.method, Method.call_get_bind, PeerSession.encodeHello]
  rcases hcall : Method.call
    (PeerSession.encodeOutbound P (.hello run.session.localHello)) run.session with
    ⟨outcome, session⟩
  have hhello : Method.call (get >>= fun session =>
      PeerSession.encodeOutbound P (.hello session.localHello)) run.session =
      (outcome, session) := by rw [Method.call_get_bind, hcall]
  cases outcome with
  | ok bytes => rw [Method.call_bind_of_ok hcall, Method.call_bind_of_ok hhello]
  | error fault => rw [Method.call_bind_of_error hcall, Method.call_bind_of_error hhello]

theorem SessionRun.call_encodeOutbound (P : Platform) (run : SessionRun) (message : PeerMessage) :
    run.call P (.encodeOutbound message) = run ∨ ∃ bytes session,
      run.call P (.encodeOutbound message) =
        { run with session, sent := run.sent ++ [⟨message, bytes⟩] } := by
  rcases hcall : Method.call (SessionCall.method P (.encodeOutbound message)) run.session with
    ⟨outcome, session⟩
  rw [SessionRun.call, hcall]
  cases outcome with
  | error fault =>
      obtain rfl := SessionCall.method_error hcall
      exact .inl rfl
  | ok result =>
      simp only [SessionCall.method, Method.call_bind_pure_eq_ok] at hcall
      obtain ⟨bytes, _, rfl⟩ := hcall
      exact .inr ⟨bytes, session, rfl⟩

theorem SessionRun.call_acceptInbound (P : Platform) (run : SessionRun) (bytes : List UInt8) :
    run.call P (.acceptInbound bytes) = run ∨ ∃ message session,
      Method.call (PeerSession.acceptInbound P bytes) run.session = (.ok message, session) ∧
      run.call P (.acceptInbound bytes) =
        { run with session, accepted := run.accepted ++ [⟨message, bytes⟩] } := by
  rcases hcall : Method.call (SessionCall.method P (.acceptInbound bytes)) run.session with
    ⟨outcome, session⟩
  rw [SessionRun.call, hcall]
  cases outcome with
  | error fault =>
      obtain rfl := SessionCall.method_error hcall
      exact .inl rfl
  | ok result =>
      simp only [SessionCall.method, Method.call_bind_pure_eq_ok] at hcall
      obtain ⟨message, haccept, rfl⟩ := hcall
      exact .inr ⟨message, session, haccept, rfl⟩

end

/-! ## Two sides -/

inductive Side where
  | left
  | right
  deriving DecidableEq

def Side.other : Side → Side
  | .left => .right
  | .right => .left

@[simp] theorem Side.other_other (side : Side) : side.other.other = side := by
  cases side <;> rfl

theorem Side.other_ne (side : Side) : side.other ≠ side := by
  cases side <;> decide

theorem Side.eq_other {side side' : Side} (h : side' ≠ side) : side' = side.other := by
  cases side <;> cases side' <;> first | rfl | exact absurd rfl h

/-- The two sessions of a connection, and what has passed through them. -/
abbrev Link := Side → SessionRun

namespace Link

/-- The frames that are on their way to a side. -/
def inFlight (link : Link) (side : Side) : List PeerRecord :=
  (link side.other).sent.drop (link side).accepted.length

/-- A call of one side. -/
def call (P : Platform) (link : Link) (side : Side) (call : SessionCall) : Link :=
  Function.update link side ((link side).call P call)

end Link

inductive LinkEvent where
  | encodeHello (side : Side)
  | encodeOutbound (side : Side) (message : PeerMessage)
  | acceptInbound (side : Side)

/-- A side sends, or looks at the frame at the head of its channel. -/
def LinkEvent.perform (P : Platform) (event : LinkEvent) (link : Link) : Link :=
  match event with
  | .encodeHello side => link.call P side .encodeHello
  | .encodeOutbound side message => link.call P side (.encodeOutbound message)
  | .acceptInbound side =>
      match link.inFlight side with
      | [] => link
      | record :: _ => link.call P side (.acceptInbound record.bytes)

def Link.run (P : Platform) (events : List LinkEvent) (link : Link) : Link :=
  events.foldl (fun link event => event.perform P link) link

/-- Hellos of one network and one set of rules, from different nodes. -/
structure CompatibleHellos (networkId : Bytes32) (hello : Side → PeerHello) : Prop where
  network : ∀ side, (hello side).networkId = networkId
  fingerprint : (hello .left).consensusFingerprint = (hello .right).consensusFingerprint
  nonce : (hello .left).nodeNonce ≠ (hello .right).nodeNonce

/-- What two honest sides have in common. -/
structure Link.Honest (P : Platform) (networkId : Bytes32) (hello : Side → PeerHello)
    (limits : Side → PeerLimits) (link : Link) : Prop where
  counted : ∀ side, (link side).Counted P (hello side) (limits side)
  greeted : ∀ side, (link side).Greeted (hello side)
  onNetwork : ∀ side, ∀ record ∈ (link side).sent, record.message.OnNetwork networkId
  inOrder : ∀ side, (link side).accepted <+: (link side.other).sent

/-- A frame that the limits of a side allow on top of what has passed. -/
def SessionRun.Fits (limits : PeerLimits) (run : SessionRun) (record : PeerRecord) : Prop :=
  run.accepted.length + run.sent.length + 1 ≤ limits.maxMessagesPerPeer.toNat ∧
    totalBytes run.accepted + totalBytes run.sent + record.bytes.length ≤
      limits.maxBytesPerPeer.toNat

section

variable {networkId : Bytes32} {hello : Side → PeerHello} {limits : Side → PeerLimits}
  {link : Link} {side : Side} {record : PeerRecord} {rest : List PeerRecord}

theorem CompatibleHellos.fingerprint_eq (h : CompatibleHellos networkId hello) (side : Side) :
    (hello side.other).consensusFingerprint = (hello side).consensusFingerprint := by
  cases side
  · exact h.fingerprint.symm
  · exact h.fingerprint

theorem CompatibleHellos.nonce_ne (h : CompatibleHellos networkId hello) (side : Side) :
    (hello side.other).nodeNonce ≠ (hello side).nodeNonce := by
  cases side
  · exact h.nonce.symm
  · exact h.nonce

/-- Both channels keep their order when one side has accepted or sent more. -/
theorem inOrder_update {run : SessionRun}
    (h : ∀ side, (link side).accepted <+: (link side.other).sent)
    (hsent : (link side).sent <+: run.sent) (haccepted : run.accepted <+: (link side.other).sent)
    (side' : Side) :
    (Function.update link side run side').accepted <+:
      (Function.update link side run side'.other).sent := by
  by_cases hside : side' = side
  · rw [hside, Function.update_self, Function.update_of_ne side.other_ne]
    exact haccepted
  · have hback := h side.other
    rw [Side.other_other] at hback
    rw [Side.eq_other hside, Function.update_of_ne side.other_ne, Side.other_other,
      Function.update_self]
    exact hback.trans hsent

namespace Link.Honest

theorem start {session : Side → PeerSession}
    (hnew : ∀ side, PeerSession.new (hello side) (limits side) = .ok (session side)) :
    Honest P networkId hello limits fun side => .start (session side) where
  counted side := .start (hnew side)
  greeted side := .start (hnew side)
  onNetwork _ _ hrecord := absurd hrecord (List.not_mem_nil)
  inOrder _ := List.nil_prefix

/-- Whatever one side calls, its own part of the invariant stays. -/
theorem update (h : Honest P networkId hello limits link) (call : SessionCall)
    (honNetwork : ∀ record ∈ ((link side).call P call).sent, record.message.OnNetwork networkId)
    (hsent : (link side).sent <+: ((link side).call P call).sent)
    (haccepted : ((link side).call P call).accepted <+: (link side.other).sent) :
    Honest P networkId hello limits (link.call P side call) where
  counted := (Function.forall_update_iff link
    fun side run => run.Counted P (hello side) (limits side)).mpr
    ⟨(h.counted side).call call, fun side _ => h.counted side⟩
  greeted := (Function.forall_update_iff link fun side run => run.Greeted (hello side)).mpr
    ⟨(h.greeted side).call (h.counted side) call, fun side _ => h.greeted side⟩
  onNetwork := (Function.forall_update_iff link
    fun _ run => ∀ record ∈ run.sent, record.message.OnNetwork networkId).mpr
    ⟨honNetwork, fun side _ => h.onNetwork side⟩
  inOrder := inOrder_update h.inOrder hsent haccepted

/-- A message of the network is sent, or refused. -/
theorem send (h : Honest P networkId hello limits link) {message : PeerMessage}
    (hmessage : message.OnNetwork networkId) :
    Honest P networkId hello limits (link.call P side (.encodeOutbound message)) := by
  rcases (link side).call_encodeOutbound P message with hcall | ⟨bytes, session, hcall⟩
  · refine h.update _ ?_ ?_ ?_
    · rw [hcall]
      exact h.onNetwork side
    · rw [hcall]
    · rw [hcall]
      exact h.inOrder side
  · refine h.update _ ?_ ?_ ?_
    · rw [hcall]
      intro record hrecord
      rcases List.mem_append.mp hrecord with hrecord | hrecord
      · exact h.onNetwork side record hrecord
      · rw [List.mem_singleton.mp hrecord]
        exact hmessage
    · rw [hcall]
      exact List.prefix_append ..
    · rw [hcall]
      exact h.inOrder side

/-! ## One frame -/

/-- A frame that was sent decodes to its message, under its own number. -/
theorem decode_sent (h : Honest P networkId hello limits link)
    (hhello : CompatibleHellos networkId hello) {i : Nat}
    (hrecord : (link side.other).sent[i]? = some record) :
    ∃ sequence : UInt64, sequence.toNat = i ∧
      decodePeerFrame P record.bytes (link side).session.localHello.networkId =
        .ok { sequence, message := record.message } := by
  obtain ⟨sequence, hsequence, hencode⟩ := (h.counted side.other).sent i record hrecord
  refine ⟨sequence, hsequence, ?_⟩
  rw [(h.counted side).localHello_eq, hhello.network]
  exact decodePeerFrame_iff.mpr
    ⟨h.onNetwork side.other record (List.mem_of_getElem? hrecord), hencode⟩

theorem ensureBudget_iff (h : Honest P networkId hello limits link)
    {network : Bytes32} {frame : PeerFrame}
    (hdecode : decodePeerFrame P record.bytes network = .ok frame) :
    (link side).session.ensureBudget record.bytes.length = .ok () ↔
      (link side).Fits (limits side) record := by
  have hcounted := h.counted side
  rw [PeerSession.ensureBudget_eq_ok, PeerSession.toNat_length_of_decode hdecode,
    hcounted.limits_eq, hcounted.messages, hcounted.bytes]
  rfl

/-- What has been sent is what was accepted and what is in flight. -/
theorem sent_eq (h : Honest P networkId hello limits link)
    (hflight : link.inFlight side = record :: rest) :
    (link side.other).sent = (link side).accepted ++ record :: rest := by
  obtain ⟨flight, hsent⟩ := h.inOrder side
  rw [Link.inFlight, ← hsent, List.drop_left] at hflight
  rw [← hsent, hflight]

theorem sent_head (h : Honest P networkId hello limits link)
    (hflight : link.inFlight side = record :: rest) :
    (link side.other).sent[(link side).accepted.length]? = some record := by
  rw [h.sent_eq hflight, List.getElem?_append_right le_rfl, Nat.sub_self]
  rfl

/-- The hello that arrives, and everything that comes after it, is welcome. -/
theorem checkInbound_head (h : Honest P networkId hello limits link)
    (hhello : CompatibleHellos networkId hello)
    (hflight : link.inFlight side = record :: rest) :
    (link side).session.checkInbound record.message = .ok () := by
  have hhead := h.sent_head hflight
  rw [PeerSession.checkInbound_eq_ok, (h.counted side).localHello_eq]
  rcases (h.greeted side.other).sent _ record hhead with ⟨hfirst, hmessage⟩ | ⟨hlater, hno, hback⟩
  · refine .inl ⟨_, hmessage, ?_, hhello.fingerprint_eq side, hhello.nonce_ne side⟩
    have hnone := mt (h.greeted side).remoteHello.mp
      (not_not.mpr (List.length_eq_zero_iff.mp hfirst))
    rwa [Option.isSome_iff_ne_none, not_not] at hnone
  · -- a side that sends more than its hello has accepted one, and so it was sent
    refine .inr ⟨hno, (h.greeted side).remoteHello.mpr (List.length_pos_iff.mp hlater),
      (h.greeted side).helloSent.mpr ?_⟩
    intro hnil
    have hsent := h.inOrder side.other
    rw [Side.other_other, hnil] at hsent
    exact hback (List.prefix_nil.mp hsent)

/-- The head of a channel is accepted, as what was sent, if the budget allows it. -/
theorem accept_inFlight (h : Honest P networkId hello limits link)
    (hhello : CompatibleHellos networkId hello)
    (hflight : link.inFlight side = record :: rest)
    (hfits : (link side).Fits (limits side) record) :
    ∃ after, Method.call (PeerSession.acceptInbound P record.bytes) (link side).session =
      (.ok record.message, after) := by
  obtain ⟨sequence, hsequence, hdecode⟩ := h.decode_sent hhello (h.sent_head hflight)
  have hbudget := (h.ensureBudget_iff hdecode).mpr hfits
  have hinbound : sequence = (link side).session.nextInboundSequence := by
    rw [← UInt64.toNat_inj, hsequence, (h.counted side).inbound]
  -- the sender has counted this frame, so the receiver can
  have hroom : (link side).accepted.length + 1 < 2 ^ 64 := by
    have hlt := toNat_lt (link side.other).session.nextOutboundSequence
    rw [(h.counted side.other).outbound, h.sent_eq hflight, List.length_append,
      List.length_cons] at hlt
    omega
  refine ⟨_, PeerSession.acceptInbound_eq_ok.mpr ⟨hbudget, hinbound ▸ hdecode,
    h.checkInbound_head hhello hflight, (link side).session.nextInboundSequence + 1,
    ?_, rfl⟩⟩
  have hone : (1 : UInt64).toNat = 1 := rfl
  have hcount := (h.counted side).inbound
  exact toNat_add_of_lt (by omega)

/-- And refused, for that reason, if the budget does not. -/
theorem refuse_inFlight (h : Honest P networkId hello limits link)
    (hhello : CompatibleHellos networkId hello)
    (hflight : link.inFlight side = record :: rest)
    (hfits : ¬(link side).Fits (limits side) record) :
    Method.call (PeerSession.acceptInbound P record.bytes) (link side).session =
      (.error (.err .peerBudgetExceeded), (link side).session) := by
  obtain ⟨_, _, hdecode⟩ := h.decode_sent hhello (h.sent_head hflight)
  rcases (link side).session.ensureBudget_cases record.bytes.length with hbudget | hbudget
  · exact absurd ((h.ensureBudget_iff hdecode).mp hbudget) hfits
  · exact PeerSession.acceptInbound_over_budget hbudget

/-- A frame that was sent, but is not the next one, is refused. -/
theorem reject_out_of_turn (h : Honest P networkId hello limits link)
    (hhello : CompatibleHellos networkId hello) {i : Nat}
    (hrecord : (link side.other).sent[i]? = some record)
    (hi : i ≠ (link side).accepted.length) :
    ∃ error, Method.call (PeerSession.acceptInbound P record.bytes) (link side).session =
      (.error (.err error), (link side).session) := by
  obtain ⟨sequence, hsequence, hdecode⟩ := h.decode_sent hhello hrecord
  rcases (link side).session.ensureBudget_cases record.bytes.length with hbudget | hbudget
  · refine ⟨_, PeerSession.acceptInbound_out_of_turn hbudget hdecode ?_⟩
    intro heq
    rw [← hsequence, ← (h.counted side).inbound] at hi
    exact hi (congrArg UInt64.toNat heq)
  · exact ⟨_, PeerSession.acceptInbound_over_budget hbudget⟩

/-! ## Runs -/

/-- The frame at the head of a channel is looked at. -/
theorem accept (h : Honest P networkId hello limits link)
    (hhello : CompatibleHellos networkId hello)
    (hflight : link.inFlight side = record :: rest) :
    Honest P networkId hello limits (link.call P side (.acceptInbound record.bytes)) := by
  rcases (link side).call_acceptInbound P record.bytes with
    hcall | ⟨message, session, haccept, hcall⟩
  · refine h.update _ ?_ ?_ ?_
    · rw [hcall]
      exact h.onNetwork side
    · rw [hcall]
    · rw [hcall]
      exact h.inOrder side
  · obtain ⟨_, hdecode, _⟩ := PeerSession.acceptInbound_eq_ok.mp haccept
    obtain ⟨_, _, hdecode'⟩ := h.decode_sent hhello (h.sent_head hflight)
    have hmessage : record.message = message :=
      (PeerFrame.mk.inj (Except.ok.inj (hdecode'.symm.trans hdecode))).2
    refine h.update _ ?_ ?_ ?_
    · rw [hcall]
      exact h.onNetwork side
    · rw [hcall]
    · rw [hcall, ← hmessage, h.sent_eq hflight]
      exact ⟨rest, by simp⟩

/-- Every event keeps what the two sides have in common. -/
theorem perform (h : Honest P networkId hello limits link)
    (hhello : CompatibleHellos networkId hello) {event : LinkEvent}
    (hmessage : ∀ side message, event = .encodeOutbound side message →
      message.OnNetwork networkId) :
    Honest P networkId hello limits (event.perform P link) := by
  cases event with
  | encodeHello side =>
      rw [LinkEvent.perform, Link.call, SessionRun.call_encodeHello]
      refine h.send ?_
      rw [(h.counted side).localHello_eq]
      exact hhello.network side
  | encodeOutbound side message => exact h.send (hmessage side message rfl)
  | acceptInbound side =>
      rw [LinkEvent.perform]
      split
      · exact h
      · next record rest hflight => exact h.accept hhello hflight

theorem run (h : Honest P networkId hello limits link)
    (hhello : CompatibleHellos networkId hello) {events : List LinkEvent}
    (hmessages : ∀ side message, LinkEvent.encodeOutbound side message ∈ events →
      message.OnNetwork networkId) :
    Honest P networkId hello limits (link.run P events) := by
  induction events generalizing link with
  | nil => exact h
  | cons event rest ih =>
      have hfirst : ∀ side message, event = .encodeOutbound side message →
          message.OnNetwork networkId := fun side message hevent =>
        hmessages side message (hevent ▸ List.mem_cons_self)
      exact ih (h.perform hhello hfirst) fun side message hmem =>
        hmessages side message (List.mem_cons_of_mem event hmem)

/-- The hello exchange is complete when both hellos have passed. -/
theorem handshakeComplete_iff (h : Honest P networkId hello limits link) :
    (link side).session.handshakeComplete = true ↔
      (∃ record, (link side).sent[0]? = some record ∧ record.message = .hello (hello side)) ∧
      ∃ record, (link side).accepted[0]? = some record ∧
        record.message = .hello (hello side.other) := by
  have hgreeted := h.greeted side
  rw [PeerSession.handshakeComplete, Bool.and_eq_true, hgreeted.helloSent, hgreeted.remoteHello]
  have hsent : ∀ side, (link side).sent ≠ [] ↔
      ∃ record, (link side).sent[0]? = some record ∧ record.message = .hello (hello side) := by
    intro side
    cases hlist : (link side).sent with
    | nil => simp
    | cons record rest =>
        have hfirst := (h.greeted side).sent 0 record (by rw [hlist]; rfl)
        simpa using hfirst
  refine and_congr (hsent side) ?_
  constructor
  · intro hne
    obtain ⟨record, accepted, haccepted⟩ := List.exists_cons_of_ne_nil hne
    obtain ⟨flight, hflight⟩ := h.inOrder side
    rw [haccepted] at hflight
    obtain ⟨first, hfirst, hmessage⟩ := (hsent side.other).mp (by rw [← hflight]; simp)
    rw [← hflight] at hfirst
    obtain rfl := Option.some.inj hfirst
    exact ⟨record, by rw [haccepted]; rfl, hmessage⟩
  · rintro ⟨record, hrecord, _⟩ hnil
    rw [hnil] at hrecord
    cases hrecord

end Link.Honest

/-- Two honest sides never refuse each other: after any interleaving of their calls, what
a side has accepted is the start of what the other has sent, frame by frame; the next
frame is accepted unless the limits of the receiver forbid it; nothing but a hello is
accepted before both hellos have passed; and any other frame that was ever sent is
refused, without a change. -/
theorem honest_sessions {session : Side → PeerSession}
    (hnew : ∀ side, PeerSession.new (hello side) (limits side) = .ok (session side))
    (hhello : CompatibleHellos networkId hello) (events : List LinkEvent)
    (hmessages : ∀ side message, LinkEvent.encodeOutbound side message ∈ events →
      message.OnNetwork networkId) (side : Side) :
    let link := Link.run P events fun side => .start (session side)
    let receiver := link side
    receiver.accepted <+: (link side.other).sent ∧
    (∀ record rest, link.inFlight side = record :: rest → receiver.Fits (limits side) record →
      ∃ after, Method.call (PeerSession.acceptInbound P record.bytes) receiver.session =
        (.ok record.message, after)) ∧
    (∀ record rest, link.inFlight side = record :: rest → ¬receiver.Fits (limits side) record →
      Method.call (PeerSession.acceptInbound P record.bytes) receiver.session =
        (.error (.err .peerBudgetExceeded), receiver.session)) ∧
    (∀ bytes message after,
      Method.call (PeerSession.acceptInbound P bytes) receiver.session = (.ok message, after) →
      message.isHello = false → receiver.session.handshakeComplete = true) ∧
    (receiver.session.handshakeComplete = true ↔
      (∃ record, receiver.sent[0]? = some record ∧ record.message = .hello (hello side)) ∧
      ∃ record, receiver.accepted[0]? = some record ∧
        record.message = .hello (hello side.other)) ∧
    ∀ i record, (link side.other).sent[i]? = some record → i ≠ receiver.accepted.length →
      ∃ error, Method.call (PeerSession.acceptInbound P record.bytes) receiver.session =
        (.error (.err error), receiver.session) := by
  intro link receiver
  have h : Link.Honest P networkId hello limits link := (Link.Honest.start hnew).run hhello hmessages
  refine ⟨h.inOrder side, fun _ _ hflight hfits => h.accept_inFlight hhello hflight hfits,
    fun _ _ hflight hfits => h.refuse_inFlight hhello hflight hfits, ?_,
    h.handshakeComplete_iff, fun _ _ hrecord hi => h.reject_out_of_turn hhello hrecord hi⟩
  intro bytes message after haccept hno
  obtain ⟨_, _, hcheck, _⟩ := PeerSession.acceptInbound_eq_ok.mp haccept
  rcases PeerSession.checkInbound_eq_ok.mp hcheck with ⟨_, rfl, _⟩ | ⟨_, hremote, hsent⟩
  · cases hno
  · rw [PeerSession.handshakeComplete, hsent, hremote]
    rfl

end

/-- Two nodes of one network. -/
def sampleHellos : Side → PeerHello
  | .left => sampleHello
  | .right => { sampleHello with nodeNonce := sampleDigest [1] }

def sampleSessions (side : Side) : PeerSession :=
  { sampleSession with localHello := sampleHellos side }

theorem honest_sessions_sample :
    let link := Link.run samplePlatform [.encodeHello .left, .acceptInbound .right,
      .encodeHello .right, .encodeOutbound .right .getMempool, .acceptInbound .left]
      fun side => .start (sampleSessions side)
    (link .left).accepted <+: (link .right).sent := by
  have hhello : CompatibleHellos zero32 sampleHellos :=
    ⟨fun side => by cases side <;> rfl, rfl, by decide⟩
  have hnew : ∀ side, PeerSession.new (sampleHellos side) .default = .ok (sampleSessions side) := by
    intro side
    cases side <;> decide
  refine (honest_sessions hnew hhello _ ?_ .left).1
  intro side message hmem
  simp only [List.mem_cons, reduceCtorEq, LinkEvent.encodeOutbound.injEq, List.not_mem_nil,
    or_false, false_or] at hmem
  obtain ⟨rfl, rfl⟩ := hmem
  trivial

end CommonFoundry
