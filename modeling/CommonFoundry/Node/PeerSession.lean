/-
# `CommonFoundry.Node.PeerSession` — one side of a peer connection

`PeerSession` of `peer.rs`: the hello exchange, a sequence number for each
direction, and a budget of messages and bytes for both together.

`encode_outbound` and `accept_inbound` check first, charge the budget, and then
advance.  The budget is checked with checked sums and charged with plain ones.
`encodeOutbound_eq_ok` and `acceptInbound_eq_ok` say what a call that succeeds
has established and done; a call that fails has changed nothing, because the sums
that were checked are the ones that are charged.

`session_adversary` is about every sequence of calls, with any bytes.
-/
import CommonFoundry.Consensus.ChainRun
import CommonFoundry.Lib.Method
import CommonFoundry.Node.PeerCodec

namespace CommonFoundry

open Lib Lib.Outcome Lib.Codec

/-! ## Limits -/

/-- `Duration::from_secs`, in nanoseconds. -/
def seconds (count : Nat) : Nat := count * 1000000000

/-- `MAX_CONFIGURED_PEERS`. -/
def maxConfiguredPeers : Nat := 64
/-- `MAX_MESSAGES_PER_PEER`. -/
def maxMessagesPerPeer : UInt64 := 4096
/-- `MAX_BYTES_PER_PEER`. -/
def maxBytesPerPeer : UInt64 := 64 * 1024 * 1024
/-- `HELLO_PAYLOAD_BYTES`. -/
def helloPayloadBytes : Nat := 200
/-- `MIN_SESSION_HANDSHAKE_BYTES`. -/
def minSessionHandshakeBytes : UInt64 :=
  UInt64.ofNat (2 * (peerFrameHeaderBytes + helloPayloadBytes))

/-- `PeerLimits`; a timeout is its nanoseconds. -/
structure PeerLimits where
  connectTimeout : Nat
  idleTimeout : Nat
  totalTimeout : Nat
  maxPeers : Nat
  maxMessagesPerPeer : UInt64
  maxBytesPerPeer : UInt64
  deriving DecidableEq

def PeerLimits.default : PeerLimits where
  connectTimeout := seconds 5
  idleTimeout := seconds 10
  totalTimeout := seconds (5 * 60)
  maxPeers := 16
  maxMessagesPerPeer := 512
  maxBytesPerPeer := 32 * 1024 * 1024

def PeerLimits.validate (limits : PeerLimits) : Outcome PeerError Unit :=
  peerCheck (¬(limits.connectTimeout = 0 ∨ limits.idleTimeout = 0 ∨ limits.totalTimeout = 0 ∨
    limits.maxPeers = 0 ∨ limits.maxPeers > maxConfiguredPeers ∨
    limits.maxMessagesPerPeer < 2 ∨ limits.maxMessagesPerPeer > CommonFoundry.maxMessagesPerPeer ∨
    limits.maxBytesPerPeer < minSessionHandshakeBytes ∨
    limits.maxBytesPerPeer > CommonFoundry.maxBytesPerPeer ∨
    limits.connectTimeout > seconds 30 ∨ limits.idleTimeout > seconds 60 ∨
    limits.totalTimeout > seconds (30 * 60))) .invalidLimits

/-! ## The session -/

structure PeerSession where
  localHello : PeerHello
  remoteHello : Option PeerHello
  helloSent : Bool
  nextOutboundSequence : UInt64
  nextInboundSequence : UInt64
  messagesUsed : UInt64
  bytesUsed : UInt64
  limits : PeerLimits
  deriving DecidableEq

/-- `&mut self` methods of a session. -/
abbrev SessionMethod (α : Type) := Method PeerSession PeerError α

namespace PeerSession

def new (localHello : PeerHello) (limits : PeerLimits) : Outcome PeerError PeerSession := do
  limits.validate
  validateHello localHello
  pure {
    localHello
    remoteHello := none
    helloSent := false
    nextOutboundSequence := 0
    nextInboundSequence := 0
    messagesUsed := 0
    bytesUsed := 0
    limits }

def handshakeComplete (session : PeerSession) : Bool :=
  session.helloSent && session.remoteHello.isSome

/-- `ensure_budget`; `frame_bytes as u64` keeps the low 64 bits. -/
def ensureBudget (session : PeerSession) (frameBytes : Nat) : Outcome PeerError Unit := do
  let nextMessages ← okOr (checkedAdd session.messagesUsed 1) .peerBudgetExceeded
  let nextBytes ← okOr (checkedAdd session.bytesUsed (UInt64.ofNat frameBytes))
    .peerBudgetExceeded
  peerCheck (¬(nextMessages > session.limits.maxMessagesPerPeer ∨
    nextBytes > session.limits.maxBytesPerPeer)) .peerBudgetExceeded

/-- The rule for a message that is about to be sent. -/
def checkOutbound (session : PeerSession) : PeerMessage → Outcome PeerError Unit
  | .hello hello => do
      peerCheck (session.helloSent = false) .duplicateHello
      peerCheck (hello = session.localHello) .wrongNetwork
  | _ => do
      peerCheck (session.helloSent = true) .localHelloRequired
      peerCheck (session.remoteHello.isSome = true) .handshakeRequired

/-- The rule for a message that was received in its turn. -/
def checkInbound (session : PeerSession) : PeerMessage → Outcome PeerError Unit
  | .hello hello => do
      peerCheck (session.remoteHello = none) .duplicateHello
      peerCheck (hello.consensusFingerprint = session.localHello.consensusFingerprint)
        .wrongConsensusFingerprint
      peerCheck (hello.nodeNonce ≠ session.localHello.nodeNonce) .selfConnect
  | _ => do
      peerCheck (session.remoteHello.isSome = true) .remoteHelloRequired
      peerCheck (session.helloSent = true) .handshakeRequired

/-- `next_sequence`, if there is one. -/
def nextSequence (sequence : UInt64) : Outcome PeerError UInt64 :=
  okOr (checkedAdd sequence 1) .sequenceExhausted

variable (P : Platform)

/-- A plain `+=` on a counter of the session. -/
def plus (a b : UInt64) : Outcome PeerError UInt64 := plainAdd P.overflowChecks a b

def charge (frameBytes : Nat) : SessionMethod Unit := do
  let session ← get
  let messagesUsed ← plus P session.messagesUsed 1
  set { session with messagesUsed }
  let session ← get
  let bytesUsed ← plus P session.bytesUsed (UInt64.ofNat frameBytes)
  set { session with bytesUsed }

def encodeOutbound (message : PeerMessage) : SessionMethod (List UInt8) := do
  let session ← get
  session.checkOutbound message
  let sequence := session.nextOutboundSequence
  let nextOutboundSequence ← nextSequence sequence
  let encoded ← encodePeerFrame P { sequence, message }
  session.ensureBudget encoded.length
  charge P encoded.length
  modify fun session => { session with nextOutboundSequence }
  modify fun session =>
    if sequence = 0 then { session with helloSent := true } else session
  pure encoded

def encodeHello : SessionMethod (List UInt8) := do
  let session ← get
  encodeOutbound P (.hello session.localHello)

/-- The session that has received a hello, or anything else. -/
def received (message : PeerMessage) (session : PeerSession) : PeerSession :=
  match message with
  | .hello hello => { session with remoteHello := some hello }
  | _ => session

def acceptInbound (bytes : List UInt8) : SessionMethod PeerMessage := do
  let session ← get
  session.ensureBudget bytes.length
  let frame ← decodePeerFrame P bytes session.localHello.networkId
  peerCheck (frame.sequence = session.nextInboundSequence)
    (.unexpectedSequence session.nextInboundSequence frame.sequence)
  let nextInboundSequence ← nextSequence session.nextInboundSequence
  session.checkInbound frame.message
  charge P bytes.length
  modify fun session => { session with nextInboundSequence }
  modify (received frame.message)
  pure frame.message

/-! ## The budget -/

section

variable {P} {session session' : PeerSession} {bytes : List UInt8} {message : PeerMessage}

theorem ensureBudget_eq_ok {frameBytes : Nat} {u : Unit} :
    session.ensureBudget frameBytes = .ok u ↔
      session.messagesUsed.toNat + 1 ≤ session.limits.maxMessagesPerPeer.toNat ∧
      session.bytesUsed.toNat + (UInt64.ofNat frameBytes).toNat ≤
        session.limits.maxBytesPerPeer.toNat := by
  simp only [ensureBudget, bind_eq_ok, okOr_eq_ok, checkedAdd_eq_some, peerCheck_eq_ok, not_or,
    gt_iff_lt, UInt64.not_lt, UInt64.le_iff_toNat_le]
  constructor
  · rintro ⟨messages, hmessages, total, htotal, hle, hle'⟩
    rw [hmessages] at hle
    rw [htotal] at hle'
    exact ⟨hle, hle'⟩
  · rintro ⟨hle, hle'⟩
    have hmessages := toNat_lt session.limits.maxMessagesPerPeer
    have htotal := toNat_lt session.limits.maxBytesPerPeer
    have hone : (1 : UInt64).toNat = 1 := rfl
    have hsum : (session.messagesUsed + 1).toNat = session.messagesUsed.toNat + 1 :=
      toNat_add_of_lt (by omega)
    have hsum' : (session.bytesUsed + UInt64.ofNat frameBytes).toNat =
        session.bytesUsed.toNat + (UInt64.ofNat frameBytes).toNat := toNat_add_of_lt (by omega)
    exact ⟨_, hsum, _, hsum', hsum ▸ hle, hsum' ▸ hle'⟩

/-- The only error of the budget. -/
theorem ensureBudget_cases (session : PeerSession) (frameBytes : Nat) :
    session.ensureBudget frameBytes = .ok () ∨
      session.ensureBudget frameBytes = .error (.err .peerBudgetExceeded) := by
  unfold ensureBudget
  cases checkedAdd session.messagesUsed 1 with
  | none => exact .inr rfl
  | some messages =>
      cases checkedAdd session.bytesUsed (UInt64.ofNat frameBytes) with
      | none => exact .inr rfl
      | some total =>
          simp only [okOr, ok_bind, peerCheck, require]
          split
          · exact .inl rfl
          · exact .inr rfl

/-- The session with one more frame of this length on its account. -/
def charged (session : PeerSession) (frameBytes : Nat) : PeerSession :=
  { session with
    messagesUsed := session.messagesUsed + 1
    bytesUsed := session.bytesUsed + UInt64.ofNat frameBytes }

/-- What the budget allows is charged: neither sum overflows. -/
theorem call_charge {frameBytes : Nat} {u : Unit}
    (h : session.ensureBudget frameBytes = .ok u) :
    Method.call (charge P frameBytes) session = (.ok (), session.charged frameBytes) := by
  obtain ⟨hmessages, htotal⟩ := ensureBudget_eq_ok.mp h
  have hmax := toNat_lt session.limits.maxMessagesPerPeer
  have hmax' := toNat_lt session.limits.maxBytesPerPeer
  have hone : (1 : UInt64).toNat = 1 := rfl
  refine (Method.call_get_bind ..).trans ?_
  rw [plus, plainAdd_of_lt (by omega)]
  show Method.call (liftM (plus P session.bytesUsed (UInt64.ofNat frameBytes)) >>= _) _ = _
  rw [plus, plainAdd_of_lt (by omega)]
  rfl

/-! ## What one call does -/

/-- The session after it has sent so many bytes. -/
def afterSent (session : PeerSession) (next : UInt64) (frameBytes : Nat) : PeerSession :=
  { session.charged frameBytes with
    nextOutboundSequence := next
    helloSent := if session.nextOutboundSequence = 0 then true else session.helloSent }

/-- The session after it has accepted a message of so many bytes. -/
def afterReceived (session : PeerSession) (message : PeerMessage) (next : UInt64)
    (frameBytes : Nat) : PeerSession :=
  received message { session.charged frameBytes with nextInboundSequence := next }

/-- Behind its checks a call charges the budget and advances. -/
theorem call_sent {next : UInt64} (hbudget : session.ensureBudget bytes.length = .ok ()) :
    Method.call (charge P bytes.length >>= fun _ =>
      (modify fun session => { session with nextOutboundSequence := next }) >>= fun _ =>
      (modify fun now => if session.nextOutboundSequence = 0 then { now with helloSent := true }
        else now) >>= fun _ => (pure bytes : SessionMethod (List UInt8))) session =
      (.ok bytes, session.afterSent next bytes.length) := by
  rw [Method.call_bind_of_ok (call_charge hbudget)]
  simp only [Method.call_modify_bind, Method.call_pure, afterSent]
  split <;> rfl

theorem call_received {next : UInt64} (hbudget : session.ensureBudget bytes.length = .ok ()) :
    Method.call (charge P bytes.length >>= fun _ =>
      (modify fun session => { session with nextInboundSequence := next }) >>= fun _ =>
      modify (received message) >>= fun _ => (pure message : SessionMethod PeerMessage))
      session = (.ok message, session.afterReceived message next bytes.length) := by
  rw [Method.call_bind_of_ok (call_charge hbudget)]
  rfl

theorem encodeOutbound_eq_ok :
    Method.call (encodeOutbound P message) session = (.ok bytes, session') ↔
      session.checkOutbound message = .ok () ∧
      encodePeerFrame P { sequence := session.nextOutboundSequence, message } = .ok bytes ∧
      session.ensureBudget bytes.length = .ok () ∧
      ∃ next : UInt64, next.toNat = session.nextOutboundSequence.toNat + 1 ∧
        session' = session.afterSent next bytes.length := by
  simp only [encodeOutbound, Method.call_get_bind, Method.call_lift_bind_eq_ok, nextSequence,
    okOr_eq_ok, checkedAdd_eq_some, UInt64.toNat_one]
  constructor
  · rintro ⟨_, hcheck, next, hnext, encoded, hencode, _, hbudget, h⟩
    rw [call_sent hbudget, Prod.mk.injEq, Except.ok.injEq] at h
    obtain ⟨rfl, rfl⟩ := h
    exact ⟨hcheck, hencode, hbudget, next, hnext, rfl⟩
  · rintro ⟨hcheck, hencode, hbudget, next, hnext, rfl⟩
    exact ⟨(), hcheck, next, hnext, bytes, hencode, (), hbudget, call_sent hbudget⟩

theorem acceptInbound_eq_ok :
    Method.call (acceptInbound P bytes) session = (.ok message, session') ↔
      session.ensureBudget bytes.length = .ok () ∧
      decodePeerFrame P bytes session.localHello.networkId =
        .ok { sequence := session.nextInboundSequence, message } ∧
      session.checkInbound message = .ok () ∧
      ∃ next : UInt64, next.toNat = session.nextInboundSequence.toNat + 1 ∧
        session' = session.afterReceived message next bytes.length := by
  simp only [acceptInbound, Method.call_get_bind, Method.call_lift_bind_eq_ok, nextSequence,
    okOr_eq_ok, checkedAdd_eq_some, peerCheck_eq_ok, UInt64.toNat_one]
  constructor
  · rintro ⟨_, hbudget, frame, hdecode, _, hsequence, next, hnext, _, hcheck, h⟩
    rw [call_received hbudget, Prod.mk.injEq, Except.ok.injEq] at h
    obtain ⟨rfl, rfl⟩ := h
    obtain ⟨sequence, message⟩ := frame
    obtain rfl := hsequence
    exact ⟨hbudget, hdecode, hcheck, next, hnext, rfl⟩
  · rintro ⟨hbudget, hdecode, hcheck, next, hnext, rfl⟩
    exact ⟨(), hbudget, _, hdecode, (), rfl, next, hnext, (), hcheck,
      call_received hbudget⟩

/-- A frame that the budget does not allow is not looked at. -/
theorem acceptInbound_over_budget
    (h : session.ensureBudget bytes.length = .error (.err .peerBudgetExceeded)) :
    Method.call (acceptInbound P bytes) session = (.error (.err .peerBudgetExceeded), session) := by
  rw [acceptInbound, Method.call_get_bind, h, Method.call_error_bind]

/-- A frame that is not the next one is refused. -/
theorem acceptInbound_out_of_turn {frame : PeerFrame}
    (hbudget : session.ensureBudget bytes.length = .ok ())
    (hdecode : decodePeerFrame P bytes session.localHello.networkId = .ok frame)
    (hne : frame.sequence ≠ session.nextInboundSequence) :
    Method.call (acceptInbound P bytes) session =
      (.error (.err (.unexpectedSequence session.nextInboundSequence frame.sequence)),
        session) := by
  rw [acceptInbound, Method.call_get_bind, hbudget, Method.call_ok_bind, hdecode,
    Method.call_ok_bind, peerCheck, require, if_neg hne]
  exact Method.call_error_bind

/-- A message that is not sent changes nothing. -/
theorem encodeOutbound_error {fault : Fault PeerError}
    (h : Method.call (encodeOutbound P message) session = (.error fault, session')) :
    session' = session := by
  simp only [encodeOutbound, Method.call_get_bind] at h
  rcases Method.call_lift_bind_error h with ⟨_, rfl⟩ | ⟨_, _, h⟩
  · rfl
  rcases Method.call_lift_bind_error h with ⟨_, rfl⟩ | ⟨next, _, h⟩
  · rfl
  rcases Method.call_lift_bind_error h with ⟨_, rfl⟩ | ⟨encoded, _, h⟩
  · rfl
  rcases Method.call_lift_bind_error h with ⟨_, rfl⟩ | ⟨_, hbudget, h⟩
  · rfl
  -- behind the budget there is nothing left that could fail
  rw [Method.call_bind_of_ok (call_charge hbudget)] at h
  simp only [Method.call_modify_bind, Method.call_pure, Prod.mk.injEq, reduceCtorEq,
    false_and] at h

/-- Bytes that are not accepted change nothing. -/
theorem acceptInbound_error {fault : Fault PeerError}
    (h : Method.call (acceptInbound P bytes) session = (.error fault, session')) :
    session' = session := by
  simp only [acceptInbound, Method.call_get_bind] at h
  rcases Method.call_lift_bind_error h with ⟨_, rfl⟩ | ⟨_, hbudget, h⟩
  · rfl
  rcases Method.call_lift_bind_error h with ⟨_, rfl⟩ | ⟨frame, _, h⟩
  · rfl
  rcases Method.call_lift_bind_error h with ⟨_, rfl⟩ | ⟨_, _, h⟩
  · rfl
  rcases Method.call_lift_bind_error h with ⟨_, rfl⟩ | ⟨next, _, h⟩
  · rfl
  rcases Method.call_lift_bind_error h with ⟨_, rfl⟩ | ⟨_, _, h⟩
  · rfl
  rw [Method.call_bind_of_ok (call_charge hbudget)] at h
  simp only [Method.call_modify_bind, Method.call_pure, Prod.mk.injEq, reduceCtorEq,
    false_and] at h

/-- What is sent is a frame, and short. -/
theorem toNat_length_of_encode {frame : PeerFrame}
    (h : encodePeerFrame P frame = .ok bytes) :
    (UInt64.ofNat bytes.length).toNat = bytes.length := by
  have hle := length_encodePeerFrame h
  have hmax : peerFrameHeaderBytes + maxPeerPayloadBytes < 2 ^ 64 := by decide
  rw [UInt64.toNat_ofNat', Nat.mod_eq_of_lt (by omega)]

/-- And so is what is accepted. -/
theorem toNat_length_of_decode {frame : PeerFrame} {networkId : Bytes32}
    (h : decodePeerFrame P bytes networkId = .ok frame) :
    (UInt64.ofNat bytes.length).toNat = bytes.length :=
  toNat_length_of_encode (decodePeerFrame_iff.mp h).2

/-- The account after a frame that the budget allows. -/
theorem toNat_charged {frameBytes : Nat} (h : session.ensureBudget frameBytes = .ok ())
    (hlength : (UInt64.ofNat frameBytes).toNat = frameBytes) :
    (session.charged frameBytes).messagesUsed.toNat = session.messagesUsed.toNat + 1 ∧
      (session.charged frameBytes).bytesUsed.toNat = session.bytesUsed.toNat + frameBytes := by
  obtain ⟨hmessages, htotal⟩ := ensureBudget_eq_ok.mp h
  have hmax := toNat_lt session.limits.maxMessagesPerPeer
  have hmax' := toNat_lt session.limits.maxBytesPerPeer
  have hone : (1 : UInt64).toNat = 1 := rfl
  constructor
  · exact toNat_add_of_lt (by omega)
  · refine (toNat_add_of_lt (by omega)).trans ?_
    rw [hlength]

end

end PeerSession

/-! ## Runs -/

/-- A call on a session. -/
inductive SessionCall where
  | encodeHello
  | encodeOutbound (message : PeerMessage)
  | acceptInbound (bytes : List UInt8)

/-- A frame that has passed: the message, and the bytes. -/
structure PeerRecord where
  message : PeerMessage
  bytes : List UInt8
  deriving DecidableEq

/-- What a call that succeeds has let through. -/
inductive SessionResult where
  | sent (record : PeerRecord)
  | accepted (record : PeerRecord)
  deriving DecidableEq

def SessionCall.method (P : Platform) : SessionCall → SessionMethod SessionResult
  | .encodeHello => do
      let session ← get
      return .sent ⟨.hello session.localHello, ← PeerSession.encodeHello P⟩
  | .encodeOutbound message => do
      return .sent ⟨message, ← PeerSession.encodeOutbound P message⟩
  | .acceptInbound bytes => do
      return .accepted ⟨← PeerSession.acceptInbound P bytes, bytes⟩

/-- A session, and the frames that have passed through it. -/
structure SessionRun where
  session : PeerSession
  accepted : List PeerRecord
  sent : List PeerRecord

namespace SessionRun

/-- A session on which nothing was called. -/
def start (session : PeerSession) : SessionRun := { session, accepted := [], sent := [] }

/-- One call.  The session is what the call leaves behind, also where it fails. -/
def call (P : Platform) (run : SessionRun) (call : SessionCall) : SessionRun :=
  match Method.call (call.method P) run.session with
  | (.ok (.sent record), session) => { run with session, sent := run.sent ++ [record] }
  | (.ok (.accepted record), session) => { run with session, accepted := run.accepted ++ [record] }
  | (.error _, session) => { run with session }

def calls (P : Platform) (calls : List SessionCall) (run : SessionRun) : SessionRun :=
  calls.foldl (SessionRun.call P) run

end SessionRun

/-- The bytes of frames, all together. -/
def totalBytes (records : List PeerRecord) : Nat :=
  (records.map fun record => record.bytes.length).sum

/-- A session that has kept account of what has passed through it. -/
structure SessionRun.Counted (P : Platform) (localHello : PeerHello) (limits : PeerLimits)
    (run : SessionRun) : Prop where
  localHello_eq : run.session.localHello = localHello
  limits_eq : run.session.limits = limits
  inbound : run.session.nextInboundSequence.toNat = run.accepted.length
  outbound : run.session.nextOutboundSequence.toNat = run.sent.length
  messages : run.session.messagesUsed.toNat = run.accepted.length + run.sent.length
  bytes : run.session.bytesUsed.toNat = totalBytes run.accepted + totalBytes run.sent
  messages_le : run.session.messagesUsed.toNat ≤ limits.maxMessagesPerPeer.toNat
  bytes_le : run.session.bytesUsed.toNat ≤ limits.maxBytesPerPeer.toNat
  accepted : ∀ i record, run.accepted[i]? = some record → ∃ sequence : UInt64,
    sequence.toNat = i ∧
    decodePeerFrame P record.bytes localHello.networkId =
      .ok { sequence, message := record.message }
  sent : ∀ i record, run.sent[i]? = some record → ∃ sequence : UInt64,
    sequence.toNat = i ∧
    encodePeerFrame P { sequence, message := record.message } = .ok record.bytes

section

variable {P : Platform} {session session' : PeerSession} {call : SessionCall}

/-- What a call that succeeds has called. -/
theorem SessionCall.method_eq_ok {result : SessionResult}
    (h : Method.call (call.method P) session = (.ok result, session')) :
    (∃ record, result = .sent record ∧
      Method.call (PeerSession.encodeOutbound P record.message) session =
        (.ok record.bytes, session')) ∨
    ∃ record, result = .accepted record ∧
      Method.call (PeerSession.acceptInbound P record.bytes) session =
        (.ok record.message, session') := by
  cases call with
  | encodeHello =>
      simp only [SessionCall.method, Method.call_get_bind, Method.call_bind_pure_eq_ok] at h
      obtain ⟨bytes, h, rfl⟩ := h
      rw [PeerSession.encodeHello, Method.call_get_bind] at h
      exact .inl ⟨_, rfl, h⟩
  | encodeOutbound message =>
      simp only [SessionCall.method, Method.call_bind_pure_eq_ok] at h
      obtain ⟨bytes, h, rfl⟩ := h
      exact .inl ⟨_, rfl, h⟩
  | acceptInbound bytes =>
      simp only [SessionCall.method, Method.call_bind_pure_eq_ok] at h
      obtain ⟨message, h, rfl⟩ := h
      exact .inr ⟨_, rfl, h⟩

/-- A call that fails leaves the session as it was. -/
theorem SessionCall.method_error {fault : Fault PeerError}
    (h : Method.call (call.method P) session = (.error fault, session')) :
    session' = session := by
  cases call with
  | encodeHello =>
      simp only [SessionCall.method, Method.call_get_bind, Method.call_bind_pure_error] at h
      rw [PeerSession.encodeHello, Method.call_get_bind] at h
      exact PeerSession.encodeOutbound_error h
  | encodeOutbound message =>
      simp only [SessionCall.method, Method.call_bind_pure_error] at h
      exact PeerSession.encodeOutbound_error h
  | acceptInbound bytes =>
      simp only [SessionCall.method, Method.call_bind_pure_error] at h
      exact PeerSession.acceptInbound_error h

end

section

variable {P : Platform} {localHello : PeerHello} {limits : PeerLimits} {session : PeerSession}
  {run : SessionRun}

theorem totalBytes_concat (records : List PeerRecord) (record : PeerRecord) :
    totalBytes (records ++ [record]) = totalBytes records + record.bytes.length := by
  simp [totalBytes]

/-- A list of numbered entries takes the next one. -/
theorem numbered_concat {α : Type} {p : Nat → α → Prop} {entries : List α} {entry : α}
    (h : ∀ i a, entries[i]? = some a → p i a) (hentry : p entries.length entry) (i : Nat) (a : α)
    (ha : (entries ++ [entry])[i]? = some a) : p i a := by
  rcases Nat.lt_trichotomy i entries.length with hi | rfl | hi
  · exact h i a (by rwa [List.getElem?_append_left hi] at ha)
  · rw [List.getElem?_concat_length] at ha
    obtain rfl := Option.some.inj ha
    exact hentry
  · rw [List.getElem?_eq_none (by simp; omega)] at ha
    cases ha

namespace SessionRun.Counted

theorem start (h : PeerSession.new localHello limits = .ok session) :
    Counted P localHello limits (.start session) := by
  simp only [PeerSession.new, bind_eq_ok, pure_eq_ok] at h
  obtain ⟨_, _, _, _, rfl⟩ := h
  exact ⟨rfl, rfl, rfl, rfl, rfl, rfl, Nat.zero_le _, Nat.zero_le _, by simp [SessionRun.start],
    by simp [SessionRun.start]⟩

/-- A frame is sent. -/
theorem send (h : Counted P localHello limits run) {record : PeerRecord}
    (hcall : Method.call (PeerSession.encodeOutbound P record.message) run.session =
      (.ok record.bytes, session)) :
    Counted P localHello limits { run with session, sent := run.sent ++ [record] } := by
  obtain ⟨_, hencode, hbudget, next, hnext, rfl⟩ := PeerSession.encodeOutbound_eq_ok.mp hcall
  have hlength := PeerSession.toNat_length_of_encode hencode
  obtain ⟨hmessages, hbytes⟩ := PeerSession.toNat_charged hbudget hlength
  obtain ⟨hfits, hfits'⟩ := PeerSession.ensureBudget_eq_ok.mp hbudget
  rw [hlength] at hfits'
  rw [h.limits_eq] at hfits hfits'
  rw [h.messages] at hmessages
  rw [h.bytes] at hbytes
  exact {
    localHello_eq := h.localHello_eq
    limits_eq := h.limits_eq
    inbound := h.inbound
    outbound := by
      rw [List.length_append, List.length_singleton, ← h.outbound]
      exact hnext
    messages := by
      rw [List.length_append, List.length_singleton, ← Nat.add_assoc]
      exact hmessages
    bytes := by
      rw [totalBytes_concat, ← Nat.add_assoc]
      exact hbytes
    messages_le := by
      rw [h.messages] at hfits
      exact hmessages.trans_le hfits
    bytes_le := by
      rw [h.bytes] at hfits'
      exact hbytes.trans_le hfits'
    accepted := h.accepted
    sent := numbered_concat h.sent ⟨_, h.outbound, hencode⟩ }

/-- A frame is accepted. -/
theorem accept (h : Counted P localHello limits run) {record : PeerRecord}
    (hcall : Method.call (PeerSession.acceptInbound P record.bytes) run.session =
      (.ok record.message, session)) :
    Counted P localHello limits { run with session, accepted := run.accepted ++ [record] } := by
  obtain ⟨hbudget, hdecode, _, next, hnext, rfl⟩ := PeerSession.acceptInbound_eq_ok.mp hcall
  have hlength := PeerSession.toNat_length_of_decode hdecode
  obtain ⟨hmessages, hbytes⟩ := PeerSession.toNat_charged hbudget hlength
  obtain ⟨hfits, hfits'⟩ := PeerSession.ensureBudget_eq_ok.mp hbudget
  rw [hlength] at hfits'
  rw [h.limits_eq] at hfits hfits'
  rw [h.messages] at hmessages
  rw [h.bytes] at hbytes
  rw [h.localHello_eq] at hdecode
  -- of all the fields a hello changes one that is not counted
  have hafter : ∃ remoteHello, run.session.afterReceived record.message next record.bytes.length =
      { run.session.charged record.bytes.length with
        nextInboundSequence := next, remoteHello := remoteHello } := by
    unfold PeerSession.afterReceived PeerSession.received
    split
    · exact ⟨_, rfl⟩
    · exact ⟨run.session.remoteHello, rfl⟩
  obtain ⟨remoteHello, hafter⟩ := hafter
  rw [hafter]
  exact {
    localHello_eq := h.localHello_eq
    limits_eq := h.limits_eq
    inbound := by
      rw [List.length_append, List.length_singleton, ← h.inbound]
      exact hnext
    outbound := h.outbound
    messages := by
      rw [List.length_append, List.length_singleton, Nat.add_right_comm]
      exact hmessages
    bytes := by
      rw [totalBytes_concat, Nat.add_right_comm]
      exact hbytes
    messages_le := by
      rw [h.messages] at hfits
      exact hmessages.trans_le hfits
    bytes_le := by
      rw [h.bytes] at hfits'
      exact hbytes.trans_le hfits'
    accepted := numbered_concat h.accepted ⟨_, h.inbound, hdecode⟩
    sent := h.sent }

/-- Every call keeps the account. -/
theorem call (h : Counted P localHello limits run) (call : SessionCall) :
    Counted P localHello limits (run.call P call) := by
  rcases hcall : Method.call (call.method P) run.session with ⟨outcome, session⟩
  rw [SessionRun.call, hcall]
  cases outcome with
  | error fault =>
      obtain rfl := SessionCall.method_error hcall
      exact h
  | ok result =>
      rcases SessionCall.method_eq_ok hcall with ⟨record, rfl, hsend⟩ | ⟨record, rfl, haccept⟩
      · exact h.send hsend
      · exact h.accept haccept

theorem calls (h : Counted P localHello limits run) (calls : List SessionCall) :
    Counted P localHello limits (run.calls P calls) := by
  induction calls generalizing run with
  | nil => exact h
  | cons call rest ih => exact ih (h.call call)

end SessionRun.Counted

/-- Whatever bytes arrive on a session, and whatever is sent between them: the accepted
frames are numbered `0, 1, 2, …`, the account is exact and within its limits, and a
call that fails leaves the whole session as it was. -/
theorem session_adversary (hnew : PeerSession.new localHello limits = .ok session)
    (calls : List SessionCall) :
    let run := (SessionRun.start session).calls P calls
    (∀ i record, run.accepted[i]? = some record → ∃ sequence : UInt64, sequence.toNat = i ∧
      decodePeerFrame P record.bytes localHello.networkId =
        .ok { sequence, message := record.message }) ∧
    run.session.nextInboundSequence.toNat = run.accepted.length ∧
    run.session.messagesUsed.toNat = run.accepted.length + run.sent.length ∧
    run.session.messagesUsed.toNat ≤ limits.maxMessagesPerPeer.toNat ∧
    run.session.bytesUsed.toNat = totalBytes run.accepted + totalBytes run.sent ∧
    run.session.bytesUsed.toNat ≤ limits.maxBytesPerPeer.toNat ∧
    ∀ (call : SessionCall) fault after,
      Method.call (call.method P) run.session = (.error fault, after) → after = run.session := by
  intro run
  have hcounted := (SessionRun.Counted.start hnew).calls (P := P) calls
  exact ⟨hcounted.accepted, hcounted.inbound, hcounted.messages, hcounted.messages_le,
    hcounted.bytes, hcounted.bytes_le, fun _ _ _ h => SessionCall.method_error h⟩

end

def sampleHello : PeerHello where
  networkId := zero32
  consensusFingerprint := zero32
  nodeNonce := sampleDigest []
  tip := zero32
  height := 0
  cumulativeWork := ⟨List.replicate 64 0, rfl⟩

def sampleSession : PeerSession where
  localHello := sampleHello
  remoteHello := none
  helloSent := false
  nextOutboundSequence := 0
  nextInboundSequence := 0
  messagesUsed := 0
  bytesUsed := 0
  limits := .default

theorem session_adversary_sample :
    PeerSession.new sampleHello .default = .ok sampleSession ∧
      (((SessionRun.start sampleSession).calls samplePlatform
        [.encodeHello, .acceptInbound [0, 1, 2]]).session.bytesUsed.toNat ≤ 32 * 1024 * 1024) := by
  have hnew : PeerSession.new sampleHello .default = .ok sampleSession := by decide
  have h := session_adversary (P := samplePlatform) hnew [.encodeHello, .acceptInbound [0, 1, 2]]
  exact ⟨hnew, h.2.2.2.2.2.1⟩

end CommonFoundry
