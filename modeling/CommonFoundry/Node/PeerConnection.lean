/-
# `CommonFoundry.Node.PeerConnection` — a session over a stream of bytes

`PeerConnection` of `peer.rs`.  `receive` reads a header, looks at it, and reads as much as it
says before the session sees the frame; a read gives as many bytes as it likes, or fails.

`receive_eq_ok` and `receive_of_accept`: however the reads are cut, a frame is received if and
only if it is the start of the stream and the session accepts it; `receive_error` is what a
failure leaves behind.

`Wire` is two connections and the bytes between them, with reads and writes that fail anywhere.
What passes through the two sessions is what passes over a link that keeps its frames whole
(`wire_refines_link`).
-/
import CommonFoundry.Lib.InterruptedReader
import CommonFoundry.Node.PeerLink

namespace CommonFoundry

open Lib Lib.Outcome

/-- `PeerError` with the errors of addresses and sockets. -/
inductive ConnectionError where
  | frame (error : PeerError)
  | nonPrivateAddress
  | unsafeAddress
  | totalTimeout
  | idleTimeout
  | io
  deriving DecidableEq

/-- What is to be read from the socket, and the session. -/
structure PeerConnection where
  stream : InterruptedReader ConnectionError
  session : PeerSession

/-- `&mut self` methods of a connection. -/
abbrev ConnectionMethod (α : Type) := Method PeerConnection ConnectionError α

/-- `read_exact_bounded`, from what has been read so far.  A read that is interrupted is an error
like any other. -/
def readExactBounded (length : Nat) (bytes : List UInt8)
    (stream : InterruptedReader ConnectionError) :
    Outcome ConnectionError (List UInt8) × InterruptedReader ConnectionError :=
  if bytes.length < length then
    match stream.read (length - bytes.length) with
    | (.bytes [], stream) => (fail (.frame (.truncated length bytes.length)), stream)
    | (.bytes (byte :: read), stream) => readExactBounded length (bytes ++ byte :: read) stream
    | (.interrupted, stream) => (fail .io, stream)
    | (.failed error, stream) => (fail error, stream)
  else (.ok bytes, stream)
termination_by length - bytes.length
decreasing_by
  rw [List.length_append, List.length_cons]
  omega

namespace PeerKind

/-- The kinds that `validate_frame_header` lets through. -/
def all : List UInt8 :=
  [hello, getHeaders, inventory, getBlock, block, getMempool, transactionInventory,
    getTransaction, transaction, submitBlock, blockSubmissionResult, getMiningTemplate,
    miningTemplate]

end PeerKind

def validateFrameHeader (header : List UInt8) : Outcome PeerError Unit := do
  peerCheck (header.length = peerFrameHeaderBytes) (.truncated peerFrameHeaderBytes header.length)
  let magic ← sliceAt header 0 4
  peerCheck (magic = peerMagic) .invalidMagic
  let versionBytes ← sliceAt header 4 6
  let version := UInt16.ofNat (ofLe versionBytes)
  peerCheck (version = peerProtocolVersion) (.unsupportedVersion version)
  let kind ← byteAt header 6
  peerCheck (kind ∈ PeerKind.all) (.unknownKind kind)
  let flags ← byteAt header 7
  peerCheck (flags = 0) .nonZeroFlags

namespace PeerConnection

def readExact (length : Nat) : ConnectionMethod (List UInt8) := do
  let connection ← get
  let (result, stream) := readExactBounded length [] connection.stream
  set { connection with stream }
  result

/-- A method of the session. -/
def onSession {α : Type} (method : SessionMethod α) : ConnectionMethod α := do
  let connection ← get
  let (result, session) := Method.call method connection.session
  set { connection with session }
  mapErr ConnectionError.frame result

variable (P : Platform)

def receive : ConnectionMethod PeerMessage := do
  let header ← readExact peerFrameHeaderBytes
  mapErr ConnectionError.frame (validateFrameHeader header)
  let lengthBytes ← mapErr ConnectionError.frame (sliceAt header 16 20)
  let payloadLength := ofLe lengthBytes
  let kind ← mapErr ConnectionError.frame (byteAt header 6)
  mapErr ConnectionError.frame (peerCheck (¬payloadLength > payloadLimitOf kind)
    (.payloadTooLarge payloadLength (payloadLimitOf kind)))
  let connection ← get
  mapErr ConnectionError.frame
    (connection.session.ensureBudget (peerFrameHeaderBytes + payloadLength))
  let payload ← readExact payloadLength
  onSession (PeerSession.acceptInbound P (header ++ payload))

end PeerConnection

/-! ## Reading -/

section

variable {stream stream' : InterruptedReader ConnectionError}

/-- What was read and what is left make up the stream; a read that does not fill the buffer takes
less than fits. -/
theorem readExactBounded_spec {length : Nat} {bytes : List UInt8}
    (hle : bytes.length ≤ length) {result : Outcome ConnectionError (List UInt8)}
    (h : readExactBounded length bytes stream = (result, stream')) :
    match result with
    | .ok all => bytes ++ stream.rest = all ++ stream'.rest ∧ all.length = length
    | .error _ => ∃ read, stream.rest = read ++ stream'.rest ∧
        bytes.length + read.length < length := by
  induction bytes, stream using readExactBounded.induct length with
  | case1 bytes stream hlt after hread =>
      rw [readExactBounded, if_pos hlt, hread] at h
      cases h
      obtain ⟨hrest, -⟩ := InterruptedReader.read_spec hread
      exact ⟨[], hrest, hlt⟩
  | case2 bytes stream hlt byte read after hread ih =>
      rw [readExactBounded, if_pos hlt, hread] at h
      obtain ⟨hrest, hlength, -⟩ := InterruptedReader.read_spec hread
      have hfits : (bytes ++ byte :: read).length ≤ length := by
        rw [List.length_append]
        omega
      have hspec := ih hfits h
      cases result with
      | ok all =>
          rw [List.append_assoc, ← hrest] at hspec
          exact hspec
      | error fault =>
          obtain ⟨more, hmore, hless⟩ := hspec
          rw [List.length_append] at hless
          refine ⟨byte :: read ++ more, ?_, ?_⟩
          · rw [hrest, hmore, List.append_assoc]
          · rw [List.length_append]
            omega
  | case3 bytes stream hlt after hread =>
      rw [readExactBounded, if_pos hlt, hread] at h
      cases h
      obtain ⟨hrest, -⟩ := InterruptedReader.read_spec hread
      exact ⟨[], hrest.symm, hlt⟩
  | case4 bytes stream hlt error after hread =>
      rw [readExactBounded, if_pos hlt, hread] at h
      cases h
      obtain ⟨hrest, -⟩ := InterruptedReader.read_spec hread
      exact ⟨[], hrest.symm, hlt⟩
  | case5 bytes stream hfull =>
      rw [readExactBounded, if_neg hfull] at h
      cases h
      exact ⟨rfl, Nat.le_antisymm hle (Nat.le_of_not_lt hfull)⟩

/-- Where no read fails, all that is there is read. -/
theorem readExactBounded_steady {length : Nat} {bytes : List UInt8} (hsteady : stream.Steady)
    (hroom : length ≤ bytes.length + stream.rest.length) :
    ∃ all stream', readExactBounded length bytes stream = (.ok all, stream') ∧ stream'.Steady := by
  induction bytes, stream using readExactBounded.induct length with
  | case1 bytes stream hlt after hread =>
      obtain ⟨-, -, hnil, -⟩ := InterruptedReader.read_spec hread
      have hempty := congrArg List.length ((hnil rfl).resolve_left (by omega))
      rw [List.length_nil] at hempty
      omega
  | case2 bytes stream hlt byte read after hread ih =>
      obtain ⟨hrest, -⟩ := InterruptedReader.read_spec hread
      obtain ⟨_, _, heq, hafter⟩ := hsteady.read (length - bytes.length)
      obtain ⟨-, rfl⟩ := Prod.mk.inj (hread.symm.trans heq)
      rw [readExactBounded, if_pos hlt, hread]
      refine ih hafter ?_
      rw [hrest, List.length_append] at hroom
      rw [List.length_append]
      omega
  | case3 bytes stream hlt after hread =>
      obtain ⟨_, _, heq, -⟩ := hsteady.read (length - bytes.length)
      cases hread.symm.trans heq
  | case4 bytes stream hlt error after hread =>
      obtain ⟨_, _, heq, -⟩ := hsteady.read (length - bytes.length)
      cases hread.symm.trans heq
  | case5 bytes stream hfull =>
      rw [readExactBounded, if_neg hfull]
      exact ⟨_, _, rfl, hsteady⟩

end

namespace PeerConnection

section

variable {P : Platform} {connection connection' : PeerConnection} {length : Nat}
  {bytes : List UInt8}

theorem call_readExact (length : Nat) (connection : PeerConnection) :
    Method.call (readExact length) connection =
      ((readExactBounded length [] connection.stream).1,
        { connection with stream := (readExactBounded length [] connection.stream).2 }) := by
  rw [readExact, Method.call_get_bind]
  rcases readExactBounded length [] connection.stream with ⟨_ | _, _⟩ <;> rfl

theorem call_onSession {α : Type} (method : SessionMethod α) (connection : PeerConnection) :
    Method.call (onSession method) connection =
      (mapErr ConnectionError.frame (Method.call method connection.session).1,
        { connection with session := (Method.call method connection.session).2 }) := by
  rw [onSession, Method.call_get_bind]
  rcases Method.call method connection.session with ⟨_ | _, _⟩ <;> rfl

theorem readExact_eq_ok
    (h : Method.call (readExact length) connection = (.ok bytes, connection')) :
    connection.stream.rest = bytes ++ connection'.stream.rest ∧ bytes.length = length ∧
      connection'.session = connection.session := by
  rw [call_readExact] at h
  rcases hread : readExactBounded length [] connection.stream with ⟨result, stream⟩
  rw [hread] at h
  obtain ⟨rfl, rfl⟩ := Prod.mk.inj h
  have hspec := readExactBounded_spec (Nat.zero_le length) hread
  exact ⟨hspec.1, hspec.2, rfl⟩

theorem readExact_error {fault : Fault ConnectionError}
    (h : Method.call (readExact length) connection = (.error fault, connection')) :
    ∃ read, connection.stream.rest = read ++ connection'.stream.rest ∧ read.length < length ∧
      connection'.session = connection.session := by
  rw [call_readExact] at h
  rcases hread : readExactBounded length [] connection.stream with ⟨result, stream⟩
  rw [hread] at h
  obtain ⟨rfl, rfl⟩ := Prod.mk.inj h
  have hspec := readExactBounded_spec (Nat.zero_le length) hread
  obtain ⟨read, hrest, hless⟩ := hspec
  rw [List.length_nil, Nat.zero_add] at hless
  exact ⟨read, hrest, hless, rfl⟩

theorem readExact_steady (hsteady : connection.stream.Steady) {rest : List UInt8}
    (hrest : connection.stream.rest = bytes ++ rest) :
    ∃ stream, Method.call (readExact bytes.length) connection =
      (.ok bytes, { connection with stream }) ∧ stream.rest = rest ∧ stream.Steady := by
  have hroom : bytes.length ≤ ([] : List UInt8).length + connection.stream.rest.length := by
    rw [hrest, List.length_append, List.length_nil]
    omega
  obtain ⟨all, stream, hread, hafter⟩ := readExactBounded_steady hsteady hroom
  have hcall := call_readExact bytes.length connection
  rw [hread] at hcall
  obtain ⟨hall, hlength, -⟩ := readExact_eq_ok hcall
  obtain ⟨rfl, hstream⟩ := List.append_inj (hall.symm.trans hrest) hlength
  exact ⟨stream, hcall, hstream, hafter⟩

end

end PeerConnection

/-! ## Receiving -/

/-- The kind under which a message is sent. -/
def PeerMessage.kind : PeerMessage → UInt8
  | .hello _ => PeerKind.hello
  | .getHeaders _ _ => PeerKind.getHeaders
  | .inventory _ => PeerKind.inventory
  | .getBlock _ => PeerKind.getBlock
  | .block _ => PeerKind.block
  | .submitBlock _ => PeerKind.submitBlock
  | .blockSubmissionResult _ => PeerKind.blockSubmissionResult
  | .getMempool => PeerKind.getMempool
  | .transactionInventory _ => PeerKind.transactionInventory
  | .getTransaction _ => PeerKind.getTransaction
  | .transaction _ => PeerKind.transaction
  | .getMiningTemplate _ => PeerKind.getMiningTemplate
  | .miningTemplate _ => PeerKind.miningTemplate

section

variable {P : Platform} {connection connection' : PeerConnection} {bytes : List UInt8}
  {message : PeerMessage}

theorem kind_of_encode {kind : UInt8} {payload : List UInt8}
    (h : encodeMessage P message = .ok (kind, payload)) : kind = message.kind := by
  cases message <;>
    simp only [encodeMessage, bind_eq_ok, pure_eq_ok, Prod.mk.injEq] at h <;>
    grind [PeerMessage.kind]

/-- The kinds that the codec knows are those that the header check knows. -/
theorem kind_mem_all (message : PeerMessage) : message.kind ∈ PeerKind.all := by
  cases message <;> simp [PeerMessage.kind, PeerKind.all]

/-- The header of a frame that decodes passes the header check, and says how long it is. -/
theorem validateFrameHeader_of_decode {networkId : Bytes32} {frame : PeerFrame}
    (h : decodePeerFrame P bytes networkId = .ok frame) :
    ∃ header payload lengthBytes kind, bytes = header ++ payload ∧
      header.length = peerFrameHeaderBytes ∧ validateFrameHeader header = .ok () ∧
      (sliceAt header 16 20 : Outcome PeerError _) = .ok lengthBytes ∧
      (byteAt header 6 : Outcome PeerError _) = .ok kind ∧
      ofLe lengthBytes = payload.length ∧ payload.length ≤ payloadLimitOf kind := by
  obtain ⟨-, hencode⟩ := decodePeerFrame_iff.mp h
  obtain ⟨kind, payload, word, hmessage, hle, hword, rfl⟩ := encodePeerFrame_eq_ok.mp hencode
  let parts : PeerFrameParts (peerMagic ++ (leBytes16 peerProtocolVersion ++ kind :: 0 ::
      (leBytes64 frame.sequence ++ (leBytes32 word ++ [])))) :=
    ⟨⟨peerMagic, rfl⟩, ⟨_, length_leBytes16 peerProtocolVersion⟩, kind, 0,
      ⟨_, length_leBytes64 frame.sequence⟩, ⟨_, length_leBytes32 word⟩, [], rfl⟩
  obtain ⟨h0, h4, h6, h7, -, h16, -⟩ := parts.reads
  refine ⟨_, payload, _, kind, ?_, parts.length_eq, ?_, h16, h6, ?_, ?_⟩
  · simp only [List.append_assoc, List.cons_append, List.append_nil]
  · rw [validateFrameHeader, h0, h4, h6, h7]
    simp only [ok_bind, bind_eq_ok, peerCheck_eq_ok]
    have hkind : kind ∈ PeerKind.all := kind_of_encode hmessage ▸ kind_mem_all frame.message
    exact ⟨(), parts.length_eq, (), rfl, (), rfl, (), hkind, rfl⟩
  · exact (ofLe_leBytes32 word).trans hword
  · exact payload_le_limit hmessage hle

/-- What is received is the start of the stream, and a frame that the session accepts. -/
theorem receive_eq_ok
    (h : Method.call (PeerConnection.receive P) connection = (.ok message, connection')) :
    ∃ bytes, connection.stream.rest = bytes ++ connection'.stream.rest ∧
      Method.call (PeerSession.acceptInbound P bytes) connection.session =
        (.ok message, connection'.session) := by
  simp only [PeerConnection.receive, Method.call_bind_eq_ok (x := PeerConnection.readExact _),
    Method.call_lift_bind_eq_ok, Method.call_get_bind] at h
  obtain ⟨header, after, hheader, -, -, lengthBytes, -, kind, -, -, -, -, -, payload, last, hpayload,
    haccept⟩ := h
  obtain ⟨hrest, -, hsession⟩ := PeerConnection.readExact_eq_ok hheader
  obtain ⟨hrest', -, hsession'⟩ := PeerConnection.readExact_eq_ok hpayload
  rw [PeerConnection.call_onSession, hsession', hsession] at haccept
  obtain ⟨hresult, rfl⟩ := Prod.mk.inj haccept
  refine ⟨header ++ payload, ?_, Prod.ext (mapErr_eq_ok.mp hresult) rfl⟩
  rw [hrest, hrest', List.append_assoc]

/-- A frame at the start of the stream that the session accepts is received, however the reads
are cut, and nothing behind it is read. -/
theorem receive_of_accept {rest : List UInt8} {session : PeerSession}
    (hsteady : connection.stream.Steady) (hrest : connection.stream.rest = bytes ++ rest)
    (haccept : Method.call (PeerSession.acceptInbound P bytes) connection.session =
      (.ok message, session)) :
    ∃ stream, Method.call (PeerConnection.receive P) connection =
      (.ok message, { stream, session }) ∧ stream.rest = rest ∧ stream.Steady := by
  obtain ⟨hbudget, hdecode, -⟩ := PeerSession.acceptInbound_eq_ok.mp haccept
  obtain ⟨header, payload, lengthBytes, kind, rfl, hlength, hvalid, hslice, hbyte, hpayload, hlimit⟩ :=
    validateFrameHeader_of_decode hdecode
  rw [List.append_assoc] at hrest
  obtain ⟨stream, hread, hstream, hafter⟩ := PeerConnection.readExact_steady hsteady hrest
  have hconnection : ({ connection with stream } : PeerConnection).stream.Steady := hafter
  obtain ⟨stream', hread', hstream', hafter'⟩ :=
    PeerConnection.readExact_steady hconnection hstream
  refine ⟨stream', ?_, hstream', hafter'⟩
  have hroom : connection.session.ensureBudget (peerFrameHeaderBytes + ofLe lengthBytes) =
      .ok () := by
    rw [hpayload, ← hlength, ← List.length_append]
    exact hbudget
  have hcheck : peerCheck (¬ofLe lengthBytes > payloadLimitOf kind)
      (.payloadTooLarge (ofLe lengthBytes) (payloadLimitOf kind)) = .ok () :=
    peerCheck_pos (Nat.not_lt.mpr (hpayload ▸ hlimit))
  rw [hlength] at hread
  rw [PeerConnection.receive, Method.call_bind_of_ok hread, hvalid, hslice, hbyte]
  simp only [mapErr_ok, Method.call_ok_bind, hcheck, Method.call_get_bind, hroom]
  rw [hpayload, Method.call_bind_of_ok hread', PeerConnection.call_onSession, haccept]
  rfl

/-- A connection that fails has read no more than a frame, and its session has not changed. -/
theorem receive_error {fault : Fault ConnectionError}
    (h : Method.call (PeerConnection.receive P) connection = (.error fault, connection')) :
    connection'.session = connection.session ∧ ∃ read,
      connection.stream.rest = read ++ connection'.stream.rest ∧
        read.length ≤ peerFrameHeaderBytes + maxPeerPayloadBytes := by
  rw [PeerConnection.receive, Method.call_bind_eq_error] at h
  rcases h with hheader | ⟨header, after, hheader, h⟩
  · obtain ⟨read, hrest, hless, hsession⟩ := PeerConnection.readExact_error hheader
    exact ⟨hsession, read, hrest, hless.le.trans (Nat.le_add_right _ _)⟩
  obtain ⟨hrest, hlength, hsession⟩ := PeerConnection.readExact_eq_ok hheader
  have hearly : connection' = after → connection'.session = connection.session ∧ ∃ read,
      connection.stream.rest = read ++ connection'.stream.rest ∧
        read.length ≤ peerFrameHeaderBytes + maxPeerPayloadBytes := by
    rintro rfl
    exact ⟨hsession, header, hrest, hlength.le.trans (Nat.le_add_right _ _)⟩
  rcases Method.call_lift_bind_error h with ⟨-, hsame⟩ | ⟨-, -, h⟩
  · exact hearly hsame
  rcases Method.call_lift_bind_error h with ⟨-, hsame⟩ | ⟨lengthBytes, -, h⟩
  · exact hearly hsame
  rcases Method.call_lift_bind_error h with ⟨-, hsame⟩ | ⟨kind, -, h⟩
  · exact hearly hsame
  rcases Method.call_lift_bind_error h with ⟨-, hsame⟩ | ⟨_, hlimit, h⟩
  · exact hearly hsame
  rw [Method.call_get_bind] at h
  rcases Method.call_lift_bind_error h with ⟨-, hsame⟩ | ⟨-, -, h⟩
  · exact hearly hsame
  have hsmall : ofLe lengthBytes ≤ maxPeerPayloadBytes :=
    (Nat.not_lt.mp (peerCheck_eq_ok.mp (mapErr_eq_ok.mp hlimit))).trans (payloadLimitOf_le kind)
  rcases Method.call_bind_eq_error.mp h with hpayload | ⟨payload, last, hpayload, haccept⟩
  · obtain ⟨read, hrest', hless, hsession'⟩ := PeerConnection.readExact_error hpayload
    refine ⟨hsession'.trans hsession, header ++ read, ?_, ?_⟩
    · rw [hrest, hrest', List.append_assoc]
    · rw [List.length_append, hlength]
      exact Nat.add_le_add_left (hless.le.trans hsmall) _
  · obtain ⟨hrest', hlength', hsession'⟩ := PeerConnection.readExact_eq_ok hpayload
    rw [PeerConnection.call_onSession] at haccept
    obtain ⟨hresult, rfl⟩ := Prod.mk.inj haccept
    refine ⟨?_, header ++ payload, ?_, ?_⟩
    · rcases hcall : Method.call (PeerSession.acceptInbound P (header ++ payload)) last.session with
        ⟨_ | _, session⟩
      · exact (PeerSession.acceptInbound_error hcall).trans (hsession'.trans hsession)
      · rw [hcall] at hresult
        cases hresult
    · rw [hrest, hrest', List.append_assoc]
    · rw [List.length_append, hlength, hlength']
      exact Nat.add_le_add_left hsmall _

end

/-! ## Two connections -/

/-- One end: its session and what has passed through it, the bytes that the other end has
written and this one has not read, and whether it is still in use. -/
structure WireEnd where
  run : SessionRun
  incoming : List UInt8
  live : Bool

/-- `send`, and the bytes that get out: all, or so many before the socket fails. -/
def WireEnd.send (P : Platform) (message : PeerMessage) (written : Option Nat) (near : WireEnd) :
    WireEnd × List UInt8 :=
  match Method.call (PeerSession.encodeOutbound P message) near.run.session with
  | (.ok bytes, session) =>
      let run := { near.run with session, sent := near.run.sent ++ [⟨message, bytes⟩] }
      match written with
      | none => ({ near with run }, bytes)
      | some count => ({ near with run, live := false }, bytes.take count)
  | (.error _, session) => ({ near with run := { near.run with session }, live := false }, [])

/-- `receive`, with the answers of the socket. -/
def WireEnd.receive (P : Platform) (answers : List (ReadAnswer ConnectionError))
    (near : WireEnd) : WireEnd :=
  let connection : PeerConnection :=
    { stream := { rest := near.incoming, answers }, session := near.run.session }
  match Method.call (PeerConnection.receive P) connection with
  | (.ok message, after) =>
      let bytes := near.incoming.take (near.incoming.length - after.stream.rest.length)
      { near with
        run := { near.run with
          session := after.session, accepted := near.run.accepted ++ [⟨message, bytes⟩] }
        incoming := after.stream.rest }
  | (.error _, after) =>
      { run := { near.run with session := after.session }
        incoming := after.stream.rest
        live := false }

/-- Both ends. -/
abbrev Wire := Side → WireEnd

namespace Wire

def start (session : Side → PeerSession) : Wire := fun side =>
  { run := .start (session side), incoming := [], live := true }

/-- What has passed through the two sessions. -/
def link (wire : Wire) : Link := fun side => (wire side).run

/-- One end as it is now, and more bytes on their way to the other. -/
def put (wire : Wire) (side : Side) (near : WireEnd) (bytes : List UInt8) : Wire := fun other =>
  if other = side then near else { wire other with incoming := (wire other).incoming ++ bytes }

end Wire

inductive WireEvent where
  | sendHello (side : Side) (written : Option Nat)
  | send (side : Side) (message : PeerMessage) (written : Option Nat)
  | receive (side : Side) (answers : List (ReadAnswer ConnectionError))

/-- An end that has failed is not used again. -/
def WireEvent.perform (P : Platform) (event : WireEvent) (wire : Wire) : Wire :=
  let send (side : Side) (message : PeerMessage) (written : Option Nat) : Wire :=
    if (wire side).live then
      let (near, bytes) := (wire side).send P message written
      wire.put side near bytes
    else wire
  match event with
  | .sendHello side written => send side (.hello (wire side).run.session.localHello) written
  | .send side message written => send side message written
  | .receive side answers =>
      if (wire side).live then wire.put side ((wire side).receive P answers) [] else wire

def Wire.run (P : Platform) (events : List WireEvent) (wire : Wire) : Wire :=
  events.foldl (fun wire event => event.perform P wire) wire

/-! ## The frames in the bytes -/

/-- The bytes of frames, one behind the other. -/
def flightBytes (records : List PeerRecord) : List UInt8 := records.flatMap (·.bytes)

/-- An end in use has before it the frames in flight, up to where the other end broke off. -/
structure Wire.Carries (P : Platform) (networkId : Bytes32) (hello : Side → PeerHello)
    (limits : Side → PeerLimits) (wire : Wire) : Prop where
  honest : Link.Honest P networkId hello limits wire.link
  incoming : ∀ side, (wire side).live = true → ∃ missing,
    (wire side).incoming ++ missing = flightBytes (wire.link.inFlight side) ∧
      (missing ≠ [] → (wire side.other).live = false)

section

variable {P : Platform} {networkId : Bytes32} {hello : Side → PeerHello}
  {limits : Side → PeerLimits} {wire : Wire} {side : Side}

theorem Wire.Carries.start {session : Side → PeerSession}
    (hnew : ∀ side, PeerSession.new (hello side) (limits side) = .ok (session side)) :
    Wire.Carries P networkId hello limits (.start session) where
  honest := .start hnew
  incoming _ _ := ⟨[], rfl, fun hne => absurd rfl hne⟩

/-- A frame that decodes, where the next frame in flight begins, is that frame. -/
theorem Wire.Carries.head (h : wire.Carries P networkId hello limits)
    (hhello : CompatibleHellos networkId hello) (hlive : (wire side).live = true)
    {bytes rest : List UInt8} (hrest : (wire side).incoming = bytes ++ rest) {frame : PeerFrame}
    (hdecode : decodePeerFrame P bytes networkId = .ok frame) :
    ∃ record flight, wire.link.inFlight side = record :: flight ∧ record.bytes = bytes := by
  obtain ⟨missing, hmissing, -⟩ := h.incoming side hlive
  have hfirst : bytes ≠ [] := by
    rintro rfl
    cases hdecode
  cases hflight : wire.link.inFlight side with
  | nil =>
      rw [hflight, hrest, flightBytes, List.flatMap_nil, List.append_assoc] at hmissing
      exact absurd (List.append_eq_nil_iff.mp hmissing).1 hfirst
  | cons record flight =>
      refine ⟨record, flight, rfl, ?_⟩
      obtain ⟨sequence, -, hrecord⟩ := h.honest.decode_sent hhello (h.honest.sent_head hflight)
      rw [(h.honest.counted side).localHello_eq, hhello.network] at hrecord
      rw [hflight, hrest, flightBytes, List.flatMap_cons, List.append_assoc] at hmissing
      rcases List.append_eq_append_iff.mp hmissing with ⟨extra, heq, -⟩ | ⟨extra, heq, -⟩
      · rw [heq] at hrecord
        rw [heq, decodePeerFrame_prefix hdecode hrecord, List.append_nil]
      · rw [heq] at hdecode
        rw [heq, decodePeerFrame_prefix hrecord hdecode, List.append_nil]

theorem Wire.link_put (wire : Wire) (side : Side) (near : WireEnd) (bytes : List UInt8) :
    (wire.put side near bytes).link = Function.update wire.link side near.run := by
  funext other
  rw [Wire.link, Wire.put, Function.update_apply]
  split <;> rfl

theorem Wire.put_self (wire : Wire) (side : Side) (near : WireEnd) (bytes : List UInt8) :
    wire.put side near bytes side = near := if_pos rfl

theorem Wire.put_other (wire : Wire) (side : Side) (near : WireEnd) (bytes : List UInt8) :
    wire.put side near bytes side.other =
      { wire side.other with incoming := (wire side.other).incoming ++ bytes } :=
  if_neg side.other_ne

/-- What holds at both ends. -/
theorem Side.forall_iff {p : Side → Prop} (side : Side) : (∀ s, p s) ↔ p side ∧ p side.other := by
  constructor
  · exact fun h => ⟨h side, h side.other⟩
  · rintro ⟨hself, hother⟩ s
    by_cases hs : s = side
    · exact hs ▸ hself
    · exact Side.eq_other hs ▸ hother

/-- An end that fails, and has not let anything through its session. -/
theorem Wire.Carries.close (h : wire.Carries P networkId hello limits) (side : Side)
    (near : WireEnd) (hrun : near.run = (wire side).run) (hclosed : near.live = false) :
    (wire.put side near []).link = wire.link ∧
      Wire.Carries P networkId hello limits (wire.put side near []) := by
  have hlink : (wire.put side near []).link = wire.link := by
    rw [Wire.link_put, hrun]
    exact Function.update_eq_self side wire.link
  refine ⟨hlink, ⟨hlink.symm ▸ h.honest, (Side.forall_iff side).mpr ⟨?_, ?_⟩⟩⟩
  · rw [Wire.put_self, hclosed]
    exact nofun
  · rw [Wire.put_other, hlink, Side.other_other, Wire.put_self, hclosed, List.append_nil]
    intro hlive
    obtain ⟨missing, hmissing, -⟩ := h.incoming side.other hlive
    exact ⟨missing, hmissing, fun _ => rfl⟩

theorem inFlight_of_sent {link : Link} (session : PeerSession) (record : PeerRecord)
    (h : (link side.other).accepted <+: (link side).sent) :
    let sent := Function.update link side
      { link side with session, sent := (link side).sent ++ [record] }
    Link.inFlight sent side = link.inFlight side ∧
      Link.inFlight sent side.other = link.inFlight side.other ++ [record] := by
  intro sent
  have hother : sent side.other = link side.other := Function.update_of_ne side.other_ne ..
  have hself : sent side = { link side with session, sent := (link side).sent ++ [record] } :=
    Function.update_self ..
  constructor
  · rw [Link.inFlight, hself, hother]
    rfl
  · rw [Link.inFlight, Link.inFlight, Side.other_other, hself, hother]
    exact List.drop_append_of_le_length h.length_le

theorem Wire.Carries.send (h : wire.Carries P networkId hello limits)
    {message : PeerMessage} (hmessage : message.OnNetwork networkId)
    (hlive : (wire side).live = true) (written : Option Nat) :
    let sent := (wire side).send P message written
    ((wire.put side sent.1 sent.2).link = wire.link ∨
        (wire.put side sent.1 sent.2).link =
          (LinkEvent.encodeOutbound side message).perform P wire.link) ∧
      Wire.Carries P networkId hello limits (wire.put side sent.1 sent.2) := by
  intro sent
  rcases hcall : Method.call (PeerSession.encodeOutbound P message) (wire side).run.session with
    ⟨fault | bytes, session⟩
  · have hsent : sent = ({ wire side with
        run := { (wire side).run with session }, live := false }, []) := by
      show WireEnd.send P message written (wire side) = _
      rw [WireEnd.send, hcall]
    obtain rfl := PeerSession.encodeOutbound_error hcall
    rw [hsent]
    obtain ⟨hlink, hcarries⟩ := h.close side { wire side with live := false } rfl rfl
    exact ⟨.inl hlink, hcarries⟩
  · let record : PeerRecord := ⟨message, bytes⟩
    let run : SessionRun := { (wire side).run with
      session, sent := (wire side).run.sent ++ [record] }
    have hmethod : Method.call (SessionCall.method P (.encodeOutbound message))
        (wire side).run.session = (.ok (.sent record), session) :=
      Method.call_bind_pure_eq_ok.mpr ⟨bytes, hcall, rfl⟩
    have hevent : (LinkEvent.encodeOutbound side message).perform P wire.link =
        Function.update wire.link side run := by
      show Function.update wire.link side ((wire side).run.call P _) = _
      rw [SessionRun.call, hmethod]
    -- what gets out, and what does not
    obtain ⟨live, out, lost, hsent, hbytes, hlost⟩ : ∃ live out lost,
        sent = ({ wire side with run, live }, out) ∧ out ++ lost = bytes ∧
          (lost ≠ [] → live = false) := by
      have hsent : sent = WireEnd.send P message written (wire side) := rfl
      rw [WireEnd.send, hcall] at hsent
      cases written with
      | none => exact ⟨_, _, [], hsent, List.append_nil bytes, fun hne => absurd rfl hne⟩
      | some count => exact ⟨_, _, _, hsent, List.take_append_drop count bytes, fun _ => rfl⟩
    have hlink : (wire.put side sent.1 sent.2).link = Function.update wire.link side run := by
      rw [Wire.link_put, hsent]
    have horder := h.honest.inOrder side.other
    rw [Side.other_other] at horder
    obtain ⟨hnear, hfar⟩ := inFlight_of_sent session record horder
    refine ⟨.inr (hlink.trans hevent.symm), ⟨?_, (Side.forall_iff side).mpr ⟨?_, ?_⟩⟩⟩
    · rw [hlink, ← hevent]
      exact h.honest.send hmessage
    · obtain ⟨missing, hmissing, hcut⟩ := h.incoming side hlive
      rw [Wire.put_self, Wire.put_other, hlink, hsent]
      exact fun _ => ⟨missing, hmissing.trans (congrArg flightBytes hnear.symm), hcut⟩
    · rw [Wire.put_other, hlink, hsent, Side.other_other, Wire.put_self]
      intro hother
      obtain ⟨missing, hmissing, hcut⟩ := h.incoming side.other hother
      -- the other end has everything that this one wrote before
      rw [Side.other_other, hlive] at hcut
      obtain rfl := Classical.byContradiction fun hne => Bool.noConfusion (hcut hne)
      rw [List.append_nil] at hmissing
      refine ⟨lost, ?_, hlost⟩
      show (wire side.other).incoming ++ out ++ lost = flightBytes (Link.inFlight _ side.other)
      rw [List.append_assoc, hbytes, hmissing]
      refine Eq.trans ?_ (congrArg flightBytes hfar.symm)
      rw [flightBytes, flightBytes, List.flatMap_append, List.flatMap_singleton]

theorem inFlight_of_accepted {link : Link} (run : SessionRun) {record : PeerRecord}
    {flight : List PeerRecord} (hflight : link.inFlight side = record :: flight)
    (hsent : run.sent = (link side).sent)
    (haccepted : run.accepted.length = (link side).accepted.length + 1) :
    Link.inFlight (Function.update link side run) side = flight ∧
      Link.inFlight (Function.update link side run) side.other = link.inFlight side.other := by
  rw [Link.inFlight, Link.inFlight, Link.inFlight, Side.other_other, Function.update_self,
    Function.update_of_ne side.other_ne, hsent, haccepted]
  refine ⟨?_, rfl⟩
  rw [Link.inFlight] at hflight
  rw [← List.drop_drop, hflight]
  rfl

theorem Wire.Carries.receive (h : wire.Carries P networkId hello limits)
    (hhello : CompatibleHellos networkId hello) (hlive : (wire side).live = true)
    (answers : List (ReadAnswer ConnectionError)) :
    let received := wire.put side ((wire side).receive P answers) []
    (received.link = wire.link ∨
        received.link = (LinkEvent.acceptInbound side).perform P wire.link) ∧
      Wire.Carries P networkId hello limits received := by
  intro received
  let connection : PeerConnection :=
    { stream := { rest := (wire side).incoming, answers }, session := (wire side).run.session }
  rcases hcall : Method.call (PeerConnection.receive P) connection with ⟨fault | message, after⟩
  · have hnear : (wire side).receive P answers = {
        run := { (wire side).run with session := after.session }
        incoming := after.stream.rest
        live := false } := by
      rw [WireEnd.receive]
      dsimp only
      rw [hcall]
    obtain ⟨hsession, -⟩ := receive_error hcall
    obtain ⟨hlink, hcarries⟩ := h.close side ((wire side).receive P answers)
      (by rw [hnear, hsession]) (by rw [hnear])
    exact ⟨.inl hlink, hcarries⟩
  · obtain ⟨bytes, hrest, haccept⟩ := receive_eq_ok hcall
    obtain ⟨-, hdecode, -⟩ := PeerSession.acceptInbound_eq_ok.mp haccept
    have hnetwork : connection.session.localHello.networkId = networkId := by
      rw [← hhello.network side, ← (h.honest.counted side).localHello_eq]
      rfl
    rw [hnetwork] at hdecode
    obtain ⟨record, flight, hflight, rfl⟩ := h.head hhello hlive hrest hdecode
    let run : SessionRun := { (wire side).run with
      session := after.session
      accepted := (wire side).run.accepted ++ [⟨message, record.bytes⟩] }
    have htake : (wire side).incoming.take
        ((wire side).incoming.length - after.stream.rest.length) = record.bytes := by
      have heq : (wire side).incoming = record.bytes ++ after.stream.rest := hrest
      rw [heq, List.length_append, Nat.add_sub_cancel]
      exact List.take_left
    have hnear : (wire side).receive P answers =
        { wire side with run, incoming := after.stream.rest } := by
      rw [WireEnd.receive]
      dsimp only
      rw [hcall]
      dsimp only
      rw [htake]
    have hlink : received.link = Function.update wire.link side run := by
      rw [Wire.link_put, hnear]
    have hmethod : Method.call (SessionCall.method P (.acceptInbound record.bytes))
        (wire side).run.session = (.ok (.accepted ⟨message, record.bytes⟩), after.session) :=
      Method.call_bind_pure_eq_ok.mpr ⟨message, haccept, rfl⟩
    have hcalled : wire.link.call P side (.acceptInbound record.bytes) =
        Function.update wire.link side run := by
      show Function.update wire.link side ((wire side).run.call P _) = _
      rw [SessionRun.call, hmethod]
    have hevent : (LinkEvent.acceptInbound side).perform P wire.link =
        Function.update wire.link side run := by
      rw [LinkEvent.perform, hflight]
      exact hcalled
    obtain ⟨hnext, hback⟩ := inFlight_of_accepted run hflight rfl
      (List.length_append.trans rfl)
    have hself : received side = { wire side with run, incoming := after.stream.rest } :=
      (Wire.put_self ..).trans hnear
    have hfar : received side.other = wire side.other := by
      refine (Wire.put_other ..).trans ?_
      rw [List.append_nil]
    refine ⟨.inr (hlink.trans hevent.symm), ⟨?_, (Side.forall_iff side).mpr ⟨?_, ?_⟩⟩⟩
    · rw [hlink, ← hcalled]
      exact h.honest.accept hhello hflight
    · obtain ⟨missing, hmissing, hcut⟩ := h.incoming side hlive
      rw [hself, hfar, hlink]
      refine fun _ => ⟨missing, ?_, hcut⟩
      show after.stream.rest ++ missing = _
      have hbytes : record.bytes ++ (after.stream.rest ++ missing) =
          record.bytes ++ flightBytes flight := by
        rw [← List.append_assoc, ← hrest]
        exact hmissing.trans (by rw [hflight]; rfl)
      rw [List.append_cancel_left hbytes, hnext]
    · rw [hfar, hlink, Side.other_other, hself]
      intro hother
      obtain ⟨missing, hmissing, hcut⟩ := h.incoming side.other hother
      rw [Side.other_other] at hcut
      exact ⟨missing, hmissing.trans (congrArg flightBytes hback.symm), hcut⟩

/-! ## Runs -/

/-- A link that a run of another leads to, with messages of the network. -/
def Link.Reaches (P : Platform) (networkId : Bytes32) (link link' : Link) : Prop :=
  ∃ events, (∀ side message, LinkEvent.encodeOutbound side message ∈ events →
    message.OnNetwork networkId) ∧ link' = link.run P events

theorem Link.Reaches.refl {link : Link} : link.Reaches P networkId link :=
  ⟨[], (fun _ _ hmem => nomatch hmem), rfl⟩

theorem Link.Reaches.one {link : Link} {event : LinkEvent}
    (hmessage : ∀ side message, event = .encodeOutbound side message →
      message.OnNetwork networkId) : link.Reaches P networkId (event.perform P link) :=
  ⟨[event], (fun side message hmem => hmessage side message (List.mem_singleton.mp hmem).symm), rfl⟩

theorem Link.Reaches.trans {link link' link'' : Link} (h : link.Reaches P networkId link')
    (h' : link'.Reaches P networkId link'') : link.Reaches P networkId link'' := by
  obtain ⟨first, hfirst, rfl⟩ := h
  obtain ⟨later, hlater, rfl⟩ := h'
  refine ⟨first ++ later, fun side message hmem => ?_, List.foldl_append.symm⟩
  exact (List.mem_append.mp hmem).elim (hfirst side message) (hlater side message)

/-- One event at the ends is at most one event on the link. -/
theorem Wire.Carries.perform (h : wire.Carries P networkId hello limits)
    (hhello : CompatibleHellos networkId hello) {event : WireEvent}
    (hmessage : ∀ side message written, event = .send side message written →
      message.OnNetwork networkId) :
    wire.link.Reaches P networkId (event.perform P wire).link ∧
      Wire.Carries P networkId hello limits (event.perform P wire) := by
  have hsend (side : Side) (message : PeerMessage) (hnetwork : message.OnNetwork networkId)
      (written : Option Nat) (hlive : (wire side).live = true) :
      let sent := (wire side).send P message written
      wire.link.Reaches P networkId (wire.put side sent.1 sent.2).link ∧
        Wire.Carries P networkId hello limits (wire.put side sent.1 sent.2) := by
    obtain ⟨hlink, hcarries⟩ := h.send hnetwork hlive written
    refine ⟨?_, hcarries⟩
    rcases hlink with hlink | hlink
    · exact hlink ▸ .refl
    · refine hlink ▸ .one fun other sent hevent => ?_
      obtain ⟨-, rfl⟩ := LinkEvent.encodeOutbound.inj hevent
      exact hnetwork
  cases event with
  | sendHello side written =>
      simp only [WireEvent.perform]
      split
      · next hlive =>
          refine hsend side _ ?_ written hlive
          show (wire.link side).session.localHello.networkId = networkId
          rw [(h.honest.counted side).localHello_eq]
          exact hhello.network side
      · exact ⟨.refl, h⟩
  | send side message written =>
      simp only [WireEvent.perform]
      split
      · next hlive => exact hsend side message (hmessage side message written rfl) written hlive
      · exact ⟨.refl, h⟩
  | receive side answers =>
      simp only [WireEvent.perform]
      split
      · next hlive =>
          obtain ⟨hlink, hcarries⟩ := h.receive hhello hlive answers
          refine ⟨?_, hcarries⟩
          rcases hlink with hlink | hlink
          · exact hlink ▸ .refl
          · exact hlink ▸ .one nofun
      · exact ⟨.refl, h⟩

theorem Wire.Carries.run (h : wire.Carries P networkId hello limits)
    (hhello : CompatibleHellos networkId hello) {events : List WireEvent}
    (hmessages : ∀ side message written, WireEvent.send side message written ∈ events →
      message.OnNetwork networkId) :
    wire.link.Reaches P networkId (wire.run P events).link ∧
      Wire.Carries P networkId hello limits (wire.run P events) := by
  induction events generalizing wire with
  | nil => exact ⟨.refl, h⟩
  | cons event rest ih =>
      obtain ⟨hfirst, hcarries⟩ := h.perform hhello fun side message written hevent =>
        hmessages side message written (hevent ▸ List.mem_cons_self)
      obtain ⟨hlater, hcarries'⟩ := ih hcarries fun side message written hmem =>
        hmessages side message written (List.mem_cons_of_mem event hmem)
      exact ⟨hfirst.trans hlater, hcarries'⟩

/-- A frame that has arrived is received, however the reads are cut. -/
theorem Wire.Carries.receives (h : wire.Carries P networkId hello limits)
    (hhello : CompatibleHellos networkId hello) (hlive : (wire side).live = true)
    {record : PeerRecord} {flight : List PeerRecord}
    (hflight : wire.link.inFlight side = record :: flight)
    (hfits : (wire side).run.Fits (limits side) record)
    (harrived : record.bytes.length ≤ (wire side).incoming.length)
    {answers : List (ReadAnswer ConnectionError)}
    (hanswers : ∀ answer ∈ answers, ∃ count, answer = .upTo count) :
    ∃ after, Method.call (PeerConnection.receive P)
      { stream := { rest := (wire side).incoming, answers }, session := (wire side).run.session } =
        (.ok record.message, after) := by
  obtain ⟨missing, hmissing, -⟩ := h.incoming side hlive
  rw [hflight, flightBytes, List.flatMap_cons] at hmissing
  have htake := congrArg (List.take record.bytes.length) hmissing
  rw [List.take_append_of_le_length harrived, List.take_left] at htake
  have hrest : (wire side).incoming =
      record.bytes ++ (wire side).incoming.drop record.bytes.length := by
    conv_lhs => rw [← List.take_append_drop record.bytes.length (wire side).incoming, htake]
  obtain ⟨session, haccept⟩ := h.honest.accept_inFlight hhello hflight hfits
  let connection : PeerConnection :=
    { stream := { rest := (wire side).incoming, answers }, session := (wire side).run.session }
  have hsteady : connection.stream.Steady := hanswers
  obtain ⟨stream, hreceive, -⟩ := receive_of_accept hsteady hrest haccept
  exact ⟨_, hreceive⟩

/-- Two honest nodes over sockets: whatever is sent, in whatever order, however the bytes are cut
into reads, and wherever a read or a write fails, the sessions and the messages that pass through
them are those of a run over a link that keeps its frames whole and in order; and an end that has
not failed receives the next message once its bytes have arrived. -/
theorem wire_refines_link {session : Side → PeerSession}
    (hnew : ∀ side, PeerSession.new (hello side) (limits side) = .ok (session side))
    (hhello : CompatibleHellos networkId hello) (events : List WireEvent)
    (hmessages : ∀ side message written, WireEvent.send side message written ∈ events →
      message.OnNetwork networkId) :
    let wire := Wire.run P events (.start session)
    Link.Reaches P networkId (fun side => .start (session side)) wire.link ∧
    ∀ side record flight answers, (wire side).live = true →
      wire.link.inFlight side = record :: flight → (wire side).run.Fits (limits side) record →
      record.bytes.length ≤ (wire side).incoming.length →
      (∀ answer ∈ answers, ∃ count, answer = .upTo count) →
      ∃ after, Method.call (PeerConnection.receive P)
        { stream := { rest := (wire side).incoming, answers }
          session := (wire side).run.session } = (.ok record.message, after) := by
  intro wire
  obtain ⟨hlink, hcarries⟩ := (Wire.Carries.start hnew).run hhello hmessages
  exact ⟨hlink, fun side record flight answers hlive hflight hfits harrived hanswers =>
    hcarries.receives hhello hlive hflight hfits harrived hanswers⟩

end

/-- A hello in pieces, and one that breaks off. -/
theorem wire_refines_link_sample :
    Link.Reaches samplePlatform zero32 (fun side => .start (sampleSessions side))
      (Wire.run samplePlatform [.sendHello .left none, .receive .right [.upTo 0, .upTo 30],
        .sendHello .right (some 7), .receive .left []] (.start sampleSessions)).link := by
  have hhello : CompatibleHellos zero32 sampleHellos :=
    ⟨fun side => by cases side <;> rfl, rfl, by decide⟩
  have hnew : ∀ side, PeerSession.new (sampleHellos side) .default = .ok (sampleSessions side) := by
    intro side
    cases side <;> decide
  refine (wire_refines_link hnew hhello _ fun side message written hmem => ?_).1
  simp only [List.mem_cons, reduceCtorEq, List.not_mem_nil, or_false] at hmem

end CommonFoundry
