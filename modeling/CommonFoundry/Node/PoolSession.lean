/-
# `CommonFoundry.Node.PoolSession` — the listener and the sessions of the pool

The threads of `pool.rs` are the listener and one for each connection: `pool_listener` is the
thread 0 of the server of `PoolRun`, and the `handle_connection` of connection `k` the thread
`k + 1`.  Who is at the other end of a connection is not known: any message may arrive on it.
Frames and their JSON are the business of `PoolFrame`.

A section of a session takes one step of the server at most (`SessionMove`); what the system
answers in it is an input, as is whether a read or a write succeeds.  A thread for a connection can
always be started.  `number` is the value that a session took from `next_session_id`, before it
is reduced to 64 bits.
-/
import CommonFoundry.Node.PoolLedger
import CommonFoundry.Node.PoolSections

namespace CommonFoundry

open Lib Lib.Outcome

def poolProtocolVersion : UInt16 := 1
def poolMaxMessagesPerSession : Nat := 1000000

def poolAccountingSemantics : String :=
  "session-only accounting records; nonwithdrawable; not funds; not an on-chain balance or payout"

def poolPersistence : String := "session-only; reset on pool process restart"

/-! ## Messages -/

inductive ClientMessage where
  | hello (protocolVersion : UInt16) (networkId consensusFingerprint : Bytes32)
      (worker : List UInt8) (payout : Bytes32)
  | submitShare (jobId : Bytes32) (nonce : UInt64)

inductive ServerMessage where
  | helloAck (protocolVersion : UInt16) (networkId consensusFingerprint : Bytes32)
      (sessionId : UInt64) (accountingSemantics persistence : String)
  | job (job : PoolJob)
  | shareResult (result : PoolShareResult)
  | error (code message : String)

/-! ## The session -/

/-- Where the thread of a connection stands.  It has a number from `registering` on, and the
`SessionGuard` from `acking` to `leaving`.  While `rotating`, `checking` and `processing` it is
in a call of `PoolRun`. -/
inductive SessionPlace where
  | hello
  | numbering (worker : List UInt8) (payout : Bytes32)
  | registering (worker : List UInt8) (payout : Bytes32)
  | acking
  | greeting
  | opening (job : PoolJob)
  | turning
  | rotating
  | reading
  | checking (jobId : Bytes32) (nonce : UInt64)
  | noting (jobId : Bytes32) (nonce : UInt64)
  | processing (jobId : Bytes32) (nonce : UInt64) (before : Bytes32)
  | answering (jobId before : Bytes32) (result : PoolShareResult)
  | renewing (job : PoolJob) (result : PoolShareResult)
  | replying (result : PoolShareResult)
  | rejecting (code message : String)
  | refusing (code message : String)
  | leaving
  | closing
  | closed

/-- A connection: the thread that serves it, and what is under way on it. -/
structure PoolConnection where
  place : SessionPlace
  number : Nat
  messageCount : Nat
  toServer : List ClientMessage
  toClient : List ServerMessage

namespace PoolConnection

def sessionId (connection : PoolConnection) : UInt64 := UInt64.ofNat connection.number

def goto (connection : PoolConnection) (place : SessionPlace) : PoolConnection :=
  { connection with place }

@[simp]
theorem place_goto (connection : PoolConnection) (place : SessionPlace) :
    (connection.goto place).place = place := rfl

/-- `write_frame`, and where its thread goes. -/
def write (connection : PoolConnection) (ok : Bool) (message : ServerMessage)
    (next failed : SessionPlace) : PoolConnection :=
  if ok then
    { connection with toClient := connection.toClient ++ [message], place := next }
  else connection.goto failed

/-- No connection yet. -/
def unused : PoolConnection where
  place := .closed
  number := 0
  messageCount := 0
  toServer := []
  toClient := []

end PoolConnection

/-! ## The pool and its connections -/

inductive ListenerPlace where
  | turning
  | rotating
  | accepting
  | stopped

/-- `SharedServer` with what its sessions use besides the server of `PoolRun`, and all
connections it has accepted. -/
structure PoolNetwork where
  server : PoolServer
  networkId : Bytes32
  consensusFingerprint : Bytes32
  maxConnections : Nat
  stop : Bool
  numbered : Nat
  activeConnections : Nat
  accepted : Nat
  connections : Nat → PoolConnection
  listener : ListenerPlace

/-- What the system answers in a section of a session. -/
structure SessionIo where
  env : Environment
  ok : Bool

/-- What a section of a session does: to its connection, to the server, and to the two
counters that sessions share. -/
structure SessionMove where
  connection : PoolConnection
  action : Option PoolAction := none
  takesNumber : Bool := false
  endsConnection : Bool := false

/-- `spawn_pool_server`, with the limit it checks; the fingerprint is the node's. -/
def spawnPoolNetwork (P : Platform) (config : PoolServerConfig) (maxConnections : Nat)
    (consensusFingerprint : Bytes32) (node : Node) (now : UInt64)
    (startupNonce firstJobNonce : Bytes32) : Option PoolNetwork :=
  if maxConnections = 0 ∨ maxConnections > poolMaxConnections then none
  else (spawnPoolServer P config node now startupNonce firstJobNonce).toOption.map fun server => {
    server
    networkId := node.params.networkId
    consensusFingerprint
    maxConnections
    stop := false
    numbered := 0
    activeConnections := 0
    accepted := 0
    connections := fun _ => .unused
    listener := .turning }

/-- `current_job`. -/
def PoolServer.currentJob (server : PoolServer) : Option (Outcome PoolError PoolJob) :=
  if server.statePoisoned then some (fail .sharedStatePoisoned)
  else (server.jobs[server.state.current]?).map fun job => .ok job.wire

namespace PoolNetwork

section

variable (P : Platform) (network : PoolNetwork) (io : SessionIo) (k : Nat)
  (connection : PoolConnection)

/-! ## Sections of a session -/

/-- The answer to a first message. -/
def afterHello : ClientMessage → SessionPlace
  | .hello protocolVersion networkId consensusFingerprint worker payout =>
      if protocolVersion ≠ poolProtocolVersion then
        .rejecting "protocol_mismatch" "pool protocol version mismatch"
      else if networkId ≠ network.networkId then
        .rejecting "network_mismatch" "pool network identifier mismatch"
      else if consensusFingerprint ≠ network.consensusFingerprint then
        .rejecting "fingerprint_mismatch" "pool consensus fingerprint mismatch"
      else if (validateWorker worker).isOk ∧ P.verifyingKey payout = true then
        .numbering worker payout
      else .closing
  | .submitShare .. => .rejecting "hello_required" "first message must be hello"

def readHello : Option SessionMove :=
  if io.ok then
    match connection.toServer with
    | [] => none
    | message :: rest => some {
        connection := { connection with toServer := rest, place := network.afterHello P message } }
  else some { connection := connection.goto .closing }

/-- `next_session_id.fetch_add(1)`. -/
def takeNumber (worker : List UInt8) (payout : Bytes32) : SessionMove where
  connection := { connection with
    number := network.numbered + 1, place := .registering worker payout }
  takesNumber := true

def register (worker : List UInt8) (payout : Bytes32) : SessionMove where
  connection := connection.goto
    (if (network.server.ledger.registerSession connection.sessionId worker payout).1.isOk then
      .acking
    else .closing)
  action := some (.register connection.sessionId worker payout)

def helloAck : ServerMessage :=
  .helloAck poolProtocolVersion network.networkId network.consensusFingerprint
    connection.sessionId poolAccountingSemantics poolPersistence

/-- `current_job`, whose error ends the session, and what follows. -/
def withCurrentJob (next : PoolJob → SessionMove) : Option SessionMove :=
  network.server.currentJob.map fun
    | .ok job => next job
    | .error _ => { connection := connection.goto .leaving }

def noteFirstJob : Option SessionMove :=
  network.withCurrentJob connection fun job => { connection := connection.goto (.opening job) }

/-- The head of the loop. -/
def turn : SessionMove :=
  if network.stop then { connection := connection.goto .leaving }
  else {
    connection := connection.goto .rotating
    action := some (.rotateIfTipChanged (k + 1)) }

/-- The thread goes on with its rotation, or after it. -/
def rotate (next : SessionPlace) : SessionMove :=
  match network.server.calls (k + 1) with
  | .rotated (.ok _) => { connection := connection.goto next }
  | .rotated (.error _) => { connection := connection.goto .leaving }
  | _ => { connection, action := some (.run (k + 1) io.env) }

/-- A message of the loop, if its number is in the limit. -/
def takeMessage (message : ClientMessage) : SessionMove :=
  if connection.messageCount > poolMaxMessagesPerSession then {
    connection := connection.goto
      (.refusing "message_count_limit" "session message limit exceeded") }
  else
    match message with
    | .hello .. => {
        connection := connection.goto
          (.refusing "unexpected_hello" "hello may only be sent once") }
    | .submitShare jobId nonce => {
        connection := connection.goto (.checking jobId nonce)
        action := some (.rotateIfTipChanged (k + 1)) }

def readMessage : Option SessionMove :=
  if network.stop ∨ ¬io.ok then some { connection := connection.goto .leaving }
  else
    match connection.toServer with
    | [] => none
    | message :: rest => some (takeMessage k { connection with
        toServer := rest, messageCount := connection.messageCount + 1 } message)

def noteJob (jobId : Bytes32) (nonce : UInt64) : Option SessionMove :=
  network.withCurrentJob connection fun before => {
    connection := connection.goto (.processing jobId nonce before.jobId)
    action := some (.processShare (k + 1) { sessionId := connection.sessionId, jobId, nonce }) }

def process (jobId before : Bytes32) : SessionMove :=
  match network.server.calls (k + 1) with
  | .returned (.ok result) => { connection := connection.goto (.answering jobId before result) }
  | .returned (.error _) => { connection := connection.goto .leaving }
  | _ => { connection, action := some (.run (k + 1) io.env) }

def answer (jobId before : Bytes32) (result : PoolShareResult) : Option SessionMove :=
  network.withCurrentJob connection fun after =>
    if before ≠ after.jobId ∨ jobId ≠ before then {
      connection := connection.goto (.renewing after result) }
    else { connection := connection.goto (.replying result) }

/-- A message is written. -/
def writes (message : ServerMessage) (next failed : SessionPlace) : SessionMove where
  connection := connection.write io.ok message next failed

/-- The next section of a session. -/
def nextSection : Option SessionMove :=
  match connection.place with
  | .hello => network.readHello P io connection
  | .numbering worker payout => some (network.takeNumber connection worker payout)
  | .registering worker payout => some (network.register connection worker payout)
  | .acking => some (writes io connection (network.helloAck connection) .greeting .leaving)
  | .greeting => network.noteFirstJob connection
  | .opening job => some (writes io connection (.job job) .turning .leaving)
  | .turning => some (network.turn k connection)
  | .rotating => some (network.rotate io k connection .reading)
  | .reading => network.readMessage io k connection
  | .checking jobId nonce => some (network.rotate io k connection (.noting jobId nonce))
  | .noting jobId nonce => network.noteJob k connection jobId nonce
  | .processing jobId _ before => some (network.process io k connection jobId before)
  | .answering jobId before result => network.answer connection jobId before result
  | .renewing job result => some (writes io connection (.job job) (.replying result) .leaving)
  | .replying result => some (writes io connection (.shareResult result) .turning .leaving)
  | .rejecting code message => some (writes io connection (.error code message) .closing .closing)
  | .refusing code message => some (writes io connection (.error code message) .leaving .leaving)
  | .leaving => some {
      connection := connection.goto .closing, action := some (.disconnect connection.sessionId) }
  | .closing => some { connection := connection.goto .closed, endsConnection := true }
  | .closed => none

end

/-! ## Steps -/

variable (P : Platform) (E : PowEvaluation) (network : PoolNetwork)

/-- A step of the server, or none. -/
def act (action : Option PoolAction) : Option PoolNetwork :=
  (action.elim (some network.server) fun action => network.server.step P E action).map
    fun server => { network with server }

def serve (k : Nat) (io : SessionIo) : Option PoolNetwork :=
  (network.nextSection P io k (network.connections k)).bind fun move =>
    (network.act P E move.action).map fun network => { network with
      numbered := network.numbered + move.takesNumber.toNat
      activeConnections := network.activeConnections - move.endsConnection.toNat
      connections := Function.update network.connections k move.connection }

/-- The listener's next section; there is nobody to accept. -/
def listen (env : Environment) : Option PoolNetwork :=
  match network.listener with
  | .turning =>
      if network.stop then some { network with listener := .stopped }
      else (network.act P E (some (.rotateIfTipChanged 0))).map fun network =>
        { network with listener := .rotating }
  | .rotating =>
      match network.server.calls 0 with
      | .rotated (.error .panic) => some { network with listener := .stopped }
      | .rotated _ => some { network with listener := .accepting }
      | _ => network.act P E (some (.run 0 env))
  | .accepting => some { network with listener := .turning }
  | .stopped => none

/-- `accept` fails, or a session that is joined has panicked. -/
def failListener : Option PoolNetwork :=
  match network.listener with
  | .turning | .accepting => some { network with listener := .stopped }
  | _ => none

/-- A stream is accepted, or dropped if its address is public or there are too many. -/
def accept (privateAddress : Bool) : Option PoolNetwork :=
  match network.listener with
  | .accepting =>
      if ¬privateAddress ∨ network.activeConnections ≥ network.maxConnections then
        some { network with listener := .turning }
      else some { network with
        activeConnections := network.activeConnections + 1
        accepted := network.accepted + 1
        connections := Function.update network.connections network.accepted
          (PoolConnection.unused.goto .hello)
        listener := .turning }
  | _ => none

/-- A message arrives from the other end of a connection. -/
def send (k : Nat) (message : ClientMessage) : Option PoolNetwork :=
  let connection := network.connections k
  let connection := { connection with toServer := connection.toServer ++ [message] }
  if k < network.accepted then
    some { network with connections := Function.update network.connections k connection }
  else none

end PoolNetwork

/-- What can happen next to a pool with its connections. -/
inductive PoolNetworkEvent where
  | listen (env : Environment)
  | listenerFails
  | accept (privateAddress : Bool)
  | serve (k : Nat) (io : SessionIo)
  | send (k : Nat) (message : ClientMessage)
  | submitBlock (append : AppendOutcome) (block : Block) (acceptedAt : UInt64)
  | submitTransaction (transaction : Transaction)
  | stop

def PoolNetwork.step (P : Platform) (E : PowEvaluation) (event : PoolNetworkEvent)
    (network : PoolNetwork) : Option PoolNetwork :=
  match event with
  | .listen env => network.listen P E env
  | .listenerFails => network.failListener
  | .accept privateAddress => network.accept privateAddress
  | .serve k io => network.serve P E k io
  | .send k message => network.send k message
  | .submitBlock append block acceptedAt =>
      network.act P E (some (.submitBlock append block acceptedAt))
  | .submitTransaction transaction => network.act P E (some (.submitTransaction transaction))
  | .stop => some { network with stop := true }

end CommonFoundry
