/-
# `CommonFoundry.Node.PoolRun` — the threads of the pool and what they lock

`process_share` and `rotate_if_tip_changed` as the sections between which other threads
run.  A `Call` is where a thread stands; `run` performs its next section, if that is not
waiting for the lock of the node.  `process_share` holds that lock from the check of the
tip until the credit, with the set of nonces, the block and the ledger in between as
sections of their own, and a rotation holds it until the new job is installed.

Between two sections anybody may register a session, end one, or call the node.  What
the clock, the random generator and the file system answer is an input of a step.

`jobs` holds every job that was ever installed: an `Arc` is a position in it.  `history`
is what happened, newest first; nothing reads it.
-/
import CommonFoundry.Lib.Lock
import CommonFoundry.Lib.Schedule
import CommonFoundry.Node.Pool

namespace CommonFoundry

open Lib Lib.Outcome

structure PoolServerConfig where
  blockDestination : Bytes32
  shareTarget : Bytes32
  testCreditAtomsPerShare : UInt64

/-- A submitted share, and its session. -/
structure PoolShare where
  sessionId : UInt64
  jobId : Bytes32
  nonce : UInt64

structure PoolShareResult where
  jobId : Bytes32
  nonce : UInt64
  accepted : Bool
  blockAccepted : Bool
  code : String
  session : PoolSessionStats

/-- What follows a rotation: the call was one, or the share is rejected as stale, or the
result of an accepted share is returned. -/
inductive AfterRotate where
  | done
  | reject (share : PoolShare)
  | accept (result : PoolShareResult)

/-- Where a thread stands.  `reading`, `rejecting` and `installing` are before a section on
the pool's own locks, `locking` and `rotating` wait for the node. -/
inductive Call where
  | idle
  | reading (share : PoolShare)
  | evaluating (share : PoolShare) (active : Nat)
  | locking (share : PoolShare) (active : Nat) (block : Option Block)
  | reserving (share : PoolShare) (active : Nat) (block : Option Block)
  | submitting (share : PoolShare) (active : Nat) (block : Block)
  | crediting (share : PoolShare) (active : Nat) (blockAccepted : Bool)
  | rejecting (share : PoolShare) (code : String)
  | rotating (next : AfterRotate)
  | installing (next : AfterRotate)
  | rotated (result : Outcome PoolError Bool)
  | returned (result : Outcome PoolError PoolShareResult)

/-- The places where a thread holds the lock of the node. -/
def Call.holdsNode : Call → Bool
  | .reserving .. | .submitting .. | .crediting .. | .installing .. => true
  | _ => false

/-- The thread has no call under way. -/
def Call.atRest : Call → Bool
  | .idle | .rotated _ | .returned _ => true
  | _ => false

/-- What happened: the bytes of a new job's identifier, the answer to a reservation and the
tip it was made on, a block given to the node, a share in the ledger. -/
inductive PoolEvent where
  | installed (bytes : List UInt8)
  | reservation (thread active : Nat) (nonce : UInt64) (tip : Bytes32) (answer : NonceReservation)
  | submitted (thread active : Nat) (nonce : UInt64) (block : Block) (accepted : Bool)
  | credited (thread active : Nat) (share : PoolShare) (block : Bool)

structure ServerState where
  current : Nat
  nextJobSequence : UInt64

/-- What the system answers in one section. -/
structure Environment where
  clock : Option UInt64
  random : Except String Bytes32
  append : AppendOutcome

/-- `SharedServer`, with its threads and locks; a lock is poisoned by a thread that aborts
while it holds it. -/
structure PoolServer where
  node : Node
  nodeHolder : Option Nat
  nodePoisoned : Bool
  state : ServerState
  statePoisoned : Bool
  ledger : PoolLedger
  config : PoolServerConfig
  startupNonce : Bytes32
  jobs : List ActiveJob
  calls : Nat → Call
  history : List PoolEvent

/-- The lock and the job of `spawn_pool_server`; addresses, limits and certificates have no
part in what follows. -/
def spawnPoolServer (P : Platform) (config : PoolServerConfig) (node : Node) (now : UInt64)
    (startupNonce firstJobNonce : Bytes32) : Outcome PoolError PoolServer := do
  require (P.verifyingKey config.blockDestination) (.node .invalidMinerDestination)
  let mining ← mapErr .node (node.buildMiningJob P config.blockDestination now)
  let first := ActiveJob.new P config.shareTarget startupNonce firstJobNonce 0 mining
  pure {
    node
    nodeHolder := none
    nodePoisoned := false
    state := { current := 0, nextJobSequence := 1 }
    statePoisoned := false
    ledger := .empty
    config
    startupNonce
    jobs := [first]
    calls := fun _ => .idle
    history := [.installed (jobIdBytes startupNonce firstJobNonce 0 mining.challenge
      first.wire.shareTarget)] }

/-- How a rotation's result is passed on by `?`. -/
def AfterRotate.call : AfterRotate → Outcome PoolError Bool → Call
  | .done, result => .rotated result
  | .reject share, .ok _ => .rejecting share "stale_job"
  | .accept result, .ok _ => .returned (.ok result)
  | .reject _, .error fault => .returned (.error fault)
  | .accept _, .error fault => .returned (.error fault)

/-- The part of `process_share` without locks: the block of the share, if it is one, or the
code of its rejection. -/
def ActiveJob.evaluate (E : PowEvaluation) (active : ActiveJob) (nonce : UInt64) :
    Outcome PoolError (Except String (Option Block)) := do
  let evaluation ← mapErr .mining
    (active.mining.evaluateShare E nonce active.wire.shareTarget)
  if ¬evaluation.meetsShareTarget then pure (.error "low_difficulty_share")
  else if evaluation.meetsChainTarget then
    match ← mapErr .mining (active.mining.buildBlockIfChainValid E evaluation.proof) with
    | some block => pure (.ok (some block))
    | none => pure (.error "invalid_chain_proof")
  else pure (.ok none)

/-- A thread that ends this way takes the locks it holds with it. -/
def poisons {ε α : Type} : Outcome ε α → Bool
  | .error .panic => true
  | _ => false

namespace PoolServer

/-- The thread moves on, and drops the lock of the node where it leaves its section. -/
def goto (server : PoolServer) (t : Nat) (call : Call) : PoolServer :=
  { server with
    calls := Function.update server.calls t call
    nodeHolder := holderAfter Call.holdsNode server.nodeHolder t call }

theorem goto_calls_self (server : PoolServer) (t : Nat) (call : Call) :
    (server.goto t call).calls t = call := Function.update_self ..

theorem goto_calls_ne (server : PoolServer) {t u : Nat} (h : u ≠ t) (call : Call) :
    (server.goto t call).calls u = server.calls u := Function.update_of_ne h ..

def record (server : PoolServer) (event : PoolEvent) : PoolServer :=
  { server with history := event :: server.history }

section

variable (P : Platform) (E : PowEvaluation) (env : Environment) (server : PoolServer) (t : Nat)

/-! ## `process_share` -/

/-- Under the lock of the state: which job is current. -/
def readCurrent (share : PoolShare) : Option PoolServer :=
  if server.statePoisoned then some (server.goto t (.returned (fail .sharedStatePoisoned)))
  else (server.jobs[server.state.current]?).map fun active =>
    if share.jobId ≠ active.wire.jobId then server.goto t (.rejecting share "stale_job")
    else server.goto t (.evaluating share server.state.current)

/-- Under no lock. -/
def evaluate (share : PoolShare) (active : Nat) : Option PoolServer :=
  (server.jobs[active]?).map fun job =>
    match job.evaluate E share.nonce with
    | .error fault => server.goto t (.returned (.error fault))
    | .ok (.error code) => server.goto t (.rejecting share code)
    | .ok (.ok block) => server.goto t (.locking share active block)

/-- The lock of the node is taken, and kept if the tip is still the parent of the job. -/
def lockForShare (share : PoolShare) (active : Nat) (block : Option Block) : Option PoolServer :=
  if server.nodeHolder ≠ none then none
  else if server.nodePoisoned then some (server.goto t (.returned (fail .sharedStatePoisoned)))
  else (server.jobs[active]?).map fun job =>
    if server.node.state.tip ≠ job.wire.challenge.previousBlock then
      server.goto t (.rotating (.reject share))
    else server.goto t (.reserving share active block)

/-- Under the lock of the nonces, and that of the node. -/
def reserve (share : PoolShare) (active : Nat) (block : Option Block) : Option PoolServer :=
  (server.jobs[active]?).map fun job =>
    let (answer, job) := reserveValidShare job share.nonce
    let server := { server with jobs := server.jobs.set active job }.record
      (.reservation t active share.nonce server.node.state.tip answer)
    match answer, block with
    | .duplicate, _ => server.goto t (.rejecting share "duplicate_share")
    | .full, none => server.goto t (.rejecting share "job_share_limit")
    | .reserved, none => server.goto t (.crediting share active false)
    | _, some block => server.goto t (.submitting share active block)

/-- Under the lock of the node. -/
def submit (share : PoolShare) (active : Nat) (block : Block) : PoolServer :=
  match env.clock with
  | none => server.goto t (.returned (fail (.mining .invalidSystemTime)))
  | some now =>
      let (result, node) := server.node.submitBlock P env.append block now
      let server := { server with
        node
        nodePoisoned := server.nodePoisoned || poisons result }.record
        (.submitted t active share.nonce block result.isOk)
      match mapErr .node result with
      | .error fault => server.goto t (.returned (.error fault))
      | .ok _ => server.goto t (.crediting share active true)

/-- Under the lock of the ledger, and that of the node. -/
def credit (share : PoolShare) (active : Nat) (blockAccepted : Bool) : PoolServer :=
  let known := (server.ledger.sessions.lookup share.sessionId).isSome
  let (result, ledger) := server.ledger.creditAcceptedShare share.sessionId blockAccepted
    server.config.testCreditAtomsPerShare
  let server := { server with ledger }
  let server := if known then server.record (.credited t active share blockAccepted) else server
  match result with
  | .error fault => server.goto t (.returned (.error fault))
  | .ok session =>
      let result : PoolShareResult := {
        jobId := share.jobId
        nonce := share.nonce
        accepted := true
        blockAccepted
        code := if blockAccepted then "block_accepted" else "share_accepted"
        session }
      if blockAccepted then server.goto t (.rotating (.accept result))
      else server.goto t (.returned (.ok result))

/-- `rejected_result`, under the lock of the ledger. -/
def reject (share : PoolShare) (code : String) : PoolServer :=
  let (result, ledger) := server.ledger.creditRejectedShare share.sessionId
  let result : Outcome PoolError PoolShareResult := do
    let session ← result
    pure {
      jobId := share.jobId, nonce := share.nonce, accepted := false, blockAccepted := false
      code, session }
  { server with ledger }.goto t (.returned result)

/-! ## `rotate_if_tip_changed` -/

def lockForRotation (next : AfterRotate) : Option PoolServer :=
  if server.nodeHolder ≠ none then none
  else if server.nodePoisoned then
    some (server.goto t (next.call (fail .sharedStatePoisoned)))
  else some (server.goto t (.installing next))

/-- Under the locks of the node and of the state.  The number of the job is taken before
the random generator is asked. -/
def install (next : AfterRotate) : Option PoolServer :=
  if server.statePoisoned then some (server.goto t (next.call (fail .sharedStatePoisoned)))
  else (server.jobs[server.state.current]?).map fun current =>
    if current.wire.challenge.previousBlock = server.node.state.tip then
      server.goto t (next.call (.ok false))
    else
      match env.clock with
      | none => server.goto t (next.call (fail (.mining .invalidSystemTime)))
      | some now =>
          let built := server.node.buildMiningJob P server.config.blockDestination now
          let server := { server with
            nodePoisoned := server.nodePoisoned || poisons built
            statePoisoned := poisons built }
          match mapErr .node built with
          | .error fault => server.goto t (next.call (.error fault))
          | .ok mining =>
              let sequence := server.state.nextJobSequence
              match env.random with
              | .error error =>
                  { server with state.nextJobSequence := sequence + 1 }.goto t
                    (next.call (fail (.random error)))
              | .ok jobNonce =>
                  let job := ActiveJob.new P server.config.shareTarget server.startupNonce jobNonce
                    sequence mining
                  ({ server with
                    jobs := server.jobs ++ [job]
                    state := { current := server.jobs.length, nextJobSequence := sequence + 1 }
                    }.record (.installed (jobIdBytes server.startupNonce jobNonce sequence
                      mining.challenge job.wire.shareTarget))).goto t (next.call (.ok true))

end

/-! ## Steps -/

/-- The next section of a thread. -/
def runSection (P : Platform) (E : PowEvaluation) (env : Environment) (server : PoolServer)
    (t : Nat) : Option PoolServer :=
  match server.calls t with
  | .idle | .rotated _ | .returned _ => none
  | .reading share => server.readCurrent t share
  | .evaluating share active => server.evaluate E t share active
  | .locking share active block => server.lockForShare t share active block
  | .reserving share active block => server.reserve t share active block
  | .submitting share active block => some (server.submit P env t share active block)
  | .crediting share active blockAccepted => some (server.credit t share active blockAccepted)
  | .rejecting share code => some (server.reject t share code)
  | .rotating next => server.lockForRotation t next
  | .installing next => server.install P env t next

end PoolServer

/-- What can happen next. -/
inductive PoolAction where
  | processShare (thread : Nat) (share : PoolShare)
  | rotateIfTipChanged (thread : Nat)
  | run (thread : Nat) (env : Environment)
  | register (sessionId : UInt64) (worker : List UInt8) (payout : Bytes32)
  | disconnect (sessionId : UInt64)
  | submitBlock (append : AppendOutcome) (block : Block) (acceptedAt : UInt64)
  | submitTransaction (transaction : Transaction)

/-- One step: a thread starts a call or goes on with it, or another part of the program
changes the ledger, or the node while nobody holds it. -/
def PoolServer.step (P : Platform) (E : PowEvaluation) (action : PoolAction)
    (server : PoolServer) : Option PoolServer :=
  match action with
  | .processShare t share =>
      if (server.calls t).atRest then some (server.goto t (.reading share)) else none
  | .rotateIfTipChanged t =>
      if (server.calls t).atRest then some (server.goto t (.rotating .done)) else none
  | .run t env => server.runSection P E env t
  | .register sessionId worker payout =>
      some { server with ledger := (server.ledger.registerSession sessionId worker payout).2 }
  | .disconnect sessionId => some { server with ledger := server.ledger.disconnect sessionId }
  | .submitBlock append block acceptedAt =>
      if server.nodeHolder = none then
        let (result, node) := server.node.submitBlock P append block acceptedAt
        some { server with node, nodePoisoned := server.nodePoisoned || poisons result }
      else none
  | .submitTransaction transaction =>
      if server.nodeHolder = none then
        let (result, node) := server.node.submitTransaction P transaction
        some { server with node, nodePoisoned := server.nodePoisoned || poisons result }
      else none

end CommonFoundry
