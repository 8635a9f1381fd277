/-
# `CommonFoundry.Wallet.MiningManager` — starting and stopping the miner of the wallet

`MiningManager` of `apps/wallet/src-tauri/src/mining.rs`: its status, its control record, and
the threads that it spawns.  Each of the two has a lock.  `start` and `stop` hold the lock of
the control record from the first look at it to their end; the lock of the status is held for
one write at a time, by them and by the worker.

Any number of callers have a call under way.  A `ManagerCall` is where a caller stands, and one
event is what happens between two points where others may run: the control lock is taken and
the record looked at, the status is written, a thread is spawned, flagged or joined.

A worker is known by its session, the number of times that a start had set the status before
its own.  Of the two mining loops the model has the writes, in any order and number, and the
ways out: a failure, the end of the loop, a panic.  When a loop looks at its flag is left open,
so a worker may be gone at any time.  A panic under the lock of the status poisons it; nothing
panics under the lock of the control record.

The checks of a request before the lock (the payout key, the address of a pool) are the
parameter `checks`, and the rate of attempts, a floating-point number, is left out.
-/
import CommonFoundry.Lib.Lock
import CommonFoundry.Lib.Schedule
import CommonFoundry.Lib.Word

namespace CommonFoundry

open Lib

/-! ## The status -/

inductive MiningMode where
  | solo
  | pool
  deriving DecidableEq

inductive MiningLifecycle where
  | stopped
  | starting
  | running
  | stopping
  | error
  deriving DecidableEq

inductive MiningEngine where
  | cpu
  | cuda
  deriving DecidableEq

structure MiningStartRequest where
  mode : MiningMode
  payout : String
  poolUrl : Option String
  workerName : Option String
  deriving DecidableEq

structure MinedBlockSummary where
  height : UInt64
  blockId : String
  deriving DecidableEq

structure MiningStatus where
  lifecycle : MiningLifecycle
  mode : Option MiningMode
  payout : Option String
  poolUrl : Option String
  workerName : Option String
  engine : MiningEngine
  device : Option String
  sessionAttempts : UInt64
  blocksFound : UInt64
  sharesAccepted : UInt64
  sharesRejected : UInt64
  creditedAtoms : String
  poolConnected : Bool
  currentHeight : UInt64
  lastBlock : Option MinedBlockSummary
  lastError : Option String
  deriving DecidableEq

structure NodeClientError where
  code : String
  status : UInt16
  retryable : Bool
  message : String
  deriving DecidableEq

/-- `manager_error`. -/
def managerError (code message : String) (retryable : Bool) : NodeClientError :=
  { code, status := 503, retryable, message }

namespace MiningStatus

/-- The status of `MiningManager::new`. -/
def new (currentHeight : UInt64) : MiningStatus where
  lifecycle := .stopped
  mode := none
  payout := none
  poolUrl := none
  workerName := none
  engine := .cpu
  device := none
  sessionAttempts := 0
  blocksFound := 0
  sharesAccepted := 0
  sharesRejected := 0
  creditedAtoms := "0"
  poolConnected := false
  currentHeight
  lastBlock := none
  lastError := none

/-- What `start` sets. -/
def starting (request : MiningStartRequest) (status : MiningStatus) : MiningStatus :=
  { new status.currentHeight with
    lifecycle := .starting
    mode := some request.mode
    payout := some request.payout
    poolUrl := request.poolUrl
    workerName := request.workerName }

/-- What `start` sets when no thread could be spawned. -/
def startFailed (status : MiningStatus) : MiningStatus :=
  { status with lifecycle := .error, lastError := some "The mining worker could not start." }

/-- What `stop` sets before it joins the worker. -/
def stopping (status : MiningStatus) : MiningStatus := { status with lifecycle := .stopping }

/-- What `stop` sets after it has joined a worker that panicked. -/
def workerFailed (status : MiningStatus) : MiningStatus :=
  { status with
    lifecycle := .error
    poolConnected := false
    lastError := some "The mining worker stopped unexpectedly." }

/-- What a worker sets at the end of its loop, and `stop` when it has joined it. -/
def stop (status : MiningStatus) : MiningStatus :=
  { status with lifecycle := .stopped, mode := none, payout := none, poolConnected := false }

/-- What `stop` sets when there is no worker. -/
def stopWithout (status : MiningStatus) : MiningStatus := { status.stop with lastError := none }

/-- `fail_worker`. -/
def fail (message : String) (status : MiningStatus) : MiningStatus :=
  { status with lifecycle := .error, poolConnected := false, lastError := some message }

end MiningStatus

/-! ## The worker -/

/-- What the mining loops write to the status on their way. -/
inductive WorkerWrite where
  /-- a job of the node -/
  | running (currentHeight : UInt64)
  /-- a connection to a pool -/
  | connected (currentHeight : UInt64)
  /-- a job of the pool -/
  | workingOn (currentHeight : UInt64)
  | searched (attemptsCompleted : UInt64)
  | minedBlock (acceptedHeight : UInt64) (block : MinedBlockSummary)
  | submittedShare (accepted blockAccepted : Bool) (creditedAtoms currentHeight : UInt64)
  /-- `mark_cuda_active` -/
  | cudaActive (device : String)
  /-- `mark_cuda_fallback` -/
  | cudaFallback (error : String)
  /-- `mark_pool_reconnecting` -/
  | reconnecting (error : String)

def WorkerWrite.apply : WorkerWrite → MiningStatus → MiningStatus
  | .running currentHeight, status =>
      { status with lifecycle := .running, currentHeight, lastError := none }
  | .connected currentHeight, status =>
      { status with
        lifecycle := .running, poolConnected := true, currentHeight, lastError := none }
  | .workingOn currentHeight, status => { status with currentHeight }
  | .searched attemptsCompleted, status =>
      { status with sessionAttempts := saturatingAdd status.sessionAttempts attemptsCompleted }
  | .minedBlock acceptedHeight block, status =>
      { status with
        blocksFound := saturatingAdd status.blocksFound 1
        currentHeight := acceptedHeight
        lastBlock := some block }
  | .submittedShare accepted blockAccepted creditedAtoms currentHeight, status =>
      { status with
        sharesAccepted := saturatingAdd status.sharesAccepted (if accepted then 1 else 0)
        sharesRejected := saturatingAdd status.sharesRejected (if accepted then 0 else 1)
        blocksFound := saturatingAdd status.blocksFound (if blockAccepted then 1 else 0)
        creditedAtoms := toString creditedAtoms.toNat
        currentHeight
        poolConnected := true
        lastError := none }
  | .cudaActive device, status =>
      { status with engine := .cuda, device := some device, lastError := none }
  | .cudaFallback error, status =>
      { status with
        engine := .cpu
        device := none
        lastError := some ("CUDA unavailable; CPU fallback active. " ++ error) }
  | .reconnecting error, status =>
      { status with
        poolConnected := false
        lastError := some ("Pool connection lost; retrying: " ++ error) }

/-- Where a worker thread is: in its loop, past its last write, or at its end. -/
inductive WorkerPlace where
  | mining
  | leaving
  | finished (panicked : Bool)
  deriving DecidableEq

structure WorkerThread where
  place : WorkerPlace
  stop : Bool
  deriving DecidableEq

/-- The thread has not ended. -/
def WorkerThread.alive (thread : WorkerThread) : Bool :=
  match thread.place with
  | .finished _ => false
  | _ => true

/-- `handle.is_finished()`. -/
def WorkerThread.isFinished (thread : WorkerThread) : Bool := ¬thread.alive

/-- What a worker does next. -/
inductive WorkerAction where
  | write (write : WorkerWrite)
  | fail (message : String)
  /-- the section after the loop -/
  | stop
  | finish
  | panic (underLock : Bool)

/-! ## The manager -/

/-- Where a caller stands.  A place of a stop knows whether it is `stop_for_shutdown`. -/
inductive ManagerCall where
  | idle
  | startWaiting (request : MiningStartRequest)
  /-- there is no worker -/
  | startChecked (request : MiningStartRequest)
  /-- the status is set -/
  | spawning (session : Nat) (starting : MiningStatus)
  | spawnFailed (session : Nat)
  | spawned (session : Nat) (starting : MiningStatus)
  | started (result : Except NodeClientError MiningStatus)
  | stopWaiting (shuttingDown : Bool)
  /-- there was no worker -/
  | stopEmpty (shuttingDown : Bool)
  /-- there was one, and it is taken out of the record -/
  | stopTaken (shuttingDown : Bool) (session : Nat)
  | stopFlagging (shuttingDown : Bool) (session : Nat)
  | stopJoining (shuttingDown : Bool) (session : Nat)
  | stopJoined (shuttingDown : Bool) (session : Nat) (panicked : Bool)
  | stopped (shuttingDown : Bool) (result : Except NodeClientError MiningStatus)

namespace ManagerCall

/-- The places where a caller holds the control lock. -/
def holdsControl : ManagerCall → Bool
  | .startChecked _ | .spawning .. | .spawnFailed _ | .spawned .. => true
  | .stopEmpty _ | .stopTaken .. | .stopFlagging .. | .stopJoining .. | .stopJoined .. => true
  | _ => false

/-- The caller has no call under way. -/
def atRest : ManagerCall → Bool
  | .idle | .started _ | .stopped .. => true
  | _ => false

end ManagerCall

/-- A `MiningManager` with its callers and its workers. -/
structure MiningManager (Caller : Type) where
  status : MiningStatus
  statusPoisoned : Bool
  /-- the session of the worker in the control record -/
  worker : Option Nat
  shuttingDown : Bool
  controlHolder : Option Caller
  calls : Caller → ManagerCall
  /-- the threads, by their sessions -/
  threads : Nat → Option WorkerThread
  /-- how many times a start has set the status -/
  sessions : Nat

inductive ManagerRequest where
  | start (request : MiningStartRequest)
  | stop
  | stopForShutdown

inductive ManagerEvent (Caller : Type) where
  | call (caller : Caller) (request : ManagerRequest)
  /-- what a caller does next, where that does not depend on the system -/
  | run (caller : Caller)
  /-- `thread::Builder::spawn`, and whether it succeeds -/
  | spawn (caller : Caller) (succeeds : Bool)
  | worker (session : Nat) (action : WorkerAction)

def stateUnavailable : NodeClientError :=
  managerError "mining_state_unavailable" "Miner state is unavailable." true

def shuttingDownError : NodeClientError :=
  managerError "mining_shutting_down" "The miner is shutting down." false

def alreadyRunning : NodeClientError :=
  managerError "mining_already_running" "The miner is already running." false

def startFailedError : NodeClientError :=
  managerError "mining_worker_start_failed" "The mining worker could not start." true

def workerFailedError : NodeClientError :=
  managerError "mining_worker_failed" "The mining worker stopped unexpectedly." true

namespace MiningManager

variable {Caller : Type}

def new (currentHeight : UInt64) : MiningManager Caller where
  status := .new currentHeight
  statusPoisoned := false
  worker := none
  shuttingDown := false
  controlHolder := none
  calls _ := .idle
  threads _ := none
  sessions := 0

/-- A worker of a session that has not ended. -/
def Alive (manager : MiningManager Caller) (session : Nat) : Prop :=
  (manager.threads session).any (·.alive) = true

/-- A write under the lock of the status, which is left out where the lock is poisoned. -/
def write (manager : MiningManager Caller) (f : MiningStatus → MiningStatus) :
    MiningManager Caller :=
  if manager.statusPoisoned then manager else { manager with status := f manager.status }

/-- The worker of the record, if its thread has not finished. -/
def unfinishedWorker (manager : MiningManager Caller) : Option Nat :=
  manager.worker.filter fun session => ¬(manager.threads session).any (·.isFinished)

/-- A change of one thread. -/
def setThread (manager : MiningManager Caller) (session : Nat) (thread : WorkerThread) :
    MiningManager Caller :=
  { manager with threads := Function.update manager.threads session (some thread) }

variable [DecidableEq Caller]

/-- The caller moves on, and drops the control lock where it leaves its section. -/
def goto (manager : MiningManager Caller) (c : Caller) (call : ManagerCall) :
    MiningManager Caller :=
  { manager with
    calls := Function.update manager.calls c call
    controlHolder := holderAfter ManagerCall.holdsControl manager.controlHolder c call }

/-- A write whose result is returned, or an error where the lock is poisoned. -/
def writeAndReturn (manager : MiningManager Caller) (c : Caller) (f : MiningStatus → MiningStatus)
    (place : Except NodeClientError MiningStatus → ManagerCall) : MiningManager Caller :=
  if manager.statusPoisoned then manager.goto c (place (.error stateUnavailable))
  else { manager with status := f manager.status }.goto c (place (.ok (f manager.status)))

/-! ## `start` -/

/-- The control lock is taken.  A worker that has finished is joined and forgotten. -/
def lockForStart (manager : MiningManager Caller) (c : Caller) (request : MiningStartRequest) :
    Option (MiningManager Caller) :=
  if manager.controlHolder.isSome then none
  else if manager.shuttingDown then some (manager.goto c (.started (.error shuttingDownError)))
  else
    match manager.unfinishedWorker with
    | some session =>
        some ({ manager with worker := some session }.goto c (.started (.error alreadyRunning)))
    | none => some ({ manager with worker := none }.goto c (.startChecked request))

def setStarting (manager : MiningManager Caller) (c : Caller) (request : MiningStartRequest) :
    MiningManager Caller :=
  if manager.statusPoisoned then manager.goto c (.started (.error stateUnavailable))
  else
    let status := manager.status.starting request
    { manager with status, sessions := manager.sessions + 1 }.goto c
      (.spawning manager.sessions status)

def spawn (manager : MiningManager Caller) (c : Caller) (session : Nat) (starting : MiningStatus)
    (succeeds : Bool) : MiningManager Caller :=
  if succeeds then
    (manager.setThread session { place := .mining, stop := false }).goto c
      (.spawned session starting)
  else manager.goto c (.spawnFailed session)

/-! ## `stop_inner` -/

/-- The control lock is taken, and the worker out of the record. -/
def lockForStop (manager : MiningManager Caller) (c : Caller) (shuttingDown : Bool) :
    Option (MiningManager Caller) :=
  if manager.controlHolder.isSome then none
  else
    let locked := { manager with
      worker := none, shuttingDown := manager.shuttingDown || shuttingDown }
    match manager.worker with
    | none => some (locked.goto c (.stopEmpty shuttingDown))
    | some session => some (locked.goto c (.stopTaken shuttingDown session))

/-- The flag of the worker is stored. -/
def storeFlag (manager : MiningManager Caller) (c : Caller) (shuttingDown : Bool)
    (session : Nat) : Option (MiningManager Caller) :=
  (manager.threads session).map fun thread =>
    (manager.setThread session { thread with stop := true }).goto c
      (.stopJoining shuttingDown session)

/-- The join waits until the worker has finished. -/
def join (manager : MiningManager Caller) (c : Caller) (shuttingDown : Bool) (session : Nat) :
    Option (MiningManager Caller) :=
  (manager.threads session).bind fun thread =>
    match thread.place with
    | .finished panicked => some (manager.goto c (.stopJoined shuttingDown session panicked))
    | _ => none

/-- The worker is joined. -/
def finishStop (manager : MiningManager Caller) (c : Caller) (shuttingDown panicked : Bool) :
    MiningManager Caller :=
  if panicked then
    (manager.write MiningStatus.workerFailed).goto c
      (.stopped shuttingDown (.error workerFailedError))
  else manager.writeAndReturn c MiningStatus.stop (.stopped shuttingDown)

/-! ## The steps -/

/-- What a caller at a place does next. -/
def run (manager : MiningManager Caller) (c : Caller) : Option (MiningManager Caller) :=
  match manager.calls c with
  | .startWaiting request => manager.lockForStart c request
  | .startChecked request => some (manager.setStarting c request)
  | .spawnFailed _ => some ((manager.write MiningStatus.startFailed).goto c
      (.started (.error startFailedError)))
  | .spawned session starting =>
      some ({ manager with worker := some session }.goto c (.started (.ok starting)))
  | .stopWaiting shuttingDown => manager.lockForStop c shuttingDown
  | .stopEmpty shuttingDown =>
      some (manager.writeAndReturn c MiningStatus.stopWithout (.stopped shuttingDown))
  | .stopTaken shuttingDown session =>
      some ((manager.write MiningStatus.stopping).goto c (.stopFlagging shuttingDown session))
  | .stopFlagging shuttingDown session => manager.storeFlag c shuttingDown session
  | .stopJoining shuttingDown session => manager.join c shuttingDown session
  | .stopJoined shuttingDown _ panicked => some (manager.finishStop c shuttingDown panicked)
  | _ => none

/-- A worker that has not ended, at its next action. -/
def runWorker (manager : MiningManager Caller) (session : Nat) (thread : WorkerThread) :
    WorkerAction → Option (MiningManager Caller)
  | .write write =>
      if thread.place = .mining then some (manager.write write.apply) else none
  | .fail message =>
      if thread.place = .mining then
        some ((manager.write (MiningStatus.fail message)).setThread session
          { thread with place := .leaving })
      else none
  | .stop =>
      if thread.place = .mining then
        some ((manager.write MiningStatus.stop).setThread session { thread with place := .leaving })
      else none
  | .finish =>
      if thread.place = .leaving then
        some (manager.setThread session { thread with place := .finished false })
      else none
  | .panic underLock =>
      if thread.place = .mining then
        some ({ manager with statusPoisoned := manager.statusPoisoned || underLock }.setThread
          session { thread with place := .finished true })
      else none

/-- The place of a caller after it has called. -/
def called (checks : MiningStartRequest → Option NodeClientError) : ManagerRequest → ManagerCall
  | .start request =>
      match checks request with
      | some error => .started (.error error)
      | none => .startWaiting request
  | .stop => .stopWaiting false
  | .stopForShutdown => .stopWaiting true

def step (checks : MiningStartRequest → Option NodeClientError) (event : ManagerEvent Caller)
    (manager : MiningManager Caller) : Option (MiningManager Caller) :=
  match event with
  | .call c request =>
      if (manager.calls c).atRest then some (manager.goto c (called checks request)) else none
  | .run c => manager.run c
  | .spawn c succeeds =>
      match manager.calls c with
      | .spawning session starting => some (manager.spawn c session starting succeeds)
      | _ => none
  | .worker session action =>
      (manager.threads session).bind fun thread => manager.runWorker session thread action

end MiningManager

end CommonFoundry
