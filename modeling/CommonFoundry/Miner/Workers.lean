/-
# `CommonFoundry.Miner.Workers` — the threads of `mine_work`

One worker thread per device, and the coordinator that spawned them.  They share
an atomic flag, `cancel`, and one bounded channel from the workers to the
coordinator.

Each party is a program counter with the local data it carries, and one event is
one access to what is shared: a load or a store of the flag, a send, a receive.
`send` waits while the channel is full, so it is enabled only below the capacity;
`try_send` is always enabled and drops its message when the channel is full.
What a device computes, what the status check answers and whether a shutdown was
requested are inputs, and all of these return.

The coordinator keeps the receiver until `mine_work` returns, so no send fails:
it waits.
-/
import Mathlib.Data.Finset.Insert
import CommonFoundry.Consensus.Network
import CommonFoundry.Lib.Schedule
import CommonFoundry.Lib.Word

namespace CommonFoundry

open Lib

/-! ## Messages and results -/

inductive WorkerMessage where
  | ready (device : Int32)
  | progress (device : Int32) (attempts : UInt64)
  | found (device : Int32) (proof : BlockProof) (attempts : UInt64)
  | failed (device : Int32) (error : String)
  deriving DecidableEq

inductive JobOutcome where
  | found (device : Int32) (proof : BlockProof)
  | stale
  | disconnected
  | shutdown
  deriving DecidableEq

inductive WorkStatus where
  | current
  | stale
  | disconnected
  deriving DecidableEq

/-- The errors that `monitor_workers` returns. -/
inductive MonitorError where
  /-- "GPU {device} failed: {error}" -/
  | gpuFailed (device : Int32) (error : String)
  /-- "all CUDA workers exited before finding or cancelling work" -/
  | allExited
  /-- what the status check returned -/
  | status (error : String)
  deriving DecidableEq

/-- What `monitor_workers` returns. -/
abbrev MonitorResult := Except MonitorError JobOutcome

/-- `MiningShareSearchResult`, as far as a worker looks at it. -/
inductive MiningShareSearchResult where
  | found (proof : BlockProof)
  | exhausted
  | cancelled

/-- The devices of a job, by their index, and the size of a batch. -/
structure MineJob where
  devices : List Int32
  batchSize : UInt32

namespace MineJob

/-- `devices.len().saturating_mul(4).max(4)`. -/
def capacity (job : MineJob) : Nat := max (min (job.devices.length * 4) (2 ^ 64 - 1)) 4

/-- `nonce_start`. -/
def nonceStart (job : MineJob) (ordinal : Nat) : UInt64 :=
  job.batchSize.toUInt64 * UInt64.ofNat ordinal

/-- `nonce_stride`. -/
def nonceStride (job : MineJob) : UInt64 :=
  job.batchSize.toUInt64 * UInt64.ofNat job.devices.length

end MineJob

/-! ## A worker -/

/-- Where a worker thread is. -/
inductive Worker where
  /-- up to the canary: the model, the device, and one batch verified -/
  | starting
  | sendingReady
  /-- about to load the flag -/
  | looping (pendingAttempts nextNonce : UInt64)
  /-- the flag was not set: one batch on the device -/
  | evaluating (pendingAttempts nextNonce : UInt64)
  /-- about to set the flag, with a proof -/
  | foundProof (proof : BlockProof) (attempts : UInt64)
  | sendingFound (proof : BlockProof) (attempts : UInt64)
  | tryingProgress (pendingAttempts nextNonce : UInt64)
  /-- `run_worker` returned an error: about to set the flag -/
  | failing (error : String)
  | sendingFailed (error : String)
  | exited
  deriving DecidableEq

/-- What a worker's next step needs from outside. -/
inductive WorkerInput where
  /-- nothing -/
  | go
  /-- how the start ended -/
  | started (result : Except String Unit)
  /-- how the batch ended -/
  | batch (result : Except String MiningShareSearchResult)

/-- `try_send`: the channel with the message, if there is room. -/
def trySend (job : MineJob) (channel : List WorkerMessage) (message : WorkerMessage) :
    Option (List WorkerMessage) :=
  if channel.length < job.capacity then some (channel ++ [message]) else none

/-- A worker, the flag and the channel. -/
structure WorkerView where
  worker : Worker
  cancel : Bool
  channel : List WorkerMessage

/-- One step of the worker thread of a device: `run_worker`, and around it the
closure of `spawn_worker`. -/
def Worker.step (job : MineJob) (device : Int32) (ordinal : Nat) (input : WorkerInput)
    (view : WorkerView) : Option WorkerView :=
  match view.worker, input with
  | .starting, .started (.ok ()) => some { view with worker := .sendingReady }
  | .starting, .started (.error error) => some { view with worker := .failing error }
  | .sendingReady, .go =>
      (trySend job view.channel (.ready device)).map fun channel =>
        { view with worker := .looping 0 (job.nonceStart ordinal), channel }
  | .looping pendingAttempts nextNonce, .go =>
      some { view with
        worker := if view.cancel then .exited else .evaluating pendingAttempts nextNonce }
  | .evaluating _ _, .batch (.error error) => some { view with worker := .failing error }
  | .evaluating pendingAttempts nextNonce, .batch (.ok result) =>
      let pendingAttempts := saturatingAdd pendingAttempts job.batchSize.toUInt64
      match result with
      | .found proof => some { view with worker := .foundProof proof pendingAttempts }
      | .exhausted => some { view with worker := .tryingProgress pendingAttempts nextNonce }
      | .cancelled => some { view with worker := .exited }
  | .foundProof proof attempts, .go =>
      some { view with worker := .sendingFound proof attempts, cancel := true }
  | .sendingFound proof attempts, .go =>
      (trySend job view.channel (.found device proof attempts)).map fun channel =>
        { view with worker := .exited, channel }
  | .tryingProgress pendingAttempts nextNonce, .go =>
      match trySend job view.channel (.progress device pendingAttempts) with
      | some channel =>
          some { view with worker := .looping 0 (nextNonce + job.nonceStride), channel }
      | none =>
          some { view with worker := .looping pendingAttempts (nextNonce + job.nonceStride) }
  | .failing error, .go => some { view with worker := .sendingFailed error, cancel := true }
  | .sendingFailed error, .go =>
      (trySend job view.channel (.failed device error)).map fun channel =>
        { view with worker := .exited, channel }
  | _, _ => none

/-! ## The coordinator -/

/-- Where the coordinator is: in the loop of `monitor_workers`, on its way out of
it, or in `WorkerSet::stop`. -/
inductive Coordinator where
  /-- about to load the shutdown flag -/
  | checking
  | receiving
  /-- about to check the status of the work -/
  | polling
  /-- about to set `worker_cancel` and return -/
  | cancelling (result : MonitorResult)
  /-- `monitor_workers` has returned; `stop` is about to set the flag -/
  | returned (result : MonitorResult)
  /-- `stop` has joined so many workers -/
  | joining (result : MonitorResult) (joined : Nat)
  /-- `mine_work` has returned -/
  | finished (result : MonitorResult)

inductive CoordinatorInput where
  | go
  | shutdown (requested : Bool)
  | status (result : Except String WorkStatus)

/-- The state of `mine_work`. -/
structure Mining (job : MineJob) where
  workers : Fin job.devices.length → Worker
  cancel : Bool
  channel : List WorkerMessage
  coordinator : Coordinator
  ready : Finset Int32
  totals : Int32 → UInt64

namespace Mining

variable {job : MineJob}

/-- All workers are spawned, and the monitor is about to start. -/
def new (job : MineJob) (totals : Int32 → UInt64) : Mining job where
  workers _ := .starting
  cancel := false
  channel := []
  coordinator := .checking
  ready := ∅
  totals

/-- `SessionStatistics::record_attempts`. -/
def recordAttempts (mining : Mining job) (device : Int32) (attempts : UInt64) : Mining job :=
  { mining with
    totals := Function.update mining.totals device (saturatingAdd (mining.totals device) attempts) }

/-- The arms of the match on a received message. -/
def receive (mining : Mining job) : WorkerMessage → Mining job
  | .ready device =>
      { mining with ready := insert device mining.ready, coordinator := .polling }
  | .progress device attempts =>
      { mining.recordAttempts device attempts with coordinator := .polling }
  | .found device proof attempts =>
      { mining.recordAttempts device attempts with
        coordinator := .cancelling (.ok (.found device proof)) }
  | .failed device error =>
      { mining with coordinator := .cancelling (.error (.gpuFailed device error)) }

/-- One step of the coordinator.  `recv_timeout` takes the oldest message; on an
empty channel it times out, or finds that every sender is gone. -/
def stepCoordinator (mining : Mining job) (input : CoordinatorInput) : Option (Mining job) :=
  match mining.coordinator, input with
  | .checking, .shutdown requested =>
      some { mining with
        coordinator := if requested then .cancelling (.ok .shutdown) else .receiving }
  | .receiving, .go =>
      match mining.channel with
      | message :: rest => some ({ mining with channel := rest }.receive message)
      | [] =>
          some { mining with
            coordinator :=
              if ∀ ordinal, mining.workers ordinal = .exited then .returned (.error .allExited)
              else .polling }
  | .polling, .status (.ok .current) => some { mining with coordinator := .checking }
  | .polling, .status (.ok .stale) => some { mining with coordinator := .cancelling (.ok .stale) }
  | .polling, .status (.ok .disconnected) =>
      some { mining with coordinator := .cancelling (.ok .disconnected) }
  | .polling, .status (.error error) =>
      some { mining with coordinator := .returned (.error (.status error)) }
  | .cancelling result, .go => some { mining with coordinator := .returned result, cancel := true }
  | .returned result, .go => some { mining with coordinator := .joining result 0, cancel := true }
  | .joining result joined, .go =>
      if h : joined < job.devices.length then
        if mining.workers ⟨joined, h⟩ = .exited then
          some { mining with coordinator := .joining result (joined + 1) }
        else none
      else some { mining with coordinator := .finished result }
  | _, _ => none

/-- One step of one worker. -/
def stepWorker (mining : Mining job) (ordinal : Fin job.devices.length) (input : WorkerInput) :
    Option (Mining job) :=
  (Worker.step job (job.devices.get ordinal) ordinal input
    { worker := mining.workers ordinal, cancel := mining.cancel, channel := mining.channel }).map
      fun view =>
        { mining with
          workers := Function.update mining.workers ordinal view.worker
          cancel := view.cancel
          channel := view.channel }

end Mining

/-- A step of one of the threads. -/
inductive MiningEvent (job : MineJob) where
  | worker (ordinal : Fin job.devices.length) (input : WorkerInput)
  | coordinator (input : CoordinatorInput)

namespace Mining

variable {job : MineJob}

def step : MiningEvent job → Mining job → Option (Mining job)
  | .worker ordinal input, mining => mining.stepWorker ordinal input
  | .coordinator input, mining => mining.stepCoordinator input

/-- The states that some interleaving leads to. -/
def Reachable (mining : Mining job) : Prop :=
  ∃ totals events, runEvents step events (new job totals) = some mining

end Mining

end CommonFoundry
