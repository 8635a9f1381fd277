/-
# `CommonFoundry.Wallet.MiningSections` — what one step of the miner's manager does

Every step of a `MiningManager` is a new call, a section of a call, or an action of a worker
(`step_cases`).  A `Section` takes a caller from one place to the next and says what becomes of
the record, the status and the threads; the move itself, with the lock that it takes or drops,
is the same for all of them.  An action of a worker writes the status and may end its own
thread, and leaves the rest alone (`WorkerStep`).
-/
import CommonFoundry.Wallet.MiningManager

namespace CommonFoundry

open Lib

/-! ## Places -/

namespace ManagerCall

/-- The session that a call is about. -/
def session : ManagerCall → Option Nat
  | .spawning session _ | .spawnFailed session | .spawned session _ => some session
  | .stopTaken _ session | .stopFlagging _ session | .stopJoining _ session => some session
  | .stopJoined _ session _ => some session
  | _ => none

/-- The session whose thread is in the hands of the caller. -/
def owns : ManagerCall → Option Nat
  | .spawned session _ => some session
  | .stopTaken _ session | .stopFlagging _ session | .stopJoining _ session => some session
  | _ => none

/-- The call is a start that may succeed. -/
def starts : ManagerCall → Bool
  | .startChecked _ | .spawning .. | .spawnFailed _ | .spawned .. => true
  | _ => false

/-- The call is a `stop_for_shutdown` that has taken the lock. -/
def shutsDown : ManagerCall → Bool
  | .stopEmpty shuttingDown | .stopTaken shuttingDown _ | .stopFlagging shuttingDown _ =>
      shuttingDown
  | .stopJoining shuttingDown _ | .stopJoined shuttingDown _ _ | .stopped shuttingDown _ =>
      shuttingDown
  | _ => false

theorem session_of_owns {call : ManagerCall} {n : Nat} (h : call.owns = some n) :
    call.session = some n := by
  cases call <;> first | exact h | cases h

theorem outside_of_atRest {call : ManagerCall} (h : call.atRest = true) :
    call.holdsControl = false := by
  cases call <;> first | rfl | cases h

theorem session_of_outside {call : ManagerCall} (h : call.holdsControl = false) :
    call.session = none := by
  cases call <;> first | rfl | cases h

theorem owns_of_outside {call : ManagerCall} (h : call.holdsControl = false) :
    call.owns = none := by
  cases call <;> first | rfl | cases h

theorem starts_of_outside {call : ManagerCall} (h : call.holdsControl = false) :
    call.starts = false := by
  cases call <;> first | rfl | cases h

end ManagerCall

namespace MiningManager

variable {Caller : Type}

/-! ## What a step does -/

section

variable (manager : MiningManager Caller) (f : MiningStatus → MiningStatus)

@[simp] theorem write_worker : (manager.write f).worker = manager.worker := by
  unfold write; split <;> rfl

@[simp] theorem write_sessions : (manager.write f).sessions = manager.sessions := by
  unfold write; split <;> rfl

@[simp] theorem write_shuttingDown : (manager.write f).shuttingDown = manager.shuttingDown := by
  unfold write; split <;> rfl

@[simp] theorem write_calls : (manager.write f).calls = manager.calls := by
  unfold write; split <;> rfl

@[simp] theorem write_controlHolder :
    (manager.write f).controlHolder = manager.controlHolder := by
  unfold write; split <;> rfl

end

variable {manager after : MiningManager Caller} {c : Caller} {place : ManagerCall}

/-- A section of a call: from a place to the next, with what it does to the record, the status
and the threads. -/
inductive Section (manager : MiningManager Caller) :
    ManagerCall → MiningManager Caller → ManagerCall → Prop
  | refused {request : MiningStartRequest} {error : NodeClientError} :
      manager.controlHolder = none →
      Section manager (.startWaiting request) manager (.started (.error error))
  | checked {request : MiningStartRequest} :
      manager.controlHolder = none → manager.shuttingDown = false →
      (∀ session, manager.worker = some session → ¬manager.Alive session) →
      Section manager (.startWaiting request) { manager with worker := none }
        (.startChecked request)
  | unavailable {request : MiningStartRequest} {error : NodeClientError} :
      Section manager (.startChecked request) manager (.started (.error error))
  | starting {request : MiningStartRequest} :
      Section manager (.startChecked request)
        { manager with
          status := manager.status.starting request, sessions := manager.sessions + 1 }
        (.spawning manager.sessions (manager.status.starting request))
  | spawned {session : Nat} {starting : MiningStatus} {thread : WorkerThread} :
      Section manager (.spawning session starting) (manager.setThread session thread)
        (.spawned session starting)
  | notSpawned {session : Nat} {starting : MiningStatus} :
      Section manager (.spawning session starting) manager (.spawnFailed session)
  | startFailed {session : Nat} {error : NodeClientError} :
      Section manager (.spawnFailed session) (manager.write MiningStatus.startFailed)
        (.started (.error error))
  | started {session : Nat} {starting : MiningStatus} :
      Section manager (.spawned session starting) { manager with worker := some session }
        (.started (.ok starting))
  | empty {shuttingDown : Bool} :
      manager.controlHolder = none → manager.worker = none →
      Section manager (.stopWaiting shuttingDown)
        { manager with shuttingDown := manager.shuttingDown || shuttingDown }
        (.stopEmpty shuttingDown)
  | taken {shuttingDown : Bool} {session : Nat} :
      manager.controlHolder = none → manager.worker = some session →
      Section manager (.stopWaiting shuttingDown)
        { manager with worker := none, shuttingDown := manager.shuttingDown || shuttingDown }
        (.stopTaken shuttingDown session)
  | stoppedWithout {shuttingDown : Bool} {result : Except NodeClientError MiningStatus} :
      (∀ status, result = .ok status →
        (manager.write MiningStatus.stopWithout).status = manager.status.stopWithout) →
      Section manager (.stopEmpty shuttingDown) (manager.write MiningStatus.stopWithout)
        (.stopped shuttingDown result)
  | stopping {shuttingDown : Bool} {session : Nat} :
      Section manager (.stopTaken shuttingDown session) (manager.write MiningStatus.stopping)
        (.stopFlagging shuttingDown session)
  | flagged {shuttingDown : Bool} {session : Nat} {thread : WorkerThread} :
      manager.threads session = some thread →
      Section manager (.stopFlagging shuttingDown session)
        (manager.setThread session { thread with stop := true })
        (.stopJoining shuttingDown session)
  | joined {shuttingDown panicked : Bool} {session : Nat} :
      ¬manager.Alive session →
      Section manager (.stopJoining shuttingDown session) manager
        (.stopJoined shuttingDown session panicked)
  | failed {shuttingDown : Bool} {session : Nat} {error : NodeClientError} :
      Section manager (.stopJoined shuttingDown session true)
        (manager.write MiningStatus.workerFailed) (.stopped shuttingDown (.error error))
  | stopped {shuttingDown : Bool} {session : Nat}
      {result : Except NodeClientError MiningStatus} :
      (∀ status, result = .ok status →
        (manager.write MiningStatus.stop).status = manager.status.stop) →
      Section manager (.stopJoined shuttingDown session false) (manager.write MiningStatus.stop)
        (.stopped shuttingDown result)

/-- What an action of a worker leaves alone.  It may end its own thread. -/
structure WorkerStep (manager : MiningManager Caller) (session : Nat)
    (after : MiningManager Caller) : Prop where
  alive : manager.Alive session
  worker : after.worker = manager.worker
  shuttingDown : after.shuttingDown = manager.shuttingDown
  controlHolder : after.controlHolder = manager.controlHolder
  calls : after.calls = manager.calls
  sessions : after.sessions = manager.sessions
  survivors : ∀ n, after.Alive n → manager.Alive n

theorem write_eq (manager : MiningManager Caller) (f : MiningStatus → MiningStatus) :
    manager.write f = { manager with status := (manager.write f).status } := by
  unfold write
  split <;> rfl

/-- A write comes about, or the lock is poisoned. -/
theorem write_status (manager : MiningManager Caller) (f : MiningStatus → MiningStatus) :
    (manager.write f).status = f manager.status ∨ (manager.write f).status = manager.status := by
  unfold write
  split
  · exact .inr rfl
  · exact .inl rfl

theorem alive_setThread_of_ne {session n : Nat} {thread : WorkerThread} (hn : n ≠ session) :
    (manager.setThread session thread).Alive n ↔ manager.Alive n := by
  have hthreads : (manager.setThread session thread).threads n = manager.threads n :=
    Function.update_of_ne hn _ _
  rw [Alive, hthreads, Alive]

/-- A worker that has not ended may change its own thread, and the status. -/
theorem workerStep_setThread {session : Nat} {status : MiningStatus} {statusPoisoned : Bool}
    {thread : WorkerThread} (h : manager.Alive session) :
    WorkerStep manager session
      ({ manager with status, statusPoisoned }.setThread session thread) := by
  refine ⟨h, rfl, rfl, rfl, rfl, rfl, fun n halive => ?_⟩
  by_cases hn : n = session
  · rw [hn]
    exact h
  · exact (alive_setThread_of_ne hn).mp halive

theorem workerStep_of_runWorker {session : Nat} {thread : WorkerThread} {action : WorkerAction}
    (hthread : manager.threads session = some thread)
    (h : manager.runWorker session thread action = some after) :
    WorkerStep manager session after := by
  have halive : thread.place = .mining ∨ thread.place = .leaving → manager.Alive session := by
    rintro (hplace | hplace) <;> rw [Alive, hthread, Option.any_some, WorkerThread.alive, hplace]
  cases action with
  | write write =>
      obtain ⟨hplace, h⟩ := Option.ite_none_right_eq_some.mp h
      cases h
      rw [write_eq]
      exact ⟨halive (.inl hplace), rfl, rfl, rfl, rfl, rfl, fun _ => id⟩
  | fail message =>
      obtain ⟨hplace, h⟩ := Option.ite_none_right_eq_some.mp h
      cases h
      rw [write_eq]
      exact workerStep_setThread (halive (.inl hplace))
  | stop =>
      obtain ⟨hplace, h⟩ := Option.ite_none_right_eq_some.mp h
      cases h
      rw [write_eq]
      exact workerStep_setThread (halive (.inl hplace))
  | finish =>
      obtain ⟨hplace, h⟩ := Option.ite_none_right_eq_some.mp h
      cases h
      exact workerStep_setThread (halive (.inr hplace))
  | panic underLock =>
      obtain ⟨hplace, h⟩ := Option.ite_none_right_eq_some.mp h
      cases h
      exact workerStep_setThread (halive (.inl hplace))

theorem unfinishedWorker_eq_some {session : Nat}
    (h : manager.unfinishedWorker = some session) : manager.worker = some session := by
  obtain ⟨hworker, _⟩ := Option.filter_eq_some_iff.mp h
  exact hworker

theorem unfinishedWorker_eq_none (h : manager.unfinishedWorker = none) :
    ∀ session, manager.worker = some session → ¬manager.Alive session := by
  intro session hworker halive
  rw [unfinishedWorker, hworker, Option.filter_some] at h
  cases hthread : manager.threads session with
  | none =>
      rw [Alive, hthread] at halive
      cases halive
  | some thread =>
      rw [Alive, hthread, Option.any_some] at halive
      rw [hthread, Option.any_some, WorkerThread.isFinished, halive] at h
      cases h

theorem free_of_isSome (h : ¬manager.controlHolder.isSome = true) :
    manager.controlHolder = none :=
  Option.not_isSome_iff_eq_none.mp h

section

variable [DecidableEq Caller]

theorem section_of_lockForStart {request : MiningStartRequest}
    (h : manager.lockForStart c request = some after) :
    ∃ base place, Section manager (.startWaiting request) base place ∧
      after = base.goto c place := by
  unfold lockForStart at h
  obtain ⟨hholder, h⟩ := Option.ite_none_left_eq_some.mp h
  have hfree := free_of_isSome hholder
  split at h
  case isTrue =>
      cases h
      exact ⟨_, _, .refused hfree, rfl⟩
  case isFalse hshutdown =>
      split at h
      case h_1 session hsession =>
          rw [← unfinishedWorker_eq_some hsession] at h
          cases h
          exact ⟨_, _, .refused hfree, rfl⟩
      case h_2 hnone =>
          cases h
          exact ⟨_, _, .checked hfree (Bool.eq_false_iff.mpr hshutdown)
            (unfinishedWorker_eq_none hnone), rfl⟩

theorem section_of_lockForStop {shuttingDown : Bool}
    (h : manager.lockForStop c shuttingDown = some after) :
    ∃ base place, Section manager (.stopWaiting shuttingDown) base place ∧
      after = base.goto c place := by
  unfold lockForStop at h
  obtain ⟨hholder, h⟩ := Option.ite_none_left_eq_some.mp h
  have hfree := free_of_isSome hholder
  dsimp only at h
  split at h
  case h_1 hworker =>
      rw [← hworker] at h
      cases h
      exact ⟨_, _, .empty hfree hworker, rfl⟩
  case h_2 session hworker =>
      cases h
      exact ⟨_, _, .taken hfree hworker, rfl⟩

/-- A write whose result is returned. -/
theorem writeAndReturn_eq (manager : MiningManager Caller) (c : Caller)
    (f : MiningStatus → MiningStatus)
    (next : Except NodeClientError MiningStatus → ManagerCall) :
    ∃ result, manager.writeAndReturn c f next = (manager.write f).goto c (next result) ∧
      ∀ status, result = .ok status → (manager.write f).status = f manager.status := by
  unfold writeAndReturn write
  split
  · exact ⟨_, rfl, fun _ h => by cases h⟩
  · exact ⟨_, rfl, fun _ _ => rfl⟩

/-- The sections of a caller. -/
theorem section_of_run (h : manager.run c = some after) :
    ∃ base place, Section manager (manager.calls c) base place ∧ after = base.goto c place := by
  unfold run at h
  cases hplace : manager.calls c <;> rw [hplace] at h <;> dsimp only at h
  case startWaiting request => exact section_of_lockForStart h
  case startChecked request =>
      cases h
      unfold setStarting
      split
      · exact ⟨_, _, .unavailable, rfl⟩
      · exact ⟨_, _, .starting, rfl⟩
  case spawnFailed session =>
      cases h
      exact ⟨_, _, .startFailed, rfl⟩
  case spawned session starting =>
      cases h
      exact ⟨_, _, .started, rfl⟩
  case stopWaiting shuttingDown => exact section_of_lockForStop h
  case stopEmpty shuttingDown =>
      cases h
      obtain ⟨result, heq, hresult⟩ := writeAndReturn_eq manager c MiningStatus.stopWithout
        (.stopped shuttingDown)
      exact ⟨_, _, .stoppedWithout hresult, heq⟩
  case stopTaken shuttingDown session =>
      cases h
      exact ⟨_, _, .stopping, rfl⟩
  case stopFlagging shuttingDown session =>
      obtain ⟨thread, hthread, rfl⟩ := Option.map_eq_some_iff.mp h
      exact ⟨_, _, .flagged hthread, rfl⟩
  case stopJoining shuttingDown session =>
      obtain ⟨thread, hthread, h⟩ := Option.bind_eq_some_iff.mp h
      split at h
      case h_1 panicked hfinished =>
          cases h
          refine ⟨_, _, .joined ?_, rfl⟩
          rw [Alive, hthread, Option.any_some, WorkerThread.alive, hfinished]
          exact Bool.false_ne_true
      case h_2 => cases h
  case stopJoined shuttingDown session panicked =>
      cases h
      cases panicked with
      | true => exact ⟨_, _, .failed, rfl⟩
      | false =>
          obtain ⟨result, heq, hresult⟩ := writeAndReturn_eq manager c MiningStatus.stop
            (.stopped shuttingDown)
          exact ⟨_, _, .stopped hresult, heq⟩
  all_goals cases h

/-- What an event does. -/
theorem step_cases {checks : MiningStartRequest → Option NodeClientError}
    {event : ManagerEvent Caller} (h : step checks event manager = some after) :
    (∃ c request, event = .call c request ∧ (manager.calls c).atRest = true ∧
      after = manager.goto c (called checks request)) ∨
    (∃ c base place, (event = .run c ∨ ∃ succeeds, event = .spawn c succeeds) ∧
      Section manager (manager.calls c) base place ∧
      (∀ session starting, place = .spawned session starting → event = .spawn c true) ∧
      after = base.goto c place) ∨
    (∃ session action, event = .worker session action ∧ WorkerStep manager session after) := by
  cases event with
  | call c request =>
      obtain ⟨hrest, h⟩ := Option.ite_none_right_eq_some.mp h
      cases h
      exact .inl ⟨c, request, rfl, hrest, rfl⟩
  | run c =>
      obtain ⟨base, place, hsection, rfl⟩ := section_of_run h
      refine .inr (.inl ⟨c, base, place, .inl rfl, hsection, ?_, rfl⟩)
      rintro session starting rfl
      -- from the place before a spawn there is no other way on
      generalize hcall : manager.calls c = call at hsection
      cases hsection
      have hrun : manager.run c = some _ := h
      unfold run at hrun
      rw [hcall] at hrun
      cases hrun
  | spawn c succeeds =>
      simp only [step] at h
      split at h
      case h_1 session starting hplace =>
          cases h
          cases succeeds with
          | true =>
              exact .inr (.inl ⟨c, _, _, .inr ⟨_, rfl⟩, hplace ▸ .spawned, fun _ _ _ => rfl, rfl⟩)
          | false =>
              exact .inr (.inl ⟨c, _, _, .inr ⟨_, rfl⟩, hplace ▸ .notSpawned,
                fun _ _ h => (by cases h), rfl⟩)
      case h_2 => cases h
  | worker session action =>
      obtain ⟨thread, hthread, h⟩ := Option.bind_eq_some_iff.mp h
      exact .inr (.inr ⟨session, action, rfl, workerStep_of_runWorker hthread h⟩)

end

end MiningManager

end CommonFoundry
