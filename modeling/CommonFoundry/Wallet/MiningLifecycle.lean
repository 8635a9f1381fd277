/-
# `CommonFoundry.Wallet.MiningLifecycle` — one worker at a time, and a status of its own

What holds in every run of a `MiningManager`.  Every place at which a caller holds the control
lock is behind its first look at the record, so there the record is without a worker, and all
depends on the place of that one caller (`Coherent`): a thread that has not ended is the
worker of the record or in the hands of the holder, and belongs to the last session.

A stop that returns leaves no thread and the status as it set it (`Resting`), which lasts until
a start sets the status.  That need not be a start that succeeds: if no thread can be spawned
the lifecycle ends as an error.
-/
import CommonFoundry.Wallet.MiningSections

namespace CommonFoundry

open Lib

/-- A thread comes to life. -/
def ManagerEvent.spawns {Caller : Type} : ManagerEvent Caller → Bool
  | .spawn _ succeeds => succeeds
  | _ => false

/-! ## The invariant -/

namespace MiningManager

variable {Caller : Type} {manager after : MiningManager Caller} {c : Caller}
  {place : ManagerCall}

/-- The place of the caller that holds the control lock. -/
def holderCall (manager : MiningManager Caller) : ManagerCall :=
  match manager.controlHolder with
  | some c => manager.calls c
  | none => .idle

/-- What holds of the record and the threads when the holder of the control lock is at a place,
or at a place outside when the lock is free. -/
structure Coherent (manager : MiningManager Caller) (place : ManagerCall) : Prop where
  /-- a holder of the lock has left no worker in the record -/
  taken : place.holdsControl = true → manager.worker = none
  worker : ∀ n, manager.worker = some n → n + 1 = manager.sessions
  session : ∀ n, place.session = some n → n + 1 = manager.sessions
  /-- a thread that has not ended is in the record or in the hands of the holder -/
  alive : ∀ n, manager.Alive n → manager.worker = some n ∨ place.owns = some n
  shutdown : manager.shuttingDown = true → place.starts = false

/-- What holds between any two steps. -/
structure Consistent (manager : MiningManager Caller) : Prop where
  exclusive : Exclusive ManagerCall.holdsControl manager.controlHolder manager.calls
  coherent : manager.Coherent manager.holderCall
  shutsDown : ∀ c, (manager.calls c).shutsDown = true → manager.shuttingDown = true

namespace Coherent

/-- All places outside are the same to the record. -/
theorem outside {place' : ManagerCall} (h : manager.Coherent place)
    (hplace : place.holdsControl = false) (hplace' : place'.holdsControl = false) :
    manager.Coherent place' where
  taken hholds := by
    rw [hplace'] at hholds
    cases hholds
  worker := h.worker
  session n hsession := by
    rw [ManagerCall.session_of_outside hplace'] at hsession
    cases hsession
  alive n halive := by
    rw [ManagerCall.owns_of_outside hplace', ← ManagerCall.owns_of_outside hplace]
    exact h.alive n halive
  shutdown _ := ManagerCall.starts_of_outside hplace'

/-- No thread is left when the record has no worker and the holder none in hand. -/
theorem none_alive (h : manager.Coherent place) (hworker : manager.worker = none)
    (howns : place.owns = none) (n : Nat) : ¬manager.Alive n := by
  intro halive
  rcases h.alive n halive with hrecord | hhand
  · rw [hworker] at hrecord
    cases hrecord
  · rw [howns] at hhand
    cases hhand

/-- A thread that has not ended belongs to the last session. -/
theorem last_of_alive (h : manager.Coherent place) {n : Nat} (halive : manager.Alive n) :
    n + 1 = manager.sessions :=
  (h.alive n halive).elim (h.worker n) fun hhand =>
    h.session n (ManagerCall.session_of_owns hhand)

/-- Writes of the status do not matter here. -/
theorem write (h : manager.Coherent place) (f : MiningStatus → MiningStatus) :
    (manager.write f).Coherent place := by
  rw [write_eq]
  exact ⟨h.taken, h.worker, h.session, h.alive, h.shutdown⟩

/-- A section keeps it. -/
theorem move {place' : ManagerCall} {base : MiningManager Caller}
    (h : manager.Coherent place) (hsection : Section manager place base place') :
    base.Coherent place' := by
  cases hsection with
  | refused hfree => exact h.outside rfl rfl
  | checked hfree hshutdown hfinished =>
      refine ⟨fun _ => rfl, nofun, nofun, fun n halive => ?_, fun htrue => ?_⟩
      · rcases h.alive n halive with hrecord | hhand
        · exact absurd halive (hfinished n hrecord)
        · cases hhand
      · rw [hshutdown] at htrue
        cases htrue
  | unavailable =>
      refine ⟨nofun, h.worker, nofun, h.alive, fun _ => rfl⟩
  | starting =>
      refine ⟨fun _ => h.taken rfl, fun n hworker => ?_, fun n hsession => ?_, fun n halive => ?_,
        h.shutdown⟩
      · rw [h.taken rfl] at hworker
        cases hworker
      · cases hsession
        rfl
      · exact absurd halive (h.none_alive (h.taken rfl) rfl n)
  | @spawned session starting thread =>
      refine ⟨fun _ => h.taken rfl, h.worker, h.session, fun n halive => ?_, h.shutdown⟩
      by_cases hn : n = session
      · rw [hn]
        exact .inr rfl
      · exact absurd ((alive_setThread_of_ne hn).mp halive)
          (h.none_alive (h.taken rfl) rfl n)
  | notSpawned => exact ⟨fun _ => h.taken rfl, h.worker, h.session, h.alive, h.shutdown⟩
  | startFailed =>
      refine Coherent.write ?_ _
      exact ⟨nofun, h.worker, nofun, h.alive, fun _ => rfl⟩
  | @started session starting =>
      refine ⟨nofun, fun n hworker => h.session n hworker, nofun, fun n halive => ?_, fun _ => rfl⟩
      rcases h.alive n halive with hrecord | hhand
      · rw [h.taken rfl] at hrecord
        cases hrecord
      · exact .inl hhand
  | empty hfree hworker =>
      exact ⟨fun _ => hworker, h.worker, nofun, h.alive, fun _ => rfl⟩
  | @taken shuttingDown session hfree hworker =>
      refine ⟨fun _ => rfl, nofun, fun n hsession => ?_, fun n halive => ?_, fun _ => rfl⟩
      · cases hsession
        exact h.worker _ hworker
      · rcases h.alive n halive with hrecord | hhand
        · rw [hworker] at hrecord
          exact .inr hrecord
        · cases hhand
  | stoppedWithout _ =>
      refine Coherent.write ?_ _
      exact ⟨nofun, h.worker, nofun, h.alive, fun _ => rfl⟩
  | stopping =>
      refine Coherent.write ?_ _
      exact ⟨fun _ => h.taken rfl, h.worker, h.session, h.alive, fun _ => rfl⟩
  | @flagged shuttingDown session thread hthread =>
      refine ⟨fun _ => h.taken rfl, h.worker, h.session, fun n halive => ?_, fun _ => rfl⟩
      by_cases hn : n = session
      · rw [hn]
        exact .inr rfl
      · exact h.alive n ((alive_setThread_of_ne hn).mp halive)
  | @joined shuttingDown panicked session hfinished =>
      refine ⟨fun _ => h.taken rfl, h.worker, h.session, fun n halive => ?_, fun _ => rfl⟩
      rcases h.alive n halive with hrecord | hhand
      · exact .inl hrecord
      · cases hhand
        exact absurd halive hfinished
  | failed =>
      refine Coherent.write ?_ _
      exact ⟨nofun, h.worker, nofun, h.alive, fun _ => rfl⟩
  | stopped _ =>
      refine Coherent.write ?_ _
      exact ⟨nofun, h.worker, nofun, h.alive, fun _ => rfl⟩

end Coherent

/-! ## Writes, returns and rest -/

/-- The session for whose thread an event writes the status: a write of the thread itself, or
of a start or a stop about it. -/
def writesFor (manager : MiningManager Caller) : ManagerEvent Caller → Option Nat
  | .worker session (.write _) => some session
  | .worker session (.fail _) => some session
  | .worker session .stop => some session
  | .run c =>
      match manager.calls c with
      | .spawnFailed session => some session
      | .stopTaken _ session => some session
      | .stopJoined _ session _ => some session
      | _ => none
  | _ => none

/-- In this step a stop returns a status. -/
def StopReturns (manager after : MiningManager Caller) : Prop :=
  ∃ c shuttingDown status, (manager.calls c).atRest = false ∧
    after.calls c = .stopped shuttingDown (.ok status)

/-- In this step a start returns a status. -/
def StartReturns (manager after : MiningManager Caller) : Prop :=
  ∃ c status, (manager.calls c).atRest = false ∧ after.calls c = .started (.ok status)

/-- In a run, a start returns a status at some step. -/
def StartSucceeds [DecidableEq Caller] (checks : MiningStartRequest → Option NodeClientError) :
    List (ManagerEvent Caller) → MiningManager Caller → Prop
  | [], _ => False
  | event :: rest, manager =>
      ∃ after, step checks event manager = some after ∧
        (manager.StartReturns after ∨ StartSucceeds checks rest after)

/-- There is no worker, in the record or in hand. -/
structure Workerless (manager : MiningManager Caller) : Prop where
  worker : manager.worker = none
  owns : manager.holderCall.owns = none
  lifecycle : manager.status.lifecycle = .stopped ∨ manager.status.lifecycle = .starting ∨
    manager.status.lifecycle = .error

/-- Nor is there a call about one, and the status says so. -/
structure Resting (manager : MiningManager Caller) : Prop where
  worker : manager.worker = none
  session : manager.holderCall.session = none
  lifecycle : manager.status.lifecycle = .stopped

/-! ## Every step keeps it -/

/-- A section leaves the callers and the lock to the move that follows it. -/
theorem Section.frame {place' : ManagerCall} {base : MiningManager Caller}
    (h : Section manager place base place') :
    base.calls = manager.calls ∧ base.controlHolder = manager.controlHolder ∧
      (manager.shuttingDown = true → base.shuttingDown = true) ∧
      (place'.shutsDown = true → place.shutsDown = true ∨ base.shuttingDown = true) := by
  cases h <;> simp_all [setThread, ManagerCall.shutsDown]

/-- It is under the control lock, or takes it. -/
theorem Section.lock {place' : ManagerCall} {base : MiningManager Caller}
    (h : Section manager place base place') :
    place.holdsControl = true ∨ place.holdsControl = false ∧ manager.controlHolder = none := by
  cases h with
  | refused hfree => exact .inr ⟨rfl, hfree⟩
  | checked hfree _ _ => exact .inr ⟨rfl, hfree⟩
  | empty hfree _ => exact .inr ⟨rfl, hfree⟩
  | taken hfree _ => exact .inr ⟨rfl, hfree⟩
  | _ => exact .inl rfl

theorem holderCall_eq (h : manager.controlHolder = some c) :
    manager.holderCall = manager.calls c := by
  rw [holderCall, h]

theorem holderCall_of_free (h : manager.controlHolder = none) : manager.holderCall = .idle := by
  rw [holderCall, h]

namespace Consistent

theorem holderCall_of_holds (h : manager.Consistent)
    (hholds : (manager.calls c).holdsControl = true) : manager.holderCall = manager.calls c :=
  holderCall_eq ((h.exclusive c).mp hholds)

theorem holderCall_of_spawned {session : Nat} {starting : MiningStatus} (h : manager.Consistent)
    (hcall : manager.calls c = .spawned session starting) :
    manager.holderCall = .spawned session starting := by
  have hholds : (manager.calls c).holdsControl = true := by
    rw [hcall]
    rfl
  rw [h.holderCall_of_holds hholds, hcall]

/-- Before its section, a caller holds the lock or nobody does. -/
theorem before {base : MiningManager Caller} (h : manager.Consistent)
    (hsection : Section manager (manager.calls c) base place) :
    manager.Coherent (manager.calls c) ∧
      (manager.controlHolder = none ∨ manager.controlHolder = some c) := by
  have hcoherent := h.coherent
  rcases hsection.lock with hholds | ⟨hwaits, hfree⟩
  · rw [h.holderCall_of_holds hholds] at hcoherent
    exact ⟨hcoherent, .inr ((h.exclusive c).mp hholds)⟩
  · rw [holderCall_of_free hfree] at hcoherent
    exact ⟨hcoherent.outside rfl hwaits, .inl hfree⟩

/-- What is true of the holder's place and of all places outside is true of the place before
a section. -/
theorem place_before {base : MiningManager Caller} {α : Type} {f : ManagerCall → Option α}
    (h : manager.Consistent) (hsection : Section manager (manager.calls c) base place)
    (hf : ∀ {call : ManagerCall}, call.holdsControl = false → f call = none)
    (hholder : f manager.holderCall = none) : f (manager.calls c) = none := by
  rcases hsection.lock with hholds | ⟨hwaits, _⟩
  · rwa [h.holderCall_of_holds hholds] at hholder
  · exact hf hwaits

theorem new (currentHeight : UInt64) : (new currentHeight : MiningManager Caller).Consistent where
  exclusive _ := ⟨nofun, nofun⟩
  coherent := ⟨nofun, nofun, nofun, nofun, nofun⟩
  shutsDown _ h := by cases h

/-- A worker's action. -/
theorem worker {session : Nat} (h : manager.Consistent)
    (hstep : WorkerStep manager session after) : after.Consistent := by
  have hholder : after.holderCall = manager.holderCall := by
    rw [holderCall, holderCall, hstep.controlHolder, hstep.calls]
  refine ⟨?_, ?_, ?_⟩
  · rw [hstep.controlHolder, hstep.calls]
    exact h.exclusive
  · rw [hholder]
    refine ⟨?_, ?_, ?_, ?_, ?_⟩
    · rw [hstep.worker]
      exact h.coherent.taken
    · rw [hstep.worker, hstep.sessions]
      exact h.coherent.worker
    · rw [hstep.sessions]
      exact h.coherent.session
    · intro n halive
      rw [hstep.worker]
      exact h.coherent.alive n (hstep.survivors n halive)
    · rw [hstep.shuttingDown]
      exact h.coherent.shutdown
  · rw [hstep.calls, hstep.shuttingDown]
    exact h.shutsDown

end Consistent

theorem Workerless.none_alive (h : manager.Workerless) (hinv : manager.Consistent) (n : Nat) :
    ¬manager.Alive n :=
  hinv.coherent.none_alive h.worker h.owns n

theorem Resting.workerless (h : manager.Resting) : manager.Workerless where
  worker := h.worker
  owns := by
    cases howns : manager.holderCall.owns with
    | none => rfl
    | some n =>
        have hsession := ManagerCall.session_of_owns howns
        rw [h.session] at hsession
        cases hsession
  lifecycle := .inl h.lifecycle

section

variable [DecidableEq Caller]

theorem goto_calls_self (manager : MiningManager Caller) (c : Caller) (place : ManagerCall) :
    (manager.goto c place).calls c = place := Function.update_self ..

theorem goto_calls_ne (manager : MiningManager Caller) {c d : Caller} (h : d ≠ c)
    (place : ManagerCall) : (manager.goto c place).calls d = manager.calls d :=
  Function.update_of_ne h ..

/-- The holder after a move by the holder, or while the lock was free. -/
theorem holderCall_goto (h : manager.controlHolder = none ∨ manager.controlHolder = some c) :
    (manager.goto c place).holderCall = if place.holdsControl then place else .idle := by
  by_cases hholds : place.holdsControl = true
  · rw [if_pos hholds, holderCall_eq (c := c), goto_calls_self]
    show holderAfter _ _ _ _ = _
    rw [holderAfter, if_pos hholds]
  · rw [if_neg hholds, holderCall_of_free]
    show holderAfter _ _ _ _ = _
    rw [holderAfter, if_neg hholds]
    rcases h with hfree | hself
    · rw [hfree, if_neg (Option.some_ne_none c).symm]
    · rw [if_pos hself]

/-- A move from outside to outside leaves the holder alone. -/
theorem holderCall_goto_outside (h : manager.Consistent)
    (hbefore : (manager.calls c).holdsControl = false) (hafter : place.holdsControl = false) :
    (manager.goto c place).holderCall = manager.holderCall := by
  have hnot : manager.controlHolder ≠ some c := by
    intro hself
    rw [(h.exclusive c).mpr hself] at hbefore
    cases hbefore
  have hholder : (manager.goto c place).controlHolder = manager.controlHolder := by
    show holderAfter _ _ _ _ = _
    rw [holderAfter, hafter, if_neg Bool.false_ne_true, if_neg hnot]
  cases hcurrent : manager.controlHolder with
  | none => rw [holderCall_of_free (hholder.trans hcurrent), holderCall_of_free hcurrent]
  | some d =>
      have hne : d ≠ c := fun heq => hnot (hcurrent.trans (congrArg some heq))
      rw [holderCall_eq (hholder.trans hcurrent), holderCall_eq hcurrent, goto_calls_ne _ hne]

namespace Consistent

/-- A new call. -/
theorem call (h : manager.Consistent) (hrest : (manager.calls c).atRest = true)
    (hplace : place.holdsControl = false) (hquiet : place.shutsDown = false) :
    (manager.goto c place).Consistent := by
  refine ⟨h.exclusive.move fun hholds => ?_, ?_, fun d hd => ?_⟩
  · rw [hplace] at hholds
    cases hholds
  · have hcoherent := h.coherent
    rw [holderCall_goto_outside h (ManagerCall.outside_of_atRest hrest) hplace]
    exact ⟨hcoherent.taken, hcoherent.worker, hcoherent.session, hcoherent.alive,
      hcoherent.shutdown⟩
  · by_cases hdc : d = c
    · rw [hdc, goto_calls_self, hquiet] at hd
      cases hd
    · rw [goto_calls_ne _ hdc] at hd
      exact h.shutsDown d hd

/-- A section, and the move that follows it. -/
theorem move {base : MiningManager Caller} (h : manager.Consistent)
    (hsection : Section manager (manager.calls c) base place) :
    (base.goto c place).Consistent := by
  obtain ⟨hbefore, hlock⟩ := h.before hsection
  obtain ⟨hcalls, hholder, hkept, hshuts⟩ := hsection.frame
  have hcoherent := hbefore.move hsection
  have hexclusive := h.exclusive
  rw [← hcalls, ← hholder] at hexclusive
  rw [← hholder] at hlock
  refine ⟨hexclusive.move fun _ => hlock, ?_, fun d hd => ?_⟩
  · rw [holderCall_goto hlock]
    by_cases hholds : place.holdsControl = true
    · rw [if_pos hholds]
      exact ⟨hcoherent.taken, hcoherent.worker, hcoherent.session, hcoherent.alive,
        hcoherent.shutdown⟩
    · have hidle := hcoherent.outside (Bool.eq_false_iff.mpr hholds)
        (show ManagerCall.idle.holdsControl = false from rfl)
      rw [if_neg hholds]
      exact ⟨hidle.taken, hidle.worker, hidle.session, hidle.alive, hidle.shutdown⟩
  · by_cases hdc : d = c
    · rw [hdc, goto_calls_self] at hd
      exact (hshuts hd).elim (fun hold => hkept (h.shutsDown c hold)) id
    · rw [goto_calls_ne _ hdc, hcalls] at hd
      exact hkept (h.shutsDown d hd)

theorem called_outside (checks : MiningStartRequest → Option NodeClientError)
    (request : ManagerRequest) :
    (called checks request).holdsControl = false ∧ (called checks request).shutsDown = false := by
  cases request with
  | start request =>
      unfold called
      dsimp only
      split <;> exact ⟨rfl, rfl⟩
  | stop => exact ⟨rfl, rfl⟩
  | stopForShutdown => exact ⟨rfl, rfl⟩

variable {checks : MiningStartRequest → Option NodeClientError} {event : ManagerEvent Caller}

/-- A new call leaves the holder alone. -/
theorem holderCall_called {request : ManagerRequest} (h : manager.Consistent)
    (hrest : (manager.calls c).atRest = true) :
    (manager.goto c (called checks request)).holderCall = manager.holderCall :=
  holderCall_goto_outside h (ManagerCall.outside_of_atRest hrest) (called_outside checks request).1

theorem step (h : manager.Consistent) (hstep : step checks event manager = some after) :
    after.Consistent := by
  rcases step_cases hstep with ⟨c, request, _, hrest, rfl⟩ | ⟨c, base, place, _, hsection, _, rfl⟩ |
    ⟨session, action, _, hworker⟩
  · obtain ⟨houtside, hquiet⟩ := called_outside checks request
    exact h.call hrest houtside hquiet
  · exact h.move hsection
  · exact h.worker hworker

theorem run {events : List (ManagerEvent Caller)} (h : manager.Consistent)
    (hrun : runEvents (MiningManager.step checks) events manager = some after) :
    after.Consistent :=
  runEvents_inv Consistent (fun hinv hstep => hinv.step hstep) h hrun

end Consistent

/-- A write and a move that leave no worker. -/
theorem Workerless.write_goto {f : MiningStatus → MiningStatus} (h : manager.Workerless)
    (howns : ((manager.write f).goto c place).holderCall.owns = none)
    (hlifecycle : (f manager.status).lifecycle = .stopped ∨
      (f manager.status).lifecycle = .starting ∨ (f manager.status).lifecycle = .error) :
    ((manager.write f).goto c place).Workerless where
  worker := (write_worker manager f).trans h.worker
  owns := howns
  lifecycle := by
    show (manager.write f).status.lifecycle = _ ∨ (manager.write f).status.lifecycle = _ ∨
      (manager.write f).status.lifecycle = _
    rcases write_status manager f with hwritten | hkept
    · rw [hwritten]
      exact hlifecycle
    · rw [hkept]
      exact h.lifecycle

namespace Consistent

theorem place_after {base : MiningManager Caller} {α : Type} {f : ManagerCall → Option α}
    (h : manager.Consistent) (hsection : Section manager (manager.calls c) base place)
    (hf : ∀ {call : ManagerCall}, call.holdsControl = false → f call = none)
    (hplace : f place = none) : f (base.goto c place).holderCall = none := by
  obtain ⟨_, hlock⟩ := h.before hsection
  obtain ⟨_, hholder, _, _⟩ := hsection.frame
  rw [← hholder] at hlock
  rw [holderCall_goto hlock]
  split
  · exact hplace
  · exact hf rfl

variable {checks : MiningStartRequest → Option NodeClientError} {event : ManagerEvent Caller}

/-- A call under way comes to its end by a section of its own. -/
theorem section_of_return (hstep : MiningManager.step checks event manager = some after)
    (hbusy : (manager.calls c).atRest = false) (hcall : after.calls c = place)
    (hrest : place.atRest = true) :
    ∃ base, Section manager (manager.calls c) base place ∧ after = base.goto c place := by
  have hchange : after.calls c ≠ manager.calls c := by
    intro hsame
    rw [← hsame, hcall, hrest] at hbusy
    cases hbusy
  rcases step_cases hstep with ⟨d, request, _, hidle, rfl⟩ | ⟨d, base, next, _, hsection, _, rfl⟩ |
    ⟨session, action, _, hworker⟩
  · have hne : c ≠ d := by
      rintro rfl
      rw [hidle] at hbusy
      cases hbusy
    exact absurd (goto_calls_ne _ hne _) hchange
  · by_cases heq : c = d
    · subst heq
      rw [goto_calls_self] at hcall
      subst hcall
      exact ⟨base, hsection, rfl⟩
    · rw [goto_calls_ne _ heq, hsection.frame.1] at hchange
      exact absurd rfl hchange
  · rw [hworker.calls] at hchange
    exact absurd rfl hchange

/-- Every write for a thread is one for the last session. -/
theorem last_of_writesFor (h : manager.Consistent)
    (hstep : MiningManager.step checks event manager = some after) {n : Nat}
    (hwrites : manager.writesFor event = some n) : n + 1 = manager.sessions := by
  rcases step_cases hstep with ⟨c, request, rfl, _, _⟩ | ⟨c, base, place, hevent, hsection, _, _⟩ |
    ⟨session, action, rfl, hworker⟩
  · cases hwrites
  · obtain ⟨hbefore, _⟩ := h.before hsection
    rcases hevent with rfl | ⟨succeeds, rfl⟩
    · refine hbefore.session n ?_
      dsimp only [writesFor] at hwrites
      cases hcall : manager.calls c <;> rw [hcall] at hwrites <;>
        first | exact hwrites | cases hwrites
    · cases hwrites
  · have hsession : session = n := by
      cases action <;> first | exact Option.some.inj hwrites | cases hwrites
    rw [← hsession]
    exact h.coherent.last_of_alive hworker.alive

theorem sessions_le (hstep : MiningManager.step checks event manager = some after) :
    manager.sessions ≤ after.sessions := by
  rcases step_cases hstep with ⟨c, request, _, _, rfl⟩ | ⟨c, base, place, _, hsection, _, rfl⟩ |
    ⟨session, action, _, hworker⟩
  · exact le_rfl
  · show manager.sessions ≤ base.sessions
    generalize manager.calls c = call at hsection
    cases hsection <;> simp [setThread]
  · rw [hworker.sessions]

/-- Nothing is left of a worker when a stop returns, and the status is what it set. -/
theorem resting_of_stopReturns (h : manager.Consistent)
    (hstep : MiningManager.step checks event manager = some after)
    (hreturns : manager.StopReturns after) : after.Resting := by
  obtain ⟨c, shuttingDown, status, hbusy, hcall⟩ := hreturns
  obtain ⟨base, hsection, rfl⟩ := section_of_return hstep hbusy hcall rfl
  obtain ⟨hbefore, _⟩ := h.before hsection
  have hsession := h.place_after hsection ManagerCall.session_of_outside rfl
  generalize manager.calls c = call at hsection hbefore
  cases hsection with
  | stoppedWithout hresult =>
      refine ⟨?_, hsession, ?_⟩
      · exact (write_worker manager _).trans (hbefore.taken rfl)
      · exact congrArg MiningStatus.lifecycle (hresult status rfl)
  | stopped hresult =>
      refine ⟨?_, hsession, ?_⟩
      · exact (write_worker manager _).trans (hbefore.taken rfl)
      · exact congrArg MiningStatus.lifecycle (hresult status rfl)

end Consistent

variable {checks : MiningStartRequest → Option NodeClientError} {event : ManagerEvent Caller}
  {events : List (ManagerEvent Caller)}

/-- Rest lasts until a start sets the status. -/
theorem Resting.step (h : manager.Resting) (hinv : manager.Consistent)
    (hstep : MiningManager.step checks event manager = some after) :
    after.Resting ∨ manager.sessions < after.sessions := by
  rcases step_cases hstep with ⟨c, request, _, hrest, rfl⟩ | ⟨c, base, place, _, hsection, _, rfl⟩ |
    ⟨session, action, _, hworker⟩
  · refine .inl ⟨h.worker, ?_, h.lifecycle⟩
    rw [hinv.holderCall_called hrest]
    exact h.session
  · have hbefore := hinv.place_before hsection ManagerCall.session_of_outside h.session
    have hafter := hinv.place_after hsection ManagerCall.session_of_outside
    generalize manager.calls c = call at hsection hbefore
    cases hsection with
    | refused _ => exact .inl ⟨h.worker, hafter rfl, h.lifecycle⟩
    | checked _ _ _ => exact .inl ⟨rfl, hafter rfl, h.lifecycle⟩
    | unavailable => exact .inl ⟨h.worker, hafter rfl, h.lifecycle⟩
    | starting => exact .inr (Nat.lt_succ_self _)
    | empty _ _ => exact .inl ⟨h.worker, hafter rfl, h.lifecycle⟩
    | taken _ hworker =>
        rw [h.worker] at hworker
        cases hworker
    | stoppedWithout _ =>
        refine .inl ⟨(write_worker manager _).trans h.worker, hafter rfl, ?_⟩
        show (manager.write _).status.lifecycle = _
        rcases write_status manager MiningStatus.stopWithout with hwritten | hkept
        · rw [hwritten]
          rfl
        · rw [hkept]
          exact h.lifecycle
    | _ => cases hbefore
  · exact absurd hworker.alive (h.workerless.none_alive hinv session)

theorem Resting.run (h : manager.Resting) (hinv : manager.Consistent)
    (hrun : runEvents (MiningManager.step checks) events manager = some after) :
    after.Resting ∨ manager.sessions < after.sessions := by
  have hkept : after.Consistent ∧ manager.sessions ≤ after.sessions ∧
      (after.Resting ∨ manager.sessions < after.sessions) := by
    refine runEvents_inv (fun state => state.Consistent ∧ manager.sessions ≤ state.sessions ∧
      (state.Resting ∨ manager.sessions < state.sessions)) ?_ ⟨hinv, le_rfl, .inl h⟩ hrun
    rintro event state next ⟨hstate, hle, hrest⟩ hstep
    have hmono := Consistent.sessions_le hstep
    refine ⟨hstate.step hstep, hle.trans hmono, ?_⟩
    rcases hrest with hrest | hlt
    · exact (hrest.step hstate hstep).imp_right hle.trans_lt
    · exact .inr (hlt.trans_le hmono)
  exact hkept.2.2

/-- Without a spawn there is no worker. -/
theorem Workerless.step (h : manager.Workerless) (hinv : manager.Consistent)
    (hstep : MiningManager.step checks event manager = some after)
    (hspawns : event.spawns = false) : after.Workerless := by
  rcases step_cases hstep with ⟨c, request, _, hrest, rfl⟩ |
    ⟨c, base, place, _, hsection, hspawned, rfl⟩ | ⟨session, action, _, hworker⟩
  · refine ⟨h.worker, ?_, h.lifecycle⟩
    rw [hinv.holderCall_called hrest]
    exact h.owns
  · have hbefore := hinv.place_before hsection ManagerCall.owns_of_outside h.owns
    have hafter := hinv.place_after hsection ManagerCall.owns_of_outside
    generalize manager.calls c = call at hsection hbefore
    cases hsection with
    | refused _ => exact ⟨h.worker, hafter rfl, h.lifecycle⟩
    | checked _ _ _ => exact ⟨rfl, hafter rfl, h.lifecycle⟩
    | unavailable => exact ⟨h.worker, hafter rfl, h.lifecycle⟩
    | starting => exact ⟨h.worker, hafter rfl, .inr (.inl rfl)⟩
    | spawned =>
        rw [hspawned _ _ rfl] at hspawns
        cases hspawns
    | notSpawned => exact ⟨h.worker, hafter rfl, h.lifecycle⟩
    | startFailed => exact h.write_goto (hafter rfl) (.inr (.inr rfl))
    | empty _ _ => exact ⟨h.worker, hafter rfl, h.lifecycle⟩
    | taken _ hworker =>
        rw [h.worker] at hworker
        cases hworker
    | stoppedWithout _ => exact h.write_goto (hafter rfl) (.inl rfl)
    | joined _ => cases hbefore
    | failed => exact h.write_goto (hafter rfl) (.inr (.inr rfl))
    | stopped _ => exact h.write_goto (hafter rfl) (.inl rfl)
    | _ => cases hbefore
  · exact absurd hworker.alive (h.none_alive hinv session)

theorem Workerless.run (h : manager.Workerless) (hinv : manager.Consistent)
    (hrun : runEvents (MiningManager.step checks) events manager = some after)
    (hspawns : ∀ event ∈ events, event.spawns = false) : after.Workerless := by
  induction events generalizing manager with
  | nil =>
      cases hrun
      exact h
  | cons event rest ih =>
      obtain ⟨next, hstep, hrest⟩ := runEvents_cons.mp hrun
      obtain ⟨hfirst, hothers⟩ := List.forall_mem_cons.mp hspawns
      exact ih (h.step hinv hstep hfirst) (hinv.step hstep) hrest hothers

/-- Only a start that returns a status puts a worker into the record. -/
theorem worker_of_step (hworker : manager.worker = none)
    (hstep : MiningManager.step checks event manager = some after)
    (hstart : ¬manager.StartReturns after) : after.worker = none := by
  rcases step_cases hstep with ⟨c, request, _, _, rfl⟩ | ⟨c, base, place, _, hsection, _, rfl⟩ |
    ⟨session, action, _, haction⟩
  · exact hworker
  · show base.worker = none
    generalize hcall : manager.calls c = call at hsection
    cases hsection with
    | started =>
        refine absurd ⟨c, _, ?_, goto_calls_self _ _ _⟩ hstart
        rw [hcall]
        rfl
    | _ => first | rfl | exact hworker | exact (write_worker manager _).trans hworker
  · exact haction.worker.trans hworker

theorem worker_of_run (hworker : manager.worker = none)
    (hrun : runEvents (MiningManager.step checks) events manager = some after)
    (hstarts : ¬StartSucceeds checks events manager) : after.worker = none := by
  induction events generalizing manager with
  | nil =>
      cases hrun
      exact hworker
  | cons event rest ih =>
      obtain ⟨next, hstep, hrest⟩ := runEvents_cons.mp hrun
      refine ih (worker_of_step hworker hstep fun hreturns => hstarts ⟨next, hstep, .inl hreturns⟩)
        hrest fun hlater => hstarts ⟨next, hstep, .inr hlater⟩

/-- A start that returns a status has spawned a thread. -/
theorem spawned_of_startReturns (hstep : MiningManager.step checks event manager = some after)
    (hreturns : manager.StartReturns after) :
    ∃ c session starting, manager.calls c = .spawned session starting := by
  obtain ⟨c, status, hbusy, hcall⟩ := hreturns
  obtain ⟨base, hsection, rfl⟩ := Consistent.section_of_return hstep hbusy hcall rfl
  generalize hplace : manager.calls c = call at hsection
  cases hsection
  exact ⟨c, _, _, hplace⟩

theorem Workerless.not_startSucceeds (h : manager.Workerless) (hinv : manager.Consistent)
    (hspawns : ∀ event ∈ events, event.spawns = false) :
    ¬StartSucceeds checks events manager := by
  induction events generalizing manager with
  | nil => exact id
  | cons event rest ih =>
      obtain ⟨hfirst, hothers⟩ := List.forall_mem_cons.mp hspawns
      rintro ⟨next, hstep, hreturns | hlater⟩
      · obtain ⟨c, session, starting, hcall⟩ := spawned_of_startReturns hstep hreturns
        have howns := h.owns
        rw [hinv.holderCall_of_spawned hcall] at howns
        cases howns
      · exact ih (h.step hinv hstep hfirst) (hinv.step hstep) hothers hlater

/-! ## After a shutdown -/

theorem shuttingDown_of_step (h : manager.shuttingDown = true)
    (hstep : MiningManager.step checks event manager = some after) :
    after.shuttingDown = true := by
  rcases step_cases hstep with ⟨c, request, _, _, rfl⟩ | ⟨c, base, place, _, hsection, _, rfl⟩ |
    ⟨session, action, _, hworker⟩
  · exact h
  · exact hsection.frame.2.2.1 h
  · exact hworker.shuttingDown.trans h

theorem not_startReturns (h : manager.shuttingDown = true) (hinv : manager.Consistent)
    (hstep : MiningManager.step checks event manager = some after) :
    ¬manager.StartReturns after := by
  intro hreturns
  obtain ⟨c, session, starting, hcall⟩ := spawned_of_startReturns hstep hreturns
  have hshutdown := hinv.coherent.shutdown h
  rw [hinv.holderCall_of_spawned hcall] at hshutdown
  cases hshutdown

theorem not_startSucceeds (h : manager.shuttingDown = true) (hinv : manager.Consistent) :
    ¬StartSucceeds checks events manager := by
  induction events generalizing manager with
  | nil => exact id
  | cons event rest ih =>
      rintro ⟨next, hstep, hreturns | hlater⟩
      · exact not_startReturns h hinv hstep hreturns
      · exact ih (shuttingDown_of_step h hstep) (hinv.step hstep) hlater

end

end MiningManager

/-! ## Every run -/

open MiningManager

theorem mining_manager_lifecycle {Caller : Type} [DecidableEq Caller]
    (checks : MiningStartRequest → Option NodeClientError) (currentHeight : UInt64)
    (events : List (ManagerEvent Caller)) (manager : MiningManager Caller)
    (hrun : runEvents (step checks) events (.new currentHeight) = some manager) :
    (∀ n n', manager.Alive n → manager.Alive n' → n = n') ∧
    (∀ event after n, step checks event manager = some after →
      manager.writesFor event = some n → n + 1 = manager.sessions) ∧
    (∀ event stopped later after, step checks event manager = some stopped →
      manager.StopReturns stopped → runEvents (step checks) later stopped = some after →
      (¬StartSucceeds checks later stopped → after.worker = none) ∧
      ((∀ event ∈ later, event.spawns = false) →
        (∀ n, ¬after.Alive n) ∧ (after.status.lifecycle = .stopped ∨
          after.status.lifecycle = .starting ∨ after.status.lifecycle = .error)) ∧
      (after.sessions = stopped.sessions →
        after.worker = none ∧ (∀ n, ¬after.Alive n) ∧ after.status.lifecycle = .stopped)) ∧
    (∀ c result later, manager.calls c = .stopped true result →
      ¬StartSucceeds checks later manager) := by
  have hinv := (Consistent.new currentHeight).run hrun
  refine ⟨fun n n' hn hn' => ?_, fun event after n hstep hwrites => ?_,
    fun event stopped later after hstep hreturns hlater => ?_, fun c result later hcall => ?_⟩
  · have hlast := hinv.coherent.last_of_alive hn
    have hlast' := hinv.coherent.last_of_alive hn'
    omega
  · exact hinv.last_of_writesFor hstep hwrites
  · have hrest := hinv.resting_of_stopReturns hstep hreturns
    have hstopped := hinv.step hstep
    have hafter := hstopped.run hlater
    refine ⟨fun hstarts => ?_, fun hspawns => ?_, fun hsessions => ?_⟩
    · exact worker_of_run hrest.worker hlater hstarts
    · have hworkerless := hrest.workerless.run hstopped hlater hspawns
      exact ⟨hworkerless.none_alive hafter, hworkerless.lifecycle⟩
    · have hstill := (hrest.run hstopped hlater).resolve_right (by omega)
      exact ⟨hstill.worker, hstill.workerless.none_alive hafter, hstill.lifecycle⟩
  · refine not_startSucceeds (hinv.shutsDown c ?_) hinv
    rw [hcall]
    rfl

/-- A solo start. -/
def sampleStart : MiningStartRequest where
  mode := .solo
  payout := "79be667ef9dcbbac55a06295ce870b07029bfcdb2dce28d959f2815b16f81798"
  poolUrl := none
  workerName := none

/-- A worker is started and comes to its end, and a stop joins it. -/
def sampleLife : List (ManagerEvent Unit) :=
  [.call () (.start sampleStart), .run (), .run (), .spawn () true, .run (),
    .worker 0 (.write (.running 7)), .call () .stop, .run (), .run (), .run (),
    .worker 0 .stop, .worker 0 .finish, .run ()]

theorem mining_manager_lifecycle_sample :
    ∃ manager stopped : MiningManager Unit,
      runEvents (step fun _ => none) sampleLife (.new 7) = some manager ∧
      step (fun _ => none) (.run ()) manager = some stopped ∧ manager.StopReturns stopped ∧
      stopped.sessions = 1 ∧ (∀ n, ¬stopped.Alive n) ∧ stopped.status.lifecycle = .stopped := by
  obtain ⟨manager, hrun⟩ : ∃ manager,
      runEvents (step fun _ => none) sampleLife (.new 7) = some manager := ⟨_, rfl⟩
  obtain ⟨stopped, hstep⟩ : ∃ stopped, step (fun _ => none) (.run ()) manager = some stopped := by
    cases hrun
    exact ⟨_, rfl⟩
  have hreturns : manager.StopReturns stopped := by
    cases hrun
    cases hstep
    exact ⟨(), _, _, rfl, rfl⟩
  have hsessions : stopped.sessions = 1 := by
    cases hrun
    cases hstep
    rfl
  obtain ⟨_, _, hstops, _⟩ := mining_manager_lifecycle (fun _ => none) 7 sampleLife manager hrun
  obtain ⟨_, _, hrests⟩ := hstops _ stopped [] stopped hstep hreturns rfl
  exact ⟨manager, stopped, hrun, hstep, hreturns, hsessions, (hrests rfl).2⟩

/-- A start that cannot spawn its thread. -/
def sampleFailure : List (ManagerEvent Unit) :=
  [.call () (.start sampleStart), .run (), .run (), .spawn () false, .run ()]

/-- A start may fail between a stop and the next start that succeeds. -/
theorem mining_manager_stop_then_error :
    ¬∀ (events : List (ManagerEvent Unit)) (manager : MiningManager Unit),
      runEvents (step fun _ => none) events (.new 0) = some manager →
      ∀ event stopped later after, step (fun _ => none) event manager = some stopped →
        manager.StopReturns stopped →
        runEvents (step fun _ => none) later stopped = some after →
        ¬StartSucceeds (fun _ => none) later stopped →
        after.status.lifecycle = .stopped ∧ after.worker = none := by
  intro hclaim
  obtain ⟨manager, hrun⟩ : ∃ manager : MiningManager Unit,
      runEvents (step fun _ => none) [.call () .stop, .run ()] (.new 0) = some manager := ⟨_, rfl⟩
  obtain ⟨stopped, hstep, hreturns⟩ : ∃ stopped, step (fun _ => none) (.run ()) manager =
      some stopped ∧ manager.StopReturns stopped := by
    cases hrun
    exact ⟨_, rfl, (), _, _, rfl, rfl⟩
  obtain ⟨after, hlater, herror⟩ : ∃ after, runEvents (step fun _ => none) sampleFailure stopped =
      some after ∧ after.status.lifecycle = .error := by
    cases hrun
    cases hstep
    exact ⟨_, rfl, rfl⟩
  have hinv := (Consistent.new 0).run hrun
  have hrest := hinv.resting_of_stopReturns hstep hreturns
  have hnever : ¬StartSucceeds (fun _ => none) sampleFailure stopped :=
    hrest.workerless.not_startSucceeds (hinv.step hstep) (by decide)
  obtain ⟨hlifecycle, _⟩ := hclaim _ _ hrun _ _ _ _ hstep hreturns hlater hnever
  rw [herror] at hlifecycle
  cases hlifecycle

end CommonFoundry
