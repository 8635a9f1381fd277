/-
# `CommonFoundry.Miner.Shutdown` — when the join of the workers completes

Once `monitor_workers` has returned nobody receives any more, and the channel only
fills up.  With the flag set every worker still makes at most one send: a
*sender*, which may have to wait, or a *prober*, whose `try_send` takes a place if
there is one and never waits.

`HasRoom` says that no sender is left, or that there is a place for every sender
and every prober.  Every step of a worker keeps it, and while it holds every
worker that has not exited can take a step (`HasRoom.live`); a rank that every
step lowers then brings the join to its end.  Without it the probers can take the
places first, and some sender waits for ever (`Ending.exists_stuck`).
-/
import CommonFoundry.Miner.Workers

namespace CommonFoundry

open Lib

/-! ## What a worker may still do, with the flag set -/

namespace Worker

/-- It may have to wait for a place in the channel. -/
def senders : Worker → Nat
  | .starting | .sendingReady | .evaluating _ _ | .foundProof _ _ | .sendingFound _ _
  | .failing _ | .sendingFailed _ => 1
  | .looping _ _ | .tryingProgress _ _ | .exited => 0

/-- It takes a place if there is one. -/
def probers : Worker → Nat
  | .tryingProgress _ _ => 1
  | _ => 0

/-- Steps it takes at most. -/
def rank : Worker → Nat
  | .exited => 0
  | .looping _ _ | .sendingFound _ _ | .sendingFailed _ => 1
  | .sendingReady | .foundProof _ _ | .tryingProgress _ _ | .failing _ => 2
  | .starting | .evaluating _ _ => 3

/-- It is in a `send`. -/
def Sending : Worker → Prop
  | .sendingReady | .sendingFound _ _ | .sendingFailed _ => True
  | _ => False

variable {job : MineJob} {device : Int32} {ordinal : Nat}

theorem senders_add_probers_le (worker : Worker) : worker.senders + worker.probers ≤ 1 := by
  cases worker <;> exact Nat.le_of_ble_eq_true rfl

theorem Sending.senders {worker : Worker} (h : worker.Sending) : worker.senders = 1 := by
  cases worker <;> first | rfl | cases h

theorem trySend_eq_some {channel channel' : List WorkerMessage} {message : WorkerMessage} :
    trySend job channel message = some channel' ↔
      channel.length < job.capacity ∧ channel' = channel ++ [message] := by
  rw [trySend]
  split
  · next h => exact ⟨fun heq => ⟨h, (Option.some.inj heq).symm⟩, fun heq => by rw [heq.2]⟩
  · next h => exact ⟨nofun, fun heq => absurd heq.1 h⟩

/-- What one step does once the flag is set: it lowers the rank, makes no new
sender, and a place in the channel is taken by a sender or a prober that is none
afterwards. -/
structure WindsDown (job : MineJob) (view view' : WorkerView) : Prop where
  cancel : view'.cancel = true
  rank : view'.worker.rank < view.worker.rank
  senders : view'.worker.senders ≤ view.worker.senders
  places : view'.worker.senders + view'.worker.probers + view'.channel.length ≤
    view.worker.senders + view.worker.probers + view.channel.length

theorem step_windsDown {input : WorkerInput} {view view' : WorkerView}
    (hcancel : view.cancel = true) (h : step job device ordinal input view = some view') :
    WindsDown job view view' := by
  obtain ⟨worker, cancel, channel⟩ := view
  obtain rfl : cancel = true := hcancel
  -- a send that found a place
  have hsend : ∀ {message : WorkerMessage} {after : Worker},
      (trySend job channel message).map (fun channel => ⟨after, true, channel⟩) = some view' →
      after.rank < worker.rank → worker.senders = 1 → worker.probers = 0 → after.senders = 0 →
      after.probers = 0 → WindsDown job ⟨worker, true, channel⟩ view' := by
    intro message after hmap hrank hsenders hprobers hafter hafter'
    obtain ⟨channel', htry, rfl⟩ := Option.map_eq_some_iff.mp hmap
    obtain ⟨hroom, rfl⟩ := trySend_eq_some.mp htry
    refine ⟨rfl, hrank, ?_, ?_⟩ <;>
      simp only [hsenders, hprobers, hafter, hafter', List.length_append, List.length_singleton] <;>
      omega
  -- a step that leaves the channel alone
  have hquiet : ∀ {after : Worker}, some (⟨after, true, channel⟩ : WorkerView) = some view' →
      after.rank < worker.rank → after.senders ≤ worker.senders →
      after.senders + after.probers ≤ worker.senders + worker.probers →
      WindsDown job ⟨worker, true, channel⟩ view' := by
    intro after hsome hrank hsenders hplaces
    obtain rfl := Option.some.inj hsome
    exact ⟨rfl, hrank, hsenders, Nat.add_le_add_right hplaces _⟩
  simp only [step] at h
  split at h
  · exact hquiet h (by simp [rank]) le_rfl le_rfl
  · exact hquiet h (by simp [rank]) le_rfl le_rfl
  · exact hsend h (by simp [rank]) rfl rfl rfl rfl
  · -- the flag is set
    exact hquiet h (by simp [rank]) le_rfl le_rfl
  · exact hquiet h (by simp [rank]) le_rfl le_rfl
  · -- the batch ended
    split at h
    · exact hquiet h (by simp [rank]) le_rfl le_rfl
    · exact hquiet h (by simp [rank]) (Nat.zero_le _) le_rfl
    · exact hquiet h (by simp [rank]) (Nat.zero_le _) (Nat.zero_le _)
  · exact hquiet h (by simp [rank]) le_rfl le_rfl
  · exact hsend h (by simp [rank]) rfl rfl rfl rfl
  · -- a probe, with room and without
    split at h
    · next htry =>
        obtain rfl := Option.some.inj h
        obtain ⟨hroom, rfl⟩ := trySend_eq_some.mp htry
        refine ⟨rfl, by simp [rank], le_rfl, ?_⟩
        simp only [senders, probers, List.length_append, List.length_singleton]
        omega
    · exact hquiet h (by simp [rank]) le_rfl (Nat.zero_le _)
  · exact hquiet h (by simp [rank]) le_rfl le_rfl
  · exact hsend h (by simp [rank]) rfl rfl rfl rfl
  · cases h

/-- A worker that has not exited can step, but for a send into a full channel. -/
theorem exists_step {view : WorkerView} (h : view.worker ≠ .exited)
    (hroom : view.worker.Sending → view.channel.length < job.capacity) :
    ∃ input, (step job device ordinal input view).isSome := by
  obtain ⟨worker, cancel, channel⟩ := view
  have hsend : worker.Sending →
      ∀ message, trySend job channel message = some (channel ++ [message]) :=
    fun hsending message => if_pos (hroom hsending)
  cases worker with
  | starting => exact ⟨.started (.ok ()), rfl⟩
  | sendingReady => exact ⟨.go, by simp only [step, hsend trivial]; rfl⟩
  | looping pendingAttempts nextNonce => exact ⟨.go, rfl⟩
  | evaluating pendingAttempts nextNonce => exact ⟨.batch (.ok .exhausted), rfl⟩
  | foundProof proof attempts => exact ⟨.go, rfl⟩
  | sendingFound proof attempts => exact ⟨.go, by simp only [step, hsend trivial]; rfl⟩
  | tryingProgress pendingAttempts nextNonce =>
      refine ⟨.go, ?_⟩
      simp only [step]
      split <;> rfl
  | failing error => exact ⟨.go, rfl⟩
  | sendingFailed error => exact ⟨.go, by simp only [step, hsend trivial]; rfl⟩
  | exited => exact absurd rfl h

/-- A send into a full channel waits. -/
theorem step_eq_none {view : WorkerView} {input : WorkerInput} (h : view.worker.Sending)
    (hfull : ¬ view.channel.length < job.capacity) : step job device ordinal input view = none := by
  obtain ⟨worker, cancel, channel⟩ := view
  have hsend : ∀ message, trySend job channel message = none := fun message => if_neg hfull
  cases worker <;> cases h <;> cases input <;> simp only [step, hsend] <;> rfl

/-- A sender that is not in its `send` yet can come closer to it. -/
theorem exists_step_sender (view : WorkerView) (hsender : view.worker.senders = 1)
    (hsending : ¬ view.worker.Sending) (hcancel : view.cancel = true) :
    ∃ input after, step job device ordinal input view = some { view with worker := after } ∧
      after.senders = 1 ∧ after.probers = view.worker.probers := by
  obtain ⟨worker, cancel, channel⟩ := view
  obtain rfl : cancel = true := hcancel
  cases worker with
  | starting => exact ⟨.started (.ok ()), .sendingReady, rfl, rfl, rfl⟩
  | evaluating pendingAttempts nextNonce =>
      exact ⟨.batch (.error ""), .failing "", rfl, rfl, rfl⟩
  | foundProof proof attempts => exact ⟨.go, .sendingFound proof attempts, rfl, rfl, rfl⟩
  | failing error => exact ⟨.go, .sendingFailed error, rfl, rfl, rfl⟩
  | sendingReady => exact absurd trivial hsending
  | sendingFound proof attempts => exact absurd trivial hsending
  | sendingFailed error => exact absurd trivial hsending
  | looping pendingAttempts nextNonce => cases hsender
  | tryingProgress pendingAttempts nextNonce => cases hsender
  | exited => cases hsender

/-- With room, a worker in a send or about to probe can take a place. -/
theorem exists_step_place (view : WorkerView)
    (h : view.worker.Sending ∨ view.worker.probers = 1)
    (hroom : view.channel.length < job.capacity) :
    ∃ after message, step job device ordinal .go view =
        some { view with worker := after, channel := view.channel ++ [message] } ∧
      after.senders = 0 ∧ after.probers = 0 := by
  obtain ⟨worker, cancel, channel⟩ := view
  have hsend : ∀ message, trySend job channel message = some (channel ++ [message]) :=
    fun message => if_pos hroom
  cases worker with
  | sendingReady => exact ⟨_, .ready device, by simp only [step, hsend]; rfl, rfl, rfl⟩
  | sendingFound proof attempts =>
      exact ⟨_, .found device proof attempts, by simp only [step, hsend]; rfl, rfl, rfl⟩
  | sendingFailed error =>
      exact ⟨_, .failed device error, by simp only [step, hsend]; rfl, rfl, rfl⟩
  | tryingProgress pendingAttempts nextNonce =>
      exact ⟨_, .progress device pendingAttempts, by simp only [step, hsend]; rfl, rfl, rfl⟩
  | _ => exact h.elim False.elim nofun

end Worker

/-! ## The coordinator, once the monitor has returned -/

namespace Coordinator

/-- `monitor_workers` has returned. -/
def HasReturned : Coordinator → Prop
  | .returned _ | .joining _ _ | .finished _ => True
  | _ => False

/-- Steps it takes at most, with so many workers. -/
def rank (workers : Nat) : Coordinator → Nat
  | .returned _ => workers + 2
  | .joining _ joined => workers - joined + 1
  | _ => 0

end Coordinator

namespace Mining

variable {job : MineJob}

/-! ## All the workers -/

/-- Workers that may still have to wait for a place. -/
def senders (mining : Mining job) : Nat := ∑ ordinal, (mining.workers ordinal).senders

def probers (mining : Mining job) : Nat := ∑ ordinal, (mining.workers ordinal).probers

def rank (mining : Mining job) : Nat :=
  ∑ ordinal, (mining.workers ordinal).rank + mining.coordinator.rank job.devices.length

/-- No worker may have to wait, or there is a place for every worker that takes one. -/
def HasRoom (mining : Mining job) : Prop :=
  mining.senders = 0 ∨ mining.senders + mining.probers + mining.channel.length ≤ job.capacity

/-- The monitor has returned, and the flag is set. -/
structure Ending (mining : Mining job) : Prop where
  returned : mining.coordinator.HasReturned
  cancel : mining.cancel = true

theorem stepWorker_eq_some {ordinal : Fin job.devices.length} {input : WorkerInput}
    {mining after : Mining job} :
    mining.stepWorker ordinal input = some after ↔
      ∃ view, Worker.step job (job.devices.get ordinal) ordinal input
          { worker := mining.workers ordinal, cancel := mining.cancel,
            channel := mining.channel } = some view ∧
        { mining with
          workers := Function.update mining.workers ordinal view.worker
          cancel := view.cancel
          channel := view.channel } = after :=
  Option.map_eq_some_iff

theorem exists_sender {mining : Mining job} (h : 0 < mining.senders) :
    ∃ ordinal, (mining.workers ordinal).senders = 1 := by
  obtain ⟨ordinal, -, hordinal⟩ := Finset.exists_ne_zero_of_sum_ne_zero h.ne'
  have hle := (mining.workers ordinal).senders_add_probers_le
  exact ⟨ordinal, by omega⟩

theorem exists_prober {mining : Mining job} (h : 0 < mining.probers) :
    ∃ ordinal, (mining.workers ordinal).probers = 1 := by
  obtain ⟨ordinal, -, hordinal⟩ := Finset.exists_ne_zero_of_sum_ne_zero h.ne'
  have hle := (mining.workers ordinal).senders_add_probers_le
  exact ⟨ordinal, by omega⟩

theorem senders_pos {mining : Mining job} {ordinal : Fin job.devices.length}
    (h : (mining.workers ordinal).Sending) : 0 < mining.senders := by
  refine lt_of_lt_of_le (h.senders ▸ Nat.zero_lt_one) ?_
  exact Finset.single_le_sum (f := fun j => (mining.workers j).senders) (fun _ _ => Nat.zero_le _)
    (Finset.mem_univ ordinal)

/-! ## What every step does -/

/-- A step that neither undoes the shutdown nor takes a place of a sender. -/
structure Closer (mining after : Mining job) : Prop where
  ending : after.Ending
  rank : after.rank < mining.rank
  room : mining.HasRoom → after.HasRoom

theorem Ending.stepWorker {mining after : Mining job} {ordinal : Fin job.devices.length}
    {input : WorkerInput} (h : mining.Ending) (hstep : mining.stepWorker ordinal input = some after) :
    mining.Closer after := by
  obtain ⟨view, hview, rfl⟩ := stepWorker_eq_some.mp hstep
  have hdown := Worker.step_windsDown h.cancel hview
  have hrank := sum_update Worker.rank mining.workers ordinal view.worker
  have hsenders := sum_update Worker.senders mining.workers ordinal view.worker
  have hprobers := sum_update Worker.probers mining.workers ordinal view.worker
  have hrank' := hdown.rank
  have hsenders' := hdown.senders
  have hplaces := hdown.places
  refine ⟨⟨h.returned, hdown.cancel⟩, ?_, ?_⟩
  · simp only [rank]
    simp only at hrank'
    omega
  · simp only [HasRoom, senders, probers]
    simp only at hsenders' hplaces
    omega

theorem Ending.stepCoordinator {mining after : Mining job} {input : CoordinatorInput}
    (h : mining.Ending) (hstep : mining.stepCoordinator input = some after) :
    mining.Closer after := by
  obtain ⟨workers, cancel, channel, coordinator, ready, totals⟩ := mining
  obtain ⟨hreturned, rfl : cancel = true⟩ := h
  cases coordinator with
  | returned result =>
      cases input <;> cases hstep
      exact ⟨⟨trivial, rfl⟩, by simp only [rank, Coordinator.rank]; omega, id⟩
  | joining result joined =>
      cases input with
      | go =>
          simp only [Mining.stepCoordinator] at hstep
          split at hstep
          · split at hstep
            · cases hstep
              exact ⟨⟨trivial, rfl⟩, by simp only [rank, Coordinator.rank]; omega, id⟩
            · cases hstep
          · cases hstep
            exact ⟨⟨trivial, rfl⟩, by simp only [rank, Coordinator.rank]; omega, id⟩
      | shutdown requested => cases hstep
      | status result => cases hstep
  | finished result => cases input <;> cases hstep
  | checking => cases hreturned
  | receiving => cases hreturned
  | polling => cases hreturned
  | cancelling result => cases hreturned

theorem Ending.closer {mining after : Mining job} {event : MiningEvent job} (h : mining.Ending)
    (hstep : Mining.step event mining = some after) : mining.Closer after := by
  cases event with
  | worker ordinal input => exact h.stepWorker hstep
  | coordinator input => exact h.stepCoordinator hstep

/-! ## With room, the join completes -/

/-- Every worker that has not exited can take a step. -/
def Live (mining : Mining job) : Prop :=
  ∀ ordinal, mining.workers ordinal ≠ .exited → ∃ input, (mining.stepWorker ordinal input).isSome

theorem HasRoom.live {mining : Mining job} (h : mining.HasRoom) : mining.Live := by
  intro ordinal hordinal
  have hroom : (mining.workers ordinal).Sending → mining.channel.length < job.capacity := by
    intro hsending
    have hpos := senders_pos hsending
    rcases h with hnone | hplaces <;> omega
  obtain ⟨input, hinput⟩ : ∃ input, (Worker.step job (job.devices.get ordinal) ordinal input
      ⟨mining.workers ordinal, mining.cancel, mining.channel⟩).isSome :=
    Worker.exists_step hordinal hroom
  exact ⟨input, by rw [Mining.stepWorker, Option.isSome_map]; exact hinput⟩

/-- Where no thread can step, `mine_work` has returned. -/
theorem Live.finished {mining : Mining job} (h : mining.Live) (hending : mining.Ending)
    (hstop : ∀ event, Mining.step event mining = none) :
    ∃ result, mining.coordinator = .finished result := by
  have hexited : ∀ ordinal, mining.workers ordinal = .exited := by
    intro ordinal
    by_contra hne
    obtain ⟨input, hinput⟩ := h ordinal hne
    have hnone := hstop (.worker ordinal input)
    simp only [Mining.step] at hnone
    simp [hnone] at hinput
  have hgo := hstop (.coordinator .go)
  have hreturned := hending.returned
  obtain ⟨workers, cancel, channel, coordinator, ready, totals⟩ := mining
  cases coordinator with
  | finished result => exact ⟨result, rfl⟩
  | returned result => cases hgo
  | joining result joined =>
      simp only [Mining.step, Mining.stepCoordinator] at hgo
      split at hgo
      · next hlt =>
          rw [if_pos (hexited ⟨joined, hlt⟩)] at hgo
          cases hgo
      · cases hgo
  | checking => cases hreturned
  | receiving => cases hreturned
  | polling => cases hreturned
  | cancelling result => cases hreturned

/-- Whatever the threads do from here, every worker that has not exited can step,
and the join completes: there is a bound on the steps that are left, and where no
thread can step `mine_work` has returned. -/
structure ShutsDown (mining : Mining job) : Prop where
  live : ∀ {events after}, runEvents step events mining = some after → after.Live
  bounded : ∃ bound, ∀ {events after}, runEvents step events mining = some after →
    events.length ≤ bound
  finished : ∀ {events after}, runEvents step events mining = some after →
    (∀ event, step event after = none) → ∃ result, after.coordinator = .finished result

theorem HasRoom.shutsDown {mining : Mining job} (h : mining.HasRoom) (hending : mining.Ending) :
    mining.ShutsDown := by
  have hkeep : ∀ {event} {state after : Mining job}, state.Ending ∧ state.HasRoom →
      step event state = some after → after.Ending ∧ after.HasRoom :=
    fun hstate hstep => ⟨(hstate.1.closer hstep).ending, (hstate.1.closer hstep).room hstate.2⟩
  have hrun : ∀ {events after}, runEvents step events mining = some after →
      after.Ending ∧ after.HasRoom := fun hrun => runEvents_inv _ hkeep ⟨hending, h⟩ hrun
  refine ⟨fun hafter => (hrun hafter).2.live, ⟨mining.rank, fun {events after} hafter => ?_⟩,
    fun hafter hstop => (hrun hafter).2.live.finished (hrun hafter).1 hstop⟩
  have hmeasure : events.length + after.rank ≤ mining.rank :=
    runEvents_measure hkeep (fun hstate hstep => (hstate.1.closer hstep).rank) ⟨hending, h⟩ hafter
  omega

/-! ## Without room, some send waits for ever -/

/-- A worker waits in a send, and there is no place. -/
def Stuck (mining : Mining job) : Prop :=
  job.capacity ≤ mining.channel.length ∧ ∃ ordinal, (mining.workers ordinal).Sending

theorem Stuck.not_live {mining : Mining job} (h : mining.Stuck) : ¬ mining.Live := by
  obtain ⟨hfull, ordinal, hsending⟩ := h
  intro hlive
  have hne : mining.workers ordinal ≠ .exited := by
    intro hexited
    rw [hexited] at hsending
    exact hsending
  obtain ⟨input, hinput⟩ := hlive ordinal hne
  rw [Mining.stepWorker, Option.isSome_map,
    Worker.step_eq_none hsending (Nat.not_lt.mpr hfull)] at hinput
  cases hinput

/-- Senders come to their sends while they can; then the probers take places, and
after them the senders.  As there are too few places, some sender finds none. -/
theorem Ending.exists_stuck {mining : Mining job} (h : mining.Ending) (hroom : ¬ mining.HasRoom) :
    ∃ events after, runEvents step events mining = some after ∧ after.Stuck := by
  induction hrank : mining.rank using Nat.strong_induction_on generalizing mining with
  | _ bound ih =>
    subst hrank
    obtain ⟨hsome, hplaces⟩ := not_or.mp hroom
    -- one more step of a worker, to a state that still has no room
    have hnext : ∀ {ordinal input view}, Worker.step job (job.devices.get ordinal) ordinal input
          { worker := mining.workers ordinal, cancel := mining.cancel,
            channel := mining.channel } = some view →
        ({ mining with
            workers := Function.update mining.workers ordinal view.worker
            cancel := view.cancel
            channel := view.channel } : Mining job).HasRoom ∨
          ∃ events after, runEvents step events mining = some after ∧ after.Stuck := by
      intro ordinal input view hview
      have hstep := stepWorker_eq_some.mpr ⟨view, hview, rfl⟩
      rw [or_iff_not_imp_left]
      intro hroom'
      obtain ⟨events, after, hrun, hstuck⟩ :=
        ih _ (h.stepWorker hstep).rank (h.stepWorker hstep).ending hroom' rfl
      exact ⟨.worker ordinal input :: events, after, runEvents_cons.mpr ⟨_, hstep, hrun⟩, hstuck⟩
    -- a worker that takes a place
    have hplace : mining.channel.length < job.capacity → ∀ ordinal,
        (mining.workers ordinal).Sending ∧ mining.probers = 0 ∨
          (mining.workers ordinal).probers = 1 →
        ∃ events after, runEvents step events mining = some after ∧ after.Stuck := by
      intro hlt ordinal hworker
      obtain ⟨worker, message, hview, hsenders, hprobers⟩ :=
        Worker.exists_step_place ⟨mining.workers ordinal, mining.cancel, mining.channel⟩
          (hworker.imp_left And.left) hlt
      have hle := (mining.workers ordinal).senders_add_probers_le
      have hsenders' := sum_update Worker.senders mining.workers ordinal worker
      have hprobers' := sum_update Worker.probers mining.workers ordinal worker
      rw [hsenders] at hsenders'
      rw [hprobers] at hprobers'
      refine (hnext hview).resolve_left ?_
      simp only [HasRoom, senders, probers, List.length_append, List.length_singleton] at *
      rcases hworker with ⟨hsending, hnone⟩ | hprober
      · have hone := hsending.senders
        omega
      · omega
    by_cases hwaiting : ∀ ordinal, (mining.workers ordinal).senders = 1 →
      (mining.workers ordinal).Sending
    · obtain ⟨ordinal, hordinal⟩ := exists_sender (Nat.pos_of_ne_zero hsome)
      have hsending := hwaiting ordinal hordinal
      rcases Nat.lt_or_ge mining.channel.length job.capacity with hlt | hfull
      · by_cases hnone : mining.probers = 0
        · exact hplace hlt ordinal (.inl ⟨hsending, hnone⟩)
        · obtain ⟨ordinal', hordinal'⟩ := exists_prober (Nat.pos_of_ne_zero hnone)
          exact hplace hlt ordinal' (.inr hordinal')
      · exact ⟨[], mining, rfl, hfull, ordinal, hsending⟩
    · obtain ⟨ordinal, hnot⟩ := not_forall.mp hwaiting
      obtain ⟨hordinal, hsending⟩ := Classical.not_imp.mp hnot
      obtain ⟨input, worker, hview, hsenders, hprobers⟩ :=
        Worker.exists_step_sender ⟨mining.workers ordinal, mining.cancel, mining.channel⟩
          hordinal hsending h.cancel
      have hsenders' := sum_update Worker.senders mining.workers ordinal worker
      have hprobers' := sum_update Worker.probers mining.workers ordinal worker
      refine (hnext hview).resolve_left ?_
      simp only [HasRoom, senders, probers] at *
      omega

/-- When the monitor has returned and the flag is set, the workers can be joined
whatever happens if and only if no worker is left that may have to wait for a place
in the channel, or there is a place for each of these and for each that probes. -/
theorem shutdown_iff_hasRoom {mining : Mining job} (hreturned : mining.coordinator.HasReturned)
    (hcancel : mining.cancel = true) : mining.ShutsDown ↔ mining.HasRoom := by
  have hending : mining.Ending := ⟨hreturned, hcancel⟩
  constructor
  · intro hdown
    by_contra hroom
    obtain ⟨events, after, hrun, hstuck⟩ := hending.exists_stuck hroom
    exact hstuck.not_live (hdown.live hrun)
  · exact fun hroom => hroom.shutsDown hending

/-! ## One device -/

def sampleJob : MineJob := { devices := [0], batchSize := 256 }

/-- A step of its worker. -/
def sampleWorker (input : WorkerInput) : MiningEvent sampleJob := .worker ⟨0, Nat.one_pos⟩ input

/-- A shutdown is requested before the worker has started. -/
theorem shutdown_iff_hasRoom_sample :
    ∃ mining : Mining sampleJob, mining.Reachable ∧ mining.ShutsDown := by
  obtain ⟨mining, hrun, hreturned, hcancel, hroom⟩ : ∃ mining : Mining sampleJob,
      runEvents step [.coordinator (.shutdown true), .coordinator .go]
          (new sampleJob fun _ => 0) = some mining ∧
      mining.coordinator.HasReturned ∧ mining.cancel = true ∧ mining.HasRoom :=
    ⟨_, rfl, trivial, rfl, .inr (Nat.le_of_ble_eq_true rfl)⟩
  exact ⟨mining, ⟨_, _, hrun⟩, (shutdown_iff_hasRoom hreturned hcancel).mpr hroom⟩

def sampleBlockProof : BlockProof := .v1Legacy {
  algorithmVersion := 1, modelVersion := 1, nonce := 0, modelRoot := zero32
  outputDigest := zero32, workDigest := zero32 }

/-- One batch without a proof, up to the next load of the flag. -/
def sampleProgress : List (MiningEvent sampleJob) :=
  [sampleWorker .go, sampleWorker (.batch (.ok .exhausted)), sampleWorker .go]

/-- The worker fills the channel while the coordinator checks the status of the
work; then it finds a proof, and the work is stale. -/
def sampleStale : List (MiningEvent sampleJob) :=
  [sampleWorker (.started (.ok ())), sampleWorker .go, .coordinator (.shutdown false),
    .coordinator .go] ++
    sampleProgress ++ sampleProgress ++ sampleProgress ++ sampleProgress ++
    [sampleWorker .go, sampleWorker (.batch (.ok (.found sampleBlockProof))), sampleWorker .go,
      .coordinator (.status (.ok .stale)), .coordinator .go]

/-- The proof that was found finds no place, and nobody receives. -/
theorem shutdown_deadlocks :
    ∃ mining : Mining sampleJob, mining.Reachable ∧ mining.coordinator = .returned (.ok .stale) ∧
      mining.cancel = true ∧ ¬ mining.ShutsDown := by
  obtain ⟨mining, hrun, hcoordinator, hcancel, hworker, hfull⟩ : ∃ mining : Mining sampleJob,
      runEvents step sampleStale (new sampleJob fun _ => 0) = some mining ∧
      mining.coordinator = .returned (.ok .stale) ∧ mining.cancel = true ∧
      (mining.workers ⟨0, Nat.one_pos⟩).Sending ∧ sampleJob.capacity ≤ mining.channel.length :=
    ⟨_, rfl, rfl, rfl, trivial, Nat.le_of_ble_eq_true rfl⟩
  have hstuck : mining.Stuck := ⟨hfull, _, hworker⟩
  have hnone : runEvents step [] mining = some mining := rfl
  exact ⟨mining, ⟨_, _, hrun⟩, hcoordinator, hcancel, fun hdown => hstuck.not_live (hdown.live hnone)⟩

end Mining

end CommonFoundry
