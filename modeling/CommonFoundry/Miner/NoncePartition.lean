/-
# `CommonFoundry.Miner.NoncePartition` — the nonces that the workers divide up

A worker starts at the nonce of its ordinal and moves by a stride that steps over the
batches of all workers.  In any interleaving of the threads the batches that it starts are
those of its rounds, one after the other (`batchStarts_eq`).  A nonce is its offset in a
batch, the ordinal of a worker and a round, as digits; so the workers divide up the first
nonces without overlap and without a gap, for as long as these are words.
-/
import CommonFoundry.Consensus.Accelerator
import CommonFoundry.Lib.Schedule
import CommonFoundry.Miner.Workers
import Mathlib.Data.Set.Function

namespace CommonFoundry

open Lib

namespace MineJob

/-- `next_nonce` of a worker in its round. -/
def roundStart (job : MineJob) (ordinal : Nat) : Nat → UInt64
  | 0 => job.nonceStart ordinal
  | round + 1 => job.roundStart ordinal round + job.nonceStride

/-- The nonce at an offset in the batch of a round. -/
def evaluatedNonce (job : MineJob) (round ordinal offset : Nat) : UInt64 :=
  job.roundStart ordinal round + UInt64.ofNat offset

/-- The number that the nonce is, if it is a word. -/
def nonceNumber (job : MineJob) (round ordinal offset : Nat) : Nat :=
  round * (job.devices.length * job.batchSize.toNat) + ordinal * job.batchSize.toNat + offset

theorem toUInt64_eq_ofNat (n : UInt32) : n.toUInt64 = UInt64.ofNat n.toNat := by
  have hlt := n.toNat_lt
  rw [← UInt64.toNat_inj, UInt32.toNat_toUInt64, UInt64.toNat_ofNat', Nat.mod_eq_of_lt (by omega)]

theorem roundStart_eq (job : MineJob) (ordinal round : Nat) :
    job.roundStart ordinal round = UInt64.ofNat
      (round * (job.devices.length * job.batchSize.toNat) + ordinal * job.batchSize.toNat) := by
  induction round with
  | zero =>
      rw [roundStart, nonceStart, toUInt64_eq_ofNat, ← UInt64.ofNat_mul, Nat.zero_mul, Nat.zero_add,
        Nat.mul_comm]
  | succ round ih =>
      rw [roundStart, ih, nonceStride, toUInt64_eq_ofNat, ← UInt64.ofNat_mul, ← UInt64.ofNat_add,
        Nat.succ_mul, Nat.mul_comm job.batchSize.toNat]
      congr 1
      omega

/-- The wrapping arithmetic is exact on numbers that are words. -/
theorem toNat_evaluatedNonce {job : MineJob} {round ordinal offset : Nat}
    (h : job.nonceNumber round ordinal offset < 2 ^ 64) :
    (job.evaluatedNonce round ordinal offset).toNat = job.nonceNumber round ordinal offset := by
  rw [evaluatedNonce, roundStart_eq, ← UInt64.ofNat_add]
  exact UInt64.toNat_ofNat_of_lt' h

end MineJob

/-! ## The batches of a run -/

namespace Mining

variable {job : MineJob}

/-- The batch that an event ends: where it began. -/
def batchOf (ordinal : Fin job.devices.length) (mining : Mining job) :
    MiningEvent job → Option UInt64
  | .worker which (.batch _) =>
      if which = ordinal then
        match mining.workers ordinal with
        | .evaluating _ nextNonce => some nextNonce
        | _ => none
      else none
  | _ => none

/-- Where the batches began that a worker evaluated in a run, up to an event that no
thread can take. -/
def batchStarts (ordinal : Fin job.devices.length) :
    List (MiningEvent job) → Mining job → List UInt64
  | [], _ => []
  | event :: rest, mining =>
      match step event mining with
      | some after => (batchOf ordinal mining event).toList ++ batchStarts ordinal rest after
      | none => []

end Mining

namespace Worker

variable {job : MineJob} {device : Int32} {ordinal : Nat}

/-- Where a worker is after so many batches. -/
def AtRound (job : MineJob) (ordinal rounds : Nat) : Worker → Prop
  | .starting => rounds = 0
  | .sendingReady => rounds = 0
  | .looping _ nextNonce => nextNonce = job.roundStart ordinal rounds
  | .evaluating _ nextNonce => nextNonce = job.roundStart ordinal rounds
  | .tryingProgress _ nextNonce =>
      nextNonce + job.nonceStride = job.roundStart ordinal rounds
  | _ => True

/-- Whether an input ends a batch. -/
def EndsBatch (worker : Worker) (input : WorkerInput) : Bool :=
  match worker, input with
  | .evaluating _ _, .batch _ => true
  | _, _ => false

/-- A step keeps the round, but for the end of a batch, which is the end of a round. -/
theorem step_atRound {input : WorkerInput} {view view' : WorkerView} {rounds : Nat}
    (hround : view.worker.AtRound job ordinal rounds)
    (h : step job device ordinal input view = some view') :
    view'.worker.AtRound job ordinal (rounds + (view.worker.EndsBatch input).toNat) := by
  obtain ⟨worker, cancel, channel⟩ := view
  simp only [step] at h
  split at h
  · cases h
    exact hround
  · cases h
    trivial
  · obtain ⟨_, _, rfl⟩ := Option.map_eq_some_iff.mp h
    obtain rfl : rounds = 0 := hround
    rfl
  · cases h
    dsimp only
    split
    · trivial
    · exact hround
  · cases h
    trivial
  · -- the batch ended
    split at h
    · cases h
      trivial
    · cases h
      exact congrArg (· + job.nonceStride) hround
    · cases h
      trivial
  · cases h
    trivial
  · obtain ⟨_, _, rfl⟩ := Option.map_eq_some_iff.mp h
    trivial
  · split at h
    · cases h
      exact hround
    · cases h
      exact hround
  · cases h
    trivial
  · obtain ⟨_, _, rfl⟩ := Option.map_eq_some_iff.mp h
    trivial
  · cases h

end Worker

namespace Mining

variable {job : MineJob}

theorem stepCoordinator_workers {mining after : Mining job} {input : CoordinatorInput}
    (h : mining.stepCoordinator input = some after) : after.workers = mining.workers := by
  have hreceive : ∀ (mining : Mining job) (message : WorkerMessage),
      (mining.receive message).workers = mining.workers := fun mining message => by
    cases message <;> rfl
  simp only [stepCoordinator] at h
  split at h
  · cases h
    rfl
  · split at h
    · cases h
      exact hreceive _ _
    · cases h
      rfl
  · cases h
    rfl
  · cases h
    rfl
  · cases h
    rfl
  · cases h
    rfl
  · cases h
    rfl
  · cases h
    rfl
  · split at h
    · split at h
      · cases h
        rfl
      · cases h
    · cases h
      rfl
  · cases h

/-- What a step of the system does to the round of a worker. -/
theorem step_atRound {ordinal : Fin job.devices.length} {event : MiningEvent job}
    {mining after : Mining job} {rounds : Nat}
    (hround : (mining.workers ordinal).AtRound job ordinal rounds)
    (h : step event mining = some after) :
    (batchOf ordinal mining event = none ∧
        (after.workers ordinal).AtRound job ordinal rounds) ∨
      (batchOf ordinal mining event = some (job.roundStart ordinal rounds) ∧
        (after.workers ordinal).AtRound job ordinal (rounds + 1)) := by
  cases event with
  | coordinator input => exact .inl ⟨rfl, by rw [stepCoordinator_workers h]; exact hround⟩
  | worker which input =>
      obtain ⟨view, hview, rfl⟩ := Option.map_eq_some_iff.mp h
      by_cases hwhich : which = ordinal
      · subst hwhich
        have hafter := Worker.step_atRound hround hview
        simp only [Function.update_self]
        cases hends : (mining.workers which).EndsBatch input with
        | false =>
            rw [hends] at hafter
            refine .inl ⟨?_, hafter⟩
            cases input with
            | batch result =>
                rw [batchOf, if_pos rfl]
                cases hworker : mining.workers which with
                | evaluating pending nextNonce =>
                    rw [hworker] at hends
                    cases hends
                | _ => rfl
            | _ => rfl
        | true =>
            rw [hends] at hafter
            refine .inr ⟨?_, hafter⟩
            cases input with
            | batch result =>
                rw [batchOf, if_pos rfl]
                cases hworker : mining.workers which with
                | evaluating pending nextNonce =>
                    rw [hworker] at hround
                    exact congrArg some hround
                | _ =>
                    rw [hworker] at hends
                    cases hends
            | _ =>
                cases hworker : mining.workers which <;> rw [hworker] at hends <;> cases hends
      · refine .inl ⟨?_, ?_⟩
        · cases input with
          | batch result => rw [batchOf, if_neg hwhich]
          | _ => rfl
        · simp only [Function.update_of_ne (Ne.symm hwhich)]
          exact hround

theorem batchStarts_of_atRound {ordinal : Fin job.devices.length}
    (events : List (MiningEvent job)) {mining : Mining job} {rounds : Nat}
    (hround : (mining.workers ordinal).AtRound job ordinal rounds) :
    ∃ count, batchStarts ordinal events mining =
      (List.range count).map fun i => job.roundStart ordinal (rounds + i) := by
  induction events generalizing mining rounds with
  | nil => exact ⟨0, rfl⟩
  | cons event rest ih =>
      rw [batchStarts]
      cases hstep : step event mining with
      | none => exact ⟨0, rfl⟩
      | some after =>
          rcases step_atRound hround hstep with ⟨hbatch, hafter⟩ | ⟨hbatch, hafter⟩
          · obtain ⟨count, hcount⟩ := ih hafter
            exact ⟨count, by rw [hbatch]; exact hcount⟩
          · obtain ⟨count, hcount⟩ := ih hafter
            refine ⟨count + 1, ?_⟩
            rw [hbatch, List.range_succ_eq_map, List.map_cons, List.map_map]
            refine congrArg₂ List.cons rfl (hcount.trans (List.map_congr_left fun i _ => ?_))
            rw [Function.comp_apply, Nat.succ_eq_add_one, Nat.add_assoc, Nat.add_comm 1 i]

/-- The batches of a worker are those of its first rounds, each once and in order. -/
theorem batchStarts_eq (ordinal : Fin job.devices.length) (events : List (MiningEvent job))
    (totals : Int32 → UInt64) :
    ∃ count, batchStarts ordinal events (new job totals) =
      (List.range count).map (job.roundStart ordinal) := by
  have hstart : ((new job totals).workers ordinal).AtRound job ordinal 0 := rfl
  obtain ⟨count, hcount⟩ := batchStarts_of_atRound events hstart
  exact ⟨count, hcount.trans (List.map_congr_left fun i _ => by rw [Nat.zero_add])⟩

end Mining

/-! ## The partition -/

namespace MineJob

/-- The offsets in the batches of so many rounds, with the round and the ordinal. -/
def cells (job : MineJob) (rounds : Nat) : Set (Nat × Nat × Nat) :=
  {cell | cell.1 < rounds ∧ cell.2.1 < job.devices.length ∧ cell.2.2 < job.batchSize.toNat}

theorem nonceNumber_eq (job : MineJob) (round ordinal offset : Nat) :
    job.nonceNumber round ordinal offset =
      (round * job.devices.length + ordinal) * job.batchSize.toNat + offset := by
  rw [nonceNumber, Nat.add_mul, Nat.mul_assoc]

/-- The number of a cell is below that of all cells. -/
theorem nonceNumber_lt {job : MineJob} {rounds round ordinal offset : Nat}
    (hround : round < rounds) (hordinal : ordinal < job.devices.length)
    (hoffset : offset < job.batchSize.toNat) :
    job.nonceNumber round ordinal offset <
      rounds * job.devices.length * job.batchSize.toNat := by
  rw [nonceNumber_eq]
  have hcolumn : round * job.devices.length + ordinal < rounds * job.devices.length :=
    calc round * job.devices.length + ordinal
        < (round + 1) * job.devices.length := by rw [Nat.succ_mul]; omega
      _ ≤ rounds * job.devices.length := Nat.mul_le_mul_right _ hround
  calc (round * job.devices.length + ordinal) * job.batchSize.toNat + offset
      < (round * job.devices.length + ordinal + 1) * job.batchSize.toNat := by
        rw [Nat.succ_mul]
        omega
    _ ≤ rounds * job.devices.length * job.batchSize.toNat := Nat.mul_le_mul_right _ hcolumn

/-- A cell is the digits of its number. -/
theorem digits_nonceNumber {job : MineJob} (round : Nat) {ordinal offset : Nat}
    (hordinal : ordinal < job.devices.length) (hoffset : offset < job.batchSize.toNat) :
    let number := job.nonceNumber round ordinal offset
    number / job.batchSize.toNat / job.devices.length = round ∧
      number / job.batchSize.toNat % job.devices.length = ordinal ∧
      number % job.batchSize.toNat = offset := by
  intro number
  have hcolumn : number / job.batchSize.toNat = round * job.devices.length + ordinal := by
    show job.nonceNumber round ordinal offset / _ = _
    rw [nonceNumber_eq, Nat.mul_comm, Nat.mul_add_div (Nat.zero_lt_of_lt hoffset),
      Nat.div_eq_of_lt hoffset, Nat.add_zero]
  refine ⟨?_, ?_, ?_⟩
  · rw [hcolumn, Nat.mul_comm, Nat.mul_add_div (Nat.zero_lt_of_lt hordinal),
      Nat.div_eq_of_lt hordinal, Nat.add_zero]
  · rw [hcolumn, Nat.mul_comm, Nat.mul_add_mod, Nat.mod_eq_of_lt hordinal]
  · show job.nonceNumber round ordinal offset % _ = _
    rw [nonceNumber_eq, Nat.mul_comm, Nat.mul_add_mod, Nat.mod_eq_of_lt hoffset]

/-- Every number below that of all cells is the number of a cell. -/
theorem exists_cell {job : MineJob} {rounds number : Nat}
    (h : number < rounds * job.devices.length * job.batchSize.toNat) :
    ∃ cell ∈ job.cells rounds, job.nonceNumber cell.1 cell.2.1 cell.2.2 = number := by
  have hsize : 0 < job.batchSize.toNat := Nat.pos_of_mul_pos_left (Nat.zero_lt_of_lt h)
  have hcolumn : number / job.batchSize.toNat < rounds * job.devices.length :=
    (Nat.div_lt_iff_lt_mul hsize).mpr h
  have hwidth : 0 < job.devices.length := Nat.pos_of_mul_pos_left (Nat.zero_lt_of_lt hcolumn)
  refine ⟨(number / job.batchSize.toNat / job.devices.length,
    number / job.batchSize.toNat % job.devices.length, number % job.batchSize.toNat),
    ⟨(Nat.div_lt_iff_lt_mul hwidth).mpr hcolumn, Nat.mod_lt _ hwidth, Nat.mod_lt _ hsize⟩, ?_⟩
  rw [nonceNumber_eq, Nat.div_add_mod', Nat.div_add_mod']

end MineJob

/-- In any interleaving each worker evaluates the batches of its rounds, one after the
other; and the nonces of all workers' batches in so many rounds are each of the first
numbers, exactly once. -/
theorem nonce_partition (job : MineJob) (rounds : Nat)
    (hwords : rounds * job.devices.length * job.batchSize.toNat ≤ 2 ^ 64) :
    Set.BijOn (fun cell => (job.evaluatedNonce cell.1 cell.2.1 cell.2.2).toNat)
        (job.cells rounds)
        (Set.Iio (rounds * job.devices.length * job.batchSize.toNat)) ∧
      (∀ (batch : ForgeMatrixV2AcceleratorBatch) (round ordinal offset : Nat),
        batch.startNonce = job.roundStart ordinal round → batch.count = job.batchSize →
          offset < job.batchSize.toNat →
            batch.nonceAt offset = some (job.evaluatedNonce round ordinal offset)) ∧
      ∀ (totals : Int32 → UInt64) (events : List (MiningEvent job))
        (ordinal : Fin job.devices.length),
        ∃ count, Mining.batchStarts ordinal events (Mining.new job totals) =
          (List.range count).map (job.roundStart ordinal) := by
  have hnumber : ∀ cell ∈ job.cells rounds,
      (job.evaluatedNonce cell.1 cell.2.1 cell.2.2).toNat =
        job.nonceNumber cell.1 cell.2.1 cell.2.2 := fun cell hcell =>
    MineJob.toNat_evaluatedNonce
      ((MineJob.nonceNumber_lt hcell.1 hcell.2.1 hcell.2.2).trans_le hwords)
  refine ⟨⟨?mapsTo, ?injOn, ?surjOn⟩, ?batch, fun totals events ordinal =>
    Mining.batchStarts_eq ordinal events totals⟩
  case mapsTo =>
    intro cell hcell
    exact (hnumber cell hcell).trans_lt
      (MineJob.nonceNumber_lt hcell.1 hcell.2.1 hcell.2.2)
  case injOn =>
    intro cell hcell cell' hcell' heq
    replace heq : job.nonceNumber cell.1 cell.2.1 cell.2.2 =
        job.nonceNumber cell'.1 cell'.2.1 cell'.2.2 := by
      rw [← hnumber cell hcell, ← hnumber cell' hcell']
      exact heq
    obtain ⟨hround, hordinal, hoffset⟩ :=
      MineJob.digits_nonceNumber cell.1 hcell.2.1 hcell.2.2
    obtain ⟨hround', hordinal', hoffset'⟩ :=
      MineJob.digits_nonceNumber cell'.1 hcell'.2.1 hcell'.2.2
    rw [heq] at hround hordinal hoffset
    exact Prod.ext (hround.symm.trans hround')
      (Prod.ext (hordinal.symm.trans hordinal') (hoffset.symm.trans hoffset'))
  case surjOn =>
    intro number hlt
    obtain ⟨cell, hcell, heq⟩ := MineJob.exists_cell (Set.mem_Iio.mp hlt)
    exact ⟨cell, hcell, (hnumber cell hcell).trans heq⟩
  case batch =>
    intro batch round ordinal offset hstart hcount hoffset
    rw [ForgeMatrixV2AcceleratorBatch.nonceAt, if_pos (by rw [hcount]; exact hoffset), hstart,
      MineJob.evaluatedNonce]

theorem nonce_partition_sample :
    let job : MineJob := { devices := [0, 1, 2], batchSize := 4 }
    Set.BijOn (fun cell => (job.evaluatedNonce cell.1 cell.2.1 cell.2.2).toNat)
      (job.cells (2 ^ 60)) (Set.Iio (2 ^ 60 * 3 * 4)) :=
  (nonce_partition { devices := [0, 1, 2], batchSize := 4 } (2 ^ 60) (by decide)).1

end CommonFoundry
