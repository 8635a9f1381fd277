/-
# `Lib.Schedule` — systems that move by events

A system of several parties is a partial function of an event and a state:
`none` says that the event is not enabled.  A schedule is a list of events, and
`runEvents` performs it.

Two rules carry proofs over schedules: an invariant that every event keeps holds
at the end (`runEvents_inv`), and a measure that every event decreases bounds the
length of a schedule (`runEvents_measure`).  The third lemma is for states made
of components: what changing one of them does to a sum over all.
-/
import Mathlib.Algebra.BigOperators.Group.Finset.Piecewise
import Mathlib.Algebra.Order.BigOperators.Group.Finset
import Mathlib.Tactic.Common

namespace Lib

section

variable {σ ε : Type} {step : ε → σ → Option σ}

/-- The state after the events, if each is enabled when its turn comes. -/
def runEvents (step : ε → σ → Option σ) : List ε → σ → Option σ
  | [], state => some state
  | event :: rest, state => (step event state).bind (runEvents step rest)

theorem runEvents_cons {event : ε} {rest : List ε} {state after : σ} :
    runEvents step (event :: rest) state = some after ↔
      ∃ middle, step event state = some middle ∧ runEvents step rest middle = some after :=
  Option.bind_eq_some_iff

/-- What every event keeps, every schedule keeps. -/
theorem runEvents_inv (Inv : σ → Prop)
    (hstep : ∀ {event state after}, Inv state → step event state = some after → Inv after)
    {events : List ε} {state after : σ} (h : Inv state)
    (hrun : runEvents step events state = some after) : Inv after := by
  induction events generalizing state with
  | nil =>
      obtain rfl := Option.some.inj hrun
      exact h
  | cons event rest ih =>
      obtain ⟨middle, hmiddle, hrest⟩ := runEvents_cons.mp hrun
      exact ih (hstep h hmiddle) hrest

/-- A measure that every event decreases bounds the length of a schedule. -/
theorem runEvents_measure {Inv : σ → Prop} {measure : σ → Nat}
    (hinv : ∀ {event state after}, Inv state → step event state = some after → Inv after)
    (hstep : ∀ {event state after}, Inv state → step event state = some after →
      measure after < measure state)
    {events : List ε} {state after : σ} (h : Inv state)
    (hrun : runEvents step events state = some after) :
    events.length + measure after ≤ measure state := by
  induction events generalizing state with
  | nil =>
      obtain rfl := Option.some.inj hrun
      exact (Nat.zero_add _).le
  | cons event rest ih =>
      obtain ⟨middle, hmiddle, hrest⟩ := runEvents_cons.mp hrun
      have hrest := ih (hinv h hmiddle) hrest
      have hfirst := hstep h hmiddle
      rw [List.length_cons]
      omega

end

/-- A sum over all components, when one of them changes. -/
theorem sum_update {ι A : Type} [Fintype ι] [DecidableEq ι] (count : A → Nat) (parts : ι → A)
    (i : ι) (part : A) :
    ∑ j, count (Function.update parts i part j) + count (parts i) =
      ∑ j, count (parts j) + count part := by
  have hothers : ∑ j ∈ Finset.univ.erase i, count (Function.update parts i part j) =
      ∑ j ∈ Finset.univ.erase i, count (parts j) :=
    Finset.sum_congr rfl fun j hj => by rw [Function.update_of_ne (Finset.ne_of_mem_erase hj)]
  have hnew := Finset.add_sum_erase Finset.univ
    (fun j => count (Function.update parts i part j)) (Finset.mem_univ i)
  have hold := Finset.add_sum_erase Finset.univ (fun j => count (parts j)) (Finset.mem_univ i)
  simp only [Function.update_self] at hnew
  omega

end Lib
