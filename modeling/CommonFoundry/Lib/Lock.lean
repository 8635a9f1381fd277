/-
# `CommonFoundry.Lib.Lock` — threads and a lock

Threads take and release one lock as they move from place to place: `inside` says at
which places a thread holds it, and `holderAfter` who holds it after a move.

`Exclusive` is mutual exclusion: the threads inside are the holder and nobody else.
`Exclusive.move` keeps it in every move, as long as the lock is only taken when it is
free; `Exclusive.outside` is what a critical section relies on.
-/
import Mathlib.Logic.Function.Basic
import Mathlib.Tactic.Common

namespace Lib

variable {T A : Type} {inside : A → Bool} {holder : Option T} {threads : T → A}
  {t : T} {place : A}

/-- Exactly the holder of the lock is inside. -/
def Exclusive (inside : A → Bool) (holder : Option T) (threads : T → A) : Prop :=
  ∀ t, inside (threads t) = true ↔ holder = some t

namespace Exclusive

/-- While one thread holds the lock, the others are outside. -/
theorem outside (h : Exclusive inside holder threads) (ht : holder = some t) {u : T}
    (hne : u ≠ t) : inside (threads u) = false := by
  cases hin : inside (threads u) with
  | false => rfl
  | true => exact absurd (Option.some.inj (((h u).mp hin).symm.trans ht)) hne

theorem outside_of_free (h : Exclusive inside holder threads) (hfree : holder = none) (t : T) :
    inside (threads t) = false := by
  cases hin : inside (threads t) with
  | false => rfl
  | true => exact absurd ((h t).mp hin) (by rw [hfree]; nofun)

end Exclusive

variable [DecidableEq T]

/-- Who holds the lock after `t` moved to a place: a thread that goes outside drops it. -/
def holderAfter (inside : A → Bool) (holder : Option T) (t : T) (place : A) : Option T :=
  if inside place then some t else if holder = some t then none else holder

/-- A thread may move anywhere outside, and inside if the lock is free or its own. -/
theorem Exclusive.move (h : Exclusive inside holder threads)
    (hfree : inside place = true → holder = none ∨ holder = some t) :
    Exclusive inside (holderAfter inside holder t place) (Function.update threads t place) := by
  intro u
  by_cases hu : u = t
  · subst hu
    rw [Function.update_self, holderAfter]
    cases inside place with
    | true => simp
    | false =>
        simp only [Bool.false_eq_true, if_false, false_iff]
        split <;> simp_all
  · rw [Function.update_of_ne hu, h u, holderAfter]
    cases hin : inside place with
    | true =>
        simp only [if_true, Option.some.injEq, eq_comm (a := t), hu, iff_false]
        rcases hfree hin with hnone | hself
        · rw [hnone]
          nofun
        · rw [hself, Option.some.injEq]
          exact Ne.symm hu
    | false =>
        simp only [Bool.false_eq_true, if_false]
        split
        · next hself => simp [hself, Ne.symm hu]
        · rfl

end Lib
