/-
# `CommonFoundry.Lib.FirstGreatest` — the first of the heaviest

A selection rule that is met wherever candidates arrive one by one and the
current choice is replaced only by a strictly better one: what is selected is
always the earliest of the candidates with the greatest weight.

`FirstGreatest weight order k` says so of `k` and the candidates in the order
of their arrival.  The two rules for a new arrival are all that an incremental
maintainer needs, and `FirstGreatest.unique` says that nothing else is selected.
-/
import Mathlib.Order.Lattice
import Mathlib.Tactic.Common

namespace Lib

variable {K W : Type} [LinearOrder W]

/-- No candidate is heavier than `k`, and those before it are all lighter. -/
structure FirstGreatest (weight : K → W) (order : List K) (k : K) : Prop where
  le : ∀ j ∈ order, weight j ≤ weight k
  first : ∃ pre post, order = pre ++ k :: post ∧ ∀ j ∈ pre, weight j < weight k

namespace FirstGreatest

variable {weight weight' : K → W} {order : List K} {k j : K}

theorem singleton : FirstGreatest weight [k] k where
  le j hj := by rw [List.mem_singleton.mp hj]
  first := ⟨[], [], rfl, fun _ hj => by cases hj⟩

theorem mem (h : FirstGreatest weight order k) : k ∈ order := by
  obtain ⟨pre, post, rfl, _⟩ := h.first
  exact List.mem_append_right _ List.mem_cons_self

/-- Only the weights of the candidates matter. -/
theorem congr (h : FirstGreatest weight order k) (heq : ∀ j ∈ order, weight' j = weight j) :
    FirstGreatest weight' order k := by
  refine ⟨fun j hj => ?_, ?_⟩
  · rw [heq j hj, heq k h.mem]
    exact h.le j hj
  · obtain ⟨pre, post, horder, hpre⟩ := h.first
    refine ⟨pre, post, horder, fun j hj => ?_⟩
    rw [heq j (horder ▸ List.mem_append_left _ hj), heq k h.mem]
    exact hpre j hj

/-- A heavier arrival is selected. -/
theorem snoc_of_lt (h : FirstGreatest weight order k) (hlt : weight k < weight j) :
    FirstGreatest weight (order ++ [j]) j := by
  refine ⟨fun i hi => ?_, order, [], rfl, fun i hi => lt_of_le_of_lt (h.le i hi) hlt⟩
  rcases List.mem_append.mp hi with hi | hi
  · exact le_trans (h.le i hi) (le_of_lt hlt)
  · rw [List.mem_singleton.mp hi]

/-- Any other arrivals change nothing. -/
theorem append_of_le (h : FirstGreatest weight order k) {arrivals : List K}
    (hle : ∀ j ∈ arrivals, weight j ≤ weight k) : FirstGreatest weight (order ++ arrivals) k := by
  obtain ⟨pre, post, horder, hpre⟩ := h.first
  refine ⟨fun i hi => ?_, pre, post ++ arrivals, by rw [horder]; simp, hpre⟩
  rcases List.mem_append.mp hi with hi | hi
  · exact h.le i hi
  · exact hle i hi

/-- Nothing else is selected. -/
theorem unique (h : FirstGreatest weight order k) (h' : FirstGreatest weight order j) : j = k := by
  have heq : weight j = weight k := le_antisymm (h.le j h'.mem) (h'.le k h.mem)
  obtain ⟨pre, post, horder, hpre⟩ := h.first
  obtain ⟨pre', post', horder', hpre'⟩ := h'.first
  rcases List.append_eq_append_iff.mp (horder.symm.trans horder') with
    ⟨between, hpre'Eq, hrest⟩ | ⟨between, hpreEq, hrest⟩
  · cases between with
    | nil => exact (List.cons.inj hrest).1.symm
    | cons i between =>
        obtain rfl := (List.cons.inj hrest).1
        exact absurd (hpre' k (hpre'Eq ▸ List.mem_append_right _ List.mem_cons_self))
          (not_lt_of_ge (le_of_eq heq))
  · cases between with
    | nil => exact (List.cons.inj hrest).1
    | cons i between =>
        obtain rfl := (List.cons.inj hrest).1
        exact absurd (hpre j (hpreEq ▸ List.mem_append_right _ List.mem_cons_self))
          (not_lt_of_ge (le_of_eq heq.symm))

/-- A choice that is given up for a later arrival was lighter. -/
theorem lt_of_ne (h : FirstGreatest weight order k) {arrivals : List K}
    (hlater : FirstGreatest weight (order ++ arrivals) j) (hne : j ≠ k) : weight k < weight j := by
  refine lt_of_le_of_ne (hlater.le k (List.mem_append_left _ h.mem)) fun heq => hne ?_
  refine unique (h.append_of_le fun i hi => ?_) hlater
  rw [heq]
  exact hlater.le i (List.mem_append_right _ hi)

end FirstGreatest

end Lib
