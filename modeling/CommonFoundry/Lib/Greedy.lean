/-
# `CommonFoundry.Lib.Greedy` — the largest first

Numbers are taken from the front of a list until they reach an amount (`countUntil`).  In a
list that descends, the first numbers have the largest sum among as many numbers of the list
(`sum_le_sum_take`).  So taking the largest first reaches the amount if anything does, within
any limit on the count, and with the fewest numbers (`sum_take_countUntil_iff`,
`countUntil_le`).
-/
import Mathlib.Algebra.GroupWithZero.Nat
import Mathlib.Algebra.Order.BigOperators.Group.List
import Mathlib.Algebra.Order.Group.Nat
import Mathlib.Data.List.Perm.Subperm
import Mathlib.Tactic.Common

namespace Lib

theorem sum_take_mono {l : List Nat} {m n : Nat} (h : m ≤ n) :
    (l.take m).sum ≤ (l.take n).sum := by
  have hsub : (l.take m).Sublist (l.take n) := by
    rw [← Nat.min_eq_left h, ← List.take_take]
    exact List.take_sublist _ _
  exact hsub.sum_le_sum fun _ _ => Nat.zero_le _

/-- In a descending list a larger number in front makes no first sum smaller. -/
theorem sum_take_le_cons {a : Nat} {l : List Nat} (h : (a :: l).Pairwise (· ≥ ·)) (n : Nat) :
    (l.take n).sum ≤ ((a :: l).take n).sum := by
  induction l generalizing a n with
  | nil =>
      rw [List.take_nil]
      exact Nat.zero_le _
  | cons b l ih =>
      obtain ⟨hfirst, hrest⟩ := List.pairwise_cons.mp h
      cases n with
      | zero => exact le_refl _
      | succ n =>
          rw [List.take_succ_cons, List.take_succ_cons, List.sum_cons, List.sum_cons]
          exact Nat.add_le_add (hfirst b List.mem_cons_self) (ih hrest n)

theorem sum_le_sum_take_of_sublist {l s : List Nat} (hl : l.Pairwise (· ≥ ·)) (h : s.Sublist l) :
    s.sum ≤ (l.take s.length).sum := by
  induction h with
  | slnil => exact le_refl _
  | cons a _ ih => exact (ih (List.pairwise_cons.mp hl).2).trans (sum_take_le_cons hl _)
  | cons_cons a _ ih =>
      rw [List.length_cons, List.take_succ_cons, List.sum_cons, List.sum_cons]
      exact Nat.add_le_add_left (ih (List.pairwise_cons.mp hl).2) a

/-- No numbers of a descending list have a larger sum than as many first ones. -/
theorem sum_le_sum_take {l s : List Nat} (hl : l.Pairwise (· ≥ ·)) (h : s.Subperm l) :
    s.sum ≤ (l.take s.length).sum := by
  obtain ⟨s', hperm, hsub⟩ := h
  rw [← hperm.sum_eq, ← hperm.length_eq]
  exact sum_le_sum_take_of_sublist hl hsub

/-- How many numbers are taken until they reach the amount, or all of them. -/
def countUntil (amount : Nat) : List Nat → Nat
  | [] => 0
  | number :: rest => if amount ≤ number then 1 else countUntil (amount - number) rest + 1

theorem countUntil_le_length (amount : Nat) (l : List Nat) : countUntil amount l ≤ l.length := by
  induction l generalizing amount with
  | nil => exact le_refl _
  | cons number rest ih =>
      rw [countUntil, List.length_cons]
      split
      · exact Nat.le_add_left _ _
      · exact Nat.succ_le_succ (ih _)

/-- One number less does not reach the amount. -/
theorem sum_take_lt_of_lt {amount count : Nat} {l : List Nat} (hamount : 0 < amount)
    (h : count < countUntil amount l) : (l.take count).sum < amount := by
  induction l generalizing amount count with
  | nil => cases h
  | cons number rest ih =>
      rw [countUntil] at h
      cases count with
      | zero => exact hamount
      | succ count =>
          rw [List.take_succ_cons, List.sum_cons]
          split at h
          · omega
          · have hrest := ih (by omega) (Nat.lt_of_succ_lt_succ h)
            omega

/-- What is taken reaches the amount if all of it does. -/
theorem le_sum_take_countUntil {amount : Nat} {l : List Nat} (h : amount ≤ l.sum) :
    amount ≤ (l.take (countUntil amount l)).sum := by
  induction l generalizing amount with
  | nil => exact h
  | cons number rest ih =>
      rw [List.sum_cons] at h
      rw [countUntil]
      split
      · next hfirst =>
          rw [List.take_succ_cons, List.sum_cons]
          exact hfirst.trans (Nat.le_add_right _ _)
      · have hrest := ih (show amount - number ≤ rest.sum by omega)
        rw [List.take_succ_cons, List.sum_cons]
        omega

/-- Of the first `limit` numbers of a descending list, those taken reach the amount just if
some `limit` numbers of the list do. -/
theorem sum_take_countUntil_iff {amount limit : Nat} {l : List Nat} (hl : l.Pairwise (· ≥ ·)) :
    amount ≤ ((l.take limit).take (countUntil amount (l.take limit))).sum ↔
      ∃ s : List Nat, s.Subperm l ∧ s.length ≤ limit ∧ amount ≤ s.sum := by
  constructor
  · intro h
    refine ⟨_, ((List.take_sublist _ _).trans (List.take_sublist _ _)).subperm, ?_, h⟩
    rw [List.length_take, List.length_take]
    omega
  · rintro ⟨s, hsub, hlength, hreach⟩
    refine le_sum_take_countUntil (hreach.trans ((sum_le_sum_take hl hsub).trans ?_))
    exact sum_take_mono hlength

/-- No fewer numbers of the list reach it. -/
theorem countUntil_le {amount : Nat} (limit : Nat) {l s : List Nat} (hl : l.Pairwise (· ≥ ·))
    (hamount : 0 < amount) (hsub : s.Subperm l) (hreach : amount ≤ s.sum) :
    countUntil amount (l.take limit) ≤ s.length := by
  by_contra hless
  have hlt := sum_take_lt_of_lt hamount (not_le.mp hless)
  have hlimit := countUntil_le_length amount (l.take limit)
  rw [List.length_take] at hlimit
  rw [List.take_take, Nat.min_eq_left (by omega)] at hlt
  exact absurd (hreach.trans (sum_le_sum_take hl hsub)) (not_le.mpr hlt)

end Lib
