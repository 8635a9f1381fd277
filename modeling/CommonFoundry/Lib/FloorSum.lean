/-
# `CommonFoundry.Lib.FloorSum` — the sum of the floors of a linear schedule

The floors `a * k / n` for `k` from 0 to `n` are summed in pairs: `k` and `n - k` give
`a` together, or one less where `n` does not divide `a * k` (`floor_add_floor`).  It
divides for as many `k` as the greatest common divisor says (`card_dvd_mul`), which is
the closed form `two_mul_sum_floor`.
-/
import Mathlib.Algebra.BigOperators.Intervals
import Mathlib.Algebra.BigOperators.Ring.Finset
import Mathlib.Data.Nat.Factorization.Basic
import Mathlib.Data.Nat.ModEq
import Mathlib.Tactic.Ring

namespace Lib

open Finset

/-- The two floors of a pair. -/
theorem floor_add_floor {a n k : Nat} (hn : 0 < n) (hk : k ≤ n) :
    a * k / n + a * (n - k) / n + (if n ∣ a * k then 0 else 1) = a := by
  have hsum : a * k + a * (n - k) = a * n := by rw [← Nat.mul_add, Nat.add_sub_cancel' hk]
  split
  case isTrue hdvd =>
      rw [Nat.add_zero, ← Nat.add_div_of_dvd_right hdvd, hsum, Nat.mul_div_cancel a hn]
  case isFalse hdvd =>
      have hfirst := Nat.div_add_mod (a * k) n
      have hsecond := Nat.div_add_mod (a * (n - k)) n
      have hlt := Nat.mod_lt (a * k) hn
      have hlt' := Nat.mod_lt (a * (n - k)) hn
      have hpos : 0 < a * k % n := Nat.pos_of_ne_zero fun h => hdvd (Nat.dvd_of_mod_eq_zero h)
      -- the two remainders make up one more `n`
      have htotal : n * (a * k / n + a * (n - k) / n) + (a * k % n + a * (n - k) % n) = n * a := by
        rw [Nat.mul_add, Nat.mul_comm n a, ← hsum]
        omega
      have hlow : n * (a * k / n + a * (n - k) / n) < n * a := by omega
      have hhigh : n * a < n * (a * k / n + a * (n - k) / n + 2) := by
        rw [Nat.mul_add n _ 2]
        omega
      have hlow := Nat.lt_of_mul_lt_mul_left hlow
      have hhigh := Nat.lt_of_mul_lt_mul_left hhigh
      omega

/-- Zero, and as many more as the greatest common divisor. -/
theorem card_dvd_mul {a n : Nat} (hn : 0 < n) :
    #{k ∈ range (n + 1) | n ∣ a * k} = Nat.gcd a n + 1 := by
  obtain ⟨g, a', n', hg, hcoprime, rfl, rfl⟩ := Nat.exists_coprime' (Nat.gcd_pos_of_pos_right a hn)
  have hgcd : Nat.gcd (a' * g) (n' * g) = g := by
    rw [Nat.gcd_mul_right, hcoprime.gcd_eq_one, Nat.one_mul]
  have hdvd : ∀ k, n' * g ∣ a' * g * k ↔ n' ∣ k := by
    intro k
    rw [Nat.mul_right_comm, Nat.mul_dvd_mul_iff_right hg]
    exact ⟨hcoprime.symm.dvd_of_dvd_mul_left, fun h => h.mul_left a'⟩
  have hsplit : {k ∈ range (n' * g + 1) | n' * g ∣ a' * g * k} =
      insert 0 {k ∈ range (n' * g + 1) | k ≠ 0 ∧ n' ∣ k} := by
    ext k
    rw [mem_insert, mem_filter, mem_filter, mem_range, hdvd]
    constructor
    · rintro ⟨hlt, h⟩
      by_cases hzero : k = 0
      · exact .inl hzero
      · exact .inr ⟨hlt, hzero, h⟩
    · rintro (rfl | ⟨hlt, _, h⟩)
      · exact ⟨Nat.succ_pos _, Nat.dvd_zero _⟩
      · exact ⟨hlt, h⟩
  have hnot : 0 ∉ {k ∈ range (n' * g + 1) | k ≠ 0 ∧ n' ∣ k} := fun h => (mem_filter.mp h).2.1 rfl
  have hn' : 0 < n' := Nat.pos_of_mul_pos_right hn
  rw [hsplit, card_insert_of_notMem hnot, Nat.card_multiples', hgcd, Nat.mul_div_cancel_left g hn']

/-- Twice the sum of the floors. -/
theorem two_mul_sum_floor {a n : Nat} (hn : 0 < n) :
    2 * ∑ k ∈ range (n + 1), a * k / n + n = a * n + a + Nat.gcd a n := by
  have hpairs : ∑ k ∈ range (n + 1),
      (a * k / n + a * (n - k) / n + (if n ∣ a * k then 0 else 1)) = (n + 1) * a := by
    rw [sum_congr rfl fun k hk => floor_add_floor hn (Nat.le_of_lt_succ (mem_range.mp hk)),
      sum_const, card_range, smul_eq_mul]
  have hflip : ∑ k ∈ range (n + 1), a * (n - k) / n = ∑ k ∈ range (n + 1), a * k / n :=
    sum_flip fun k => a * k / n
  have hcount : ∑ k ∈ range (n + 1), (if n ∣ a * k then 0 else 1) + (Nat.gcd a n + 1) = n + 1 := by
    rw [← card_dvd_mul hn, card_filter, ← sum_add_distrib]
    have hone : ∀ k ∈ range (n + 1),
        (if n ∣ a * k then 0 else 1) + (if n ∣ a * k then 1 else 0) = 1 := by
      intro k _
      split <;> rfl
    rw [sum_congr rfl hone, sum_const, card_range, smul_eq_mul, Nat.mul_one]
  rw [sum_add_distrib, sum_add_distrib, hflip, Nat.succ_mul, Nat.mul_comm n a] at hpairs
  omega

end Lib
