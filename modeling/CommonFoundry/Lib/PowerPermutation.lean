/-
# `CommonFoundry.Lib.PowerPermutation` — powers that permute a finite field

Raising to a power is a bijection of a finite field when the exponent shares no divisor with
the order of the multiplicative group: of the units by Lagrange, and zero is the one element
whose power is zero.
-/
import Mathlib.Algebra.Field.ZMod
import Mathlib.GroupTheory.OrderOfElement
import Mathlib.SetTheory.Cardinal.Finite

namespace Lib

theorem pow_injective_of_coprime {K : Type} [Field K] [Finite K] {n : Nat} (hn : n ≠ 0)
    (hcoprime : (Nat.card K - 1).Coprime n) : Function.Injective fun x : K => x ^ n := by
  have hunits : (Nat.card Kˣ).Coprime n := by rwa [Nat.card_units]
  intro x y hxy
  have hpow : x ^ n = y ^ n := hxy
  by_cases hx : x = 0
  · rw [hx, zero_pow hn] at hpow
    rw [hx, (pow_eq_zero_iff hn).mp hpow.symm]
  · have hy : y ≠ 0 := by
      rintro rfl
      rw [zero_pow hn] at hpow
      exact hx ((pow_eq_zero_iff hn).mp hpow)
    have hsame : Units.mk0 x hx ^ n = Units.mk0 y hy ^ n := Units.ext hpow
    exact congrArg Units.val (hunits.pow_left_bijective.injective hsame)

/-- Modulo a prime that leaves two when divided by three, cubing is a bijection. -/
theorem cube_bijective {p : Nat} [Fact p.Prime] (hp : p % 3 = 2) :
    Function.Bijective fun x : ZMod p => x ^ 3 := by
  have hcoprime : (Nat.card (ZMod p) - 1).Coprime 3 := by
    rw [Nat.card_zmod, Nat.coprime_comm, Nat.Prime.coprime_iff_not_dvd Nat.prime_three]
    omega
  exact Finite.injective_iff_bijective.mp (pow_injective_of_coprime (by decide) hcoprime)

end Lib
