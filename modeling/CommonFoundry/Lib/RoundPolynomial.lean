/-
# `CommonFoundry.Lib.RoundPolynomial` — one round of a sumcheck as polynomials

The sum of the products of two tables, with the first coordinate left free, is a
polynomial of degree two in that coordinate (`roundPolynomial`).  Three values at
`0`, `1` and `2` determine one (`throughValues`, `eq_of_eval_eq`).

Two different polynomials of degree two agree at no more than two points
(`encard_agree_le`): a message that is not the honest one survives at most two
challenges.
-/
import CommonFoundry.Lib.Multilinear
import Mathlib.Algebra.Polynomial.Roots
import Mathlib.Data.Set.Card
import Mathlib.Tactic.ComputeDegree

namespace Lib.Multilinear

open Finset Polynomial

variable {R : Type} [CommRing R]

/-- Every coordinate of a point fixed, the first one first. -/
def fixAll (t : Nat → R) (point : List R) : Nat → R := point.foldl fix t

theorem fixAll_append (t : Nat → R) (point : List R) (r : R) :
    fixAll t (point ++ [r]) = fix (fixAll t point) r := by
  rw [fixAll, List.foldl_append, List.foldl_cons, List.foldl_nil, fixAll]

/-- What is left after every coordinate is the extension's value. -/
theorem fixAll_zero : ∀ (point : List R) (t : Nat → R), fixAll t point 0 = extension t point
  | [], t => (extension_nil t).symm
  | r :: point, t => by
      rw [fixAll, List.foldl_cons, ← fixAll, fixAll_zero point, extension_cons]

/-! ## The honest polynomial of a round -/

/-- The line through two neighbouring entries. -/
noncomputable def line (low high : R) : R[X] := C low + C (high - low) * X

/-- The sum of the products with the first coordinate left free. -/
noncomputable def roundPolynomial (f g : Nat → R) (n : Nat) : R[X] :=
  ∑ i ∈ range n, line (f (2 * i)) (f (2 * i + 1)) * line (g (2 * i)) (g (2 * i + 1))

theorem eval_line (low high r : R) : (line low high).eval r = low + (high - low) * r := by
  simp [line]

theorem natDegree_line_le (low high : R) : (line low high).natDegree ≤ 1 := by
  rw [line]
  compute_degree

/-- At a challenge the polynomial is the sum over the tables fixed there. -/
theorem eval_roundPolynomial (f g : Nat → R) (n : Nat) (r : R) :
    (roundPolynomial f g n).eval r = ∑ i ∈ range n, fix f r i * fix g r i := by
  rw [roundPolynomial, eval_finsetSum]
  apply sum_congr rfl
  intro i _
  rw [eval_mul, eval_line, eval_line, fix, fix]

/-- The values at `0` and `1` add up to the whole sum. -/
theorem eval_roundPolynomial_ends (f g : Nat → R) (n : Nat) :
    (roundPolynomial f g n).eval 0 + (roundPolynomial f g n).eval 1
      = ∑ i ∈ range (2 * n), f i * g i := by
  rw [eval_roundPolynomial, eval_roundPolynomial, sum_range_pairs, ← sum_add_distrib]
  apply sum_congr rfl
  intro i _
  rw [fix, fix, fix, fix]
  ring

theorem natDegree_roundPolynomial_le (f g : Nat → R) (n : Nat) :
    (roundPolynomial f g n).natDegree ≤ 2 := by
  apply natDegree_sum_le_of_forall_le
  intro i _
  exact natDegree_mul_le_of_le (natDegree_line_le _ _) (natDegree_line_le _ _)

/-! ## The polynomial that was sent -/

/-- The polynomial of degree two with these values at `0`, `1` and `2`. -/
noncomputable def throughValues (half v₀ v₁ v₂ : R) : R[X] :=
  C v₀ + C (v₁ - v₀) * X + C ((v₂ - (v₁ + v₁) + v₀) * half) * (X * (X - 1))

theorem eval_throughValues (half v₀ v₁ v₂ r : R) :
    (throughValues half v₀ v₁ v₂).eval r = interpolate half v₀ v₁ v₂ r := by
  simp only [throughValues, interpolate, eval_add, eval_mul, eval_C, eval_X, eval_sub, eval_one]
  ring

theorem natDegree_throughValues_le (half v₀ v₁ v₂ : R) :
    (throughValues half v₀ v₁ v₂).natDegree ≤ 2 := by
  rw [throughValues]
  compute_degree

/-- The three values are the ones that were given. -/
theorem eval_throughValues_nodes {half : R} (hhalf : half * 2 = 1) (v₀ v₁ v₂ : R) :
    (throughValues half v₀ v₁ v₂).eval 0 = v₀ ∧ (throughValues half v₀ v₁ v₂).eval 1 = v₁ ∧
      (throughValues half v₀ v₁ v₂).eval 2 = v₂ := by
  refine ⟨?_, ?_, ?_⟩
  · rw [eval_throughValues, interpolate]
    ring
  · rw [eval_throughValues, interpolate]
    ring
  · rw [eval_throughValues, interpolate]
    linear_combination (v₂ - (v₁ + v₁) + v₀) * hhalf

/-! ## Where two of them agree -/

variable [IsDomain R]

/-- Different polynomials of degree two agree at no more than two points. -/
theorem encard_agree_le {p q : R[X]} (hp : p.natDegree ≤ 2) (hq : q.natDegree ≤ 2) (hne : p ≠ q) :
    {r | (p - q).IsRoot r}.encard ≤ 2 := by
  classical
  have hsub : p - q ≠ 0 := sub_ne_zero.mpr hne
  have hroots : {r | (p - q).IsRoot r} = ((p - q).roots.toFinset : Set R) := by
    ext r
    simp [hsub]
  have hcard : (p - q).roots.toFinset.card ≤ 2 := by
    calc (p - q).roots.toFinset.card ≤ Multiset.card (p - q).roots := Multiset.toFinset_card_le _
      _ ≤ (p - q).natDegree := card_roots' _
      _ ≤ max p.natDegree q.natDegree := natDegree_sub_le p q
      _ ≤ 2 := max_le hp hq
  rw [hroots, Set.encard_coe_eq_coe_finsetCard]
  exact_mod_cast hcard

/-- Three values determine a polynomial of degree two. -/
theorem eq_of_eval_eq {p q : R[X]} (hp : p.natDegree ≤ 2) (hq : q.natDegree ≤ 2)
    (htwo : (2 : R) ≠ 0) (h₀ : p.eval 0 = q.eval 0) (h₁ : p.eval 1 = q.eval 1)
    (h₂ : p.eval 2 = q.eval 2) : p = q := by
  by_contra hne
  have hthree : ({0, 1, 2} : Set R) ⊆ {r | (p - q).IsRoot r} := by
    rintro r (rfl | rfl | rfl)
    · simp [h₀]
    · simp [h₁]
    · simp [h₂]
  have honetwo : (1 : R) ≠ 2 := by
    intro h
    exact one_ne_zero (α := R) (by linear_combination -h)
  have hcard : ({0, 1, 2} : Set R).encard = 3 :=
    Set.encard_eq_three.mpr ⟨0, 1, 2, zero_ne_one, htwo.symm, honetwo, rfl⟩
  have hle := (Set.encard_le_encard hthree).trans (encard_agree_le hp hq hne)
  rw [hcard] at hle
  exact absurd hle (by decide)

end Lib.Multilinear
