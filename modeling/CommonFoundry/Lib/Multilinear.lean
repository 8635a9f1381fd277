/-
# `CommonFoundry.Lib.Multilinear` — tables as multilinear functions

A table of `2 ^ n` values is a function on the corners of the cube of dimension
`n`: bit `k` of an index is coordinate `k`, the lowest bit first.  It has one
extension that is linear in each coordinate.

| | |
| :-- | :-- |
| `fix t r` | the table with its first coordinate fixed at `r` |
| `basis point i` | how much index `i` counts at a point |
| `extension t point` | the extension's value, the weighted sum of the table |

Fixing the coordinates of a point one after another gives the extension there
(`extension_cons`).  The coordinates of a point may be split anywhere, and the sum
taken over either block first (`extension_append`, `extension_append'`).

The last section is one round of the sumcheck of a product: the three values of the
round's polynomial at `0`, `1` and `2`, the first two of which add up to the sum of
the products (`ends_sum`), and which give its value anywhere (`interpolate_ends`).
Only `2` has to be invertible, so everything holds over a commutative ring.
-/
import Mathlib.Algebra.BigOperators.Intervals
import Mathlib.Algebra.BigOperators.Ring.Finset
import Mathlib.Tactic.LinearCombination
import Mathlib.Tactic.Ring
import Mathlib.Tactic.Common

namespace Lib.Multilinear

open Finset

variable {R : Type} [CommRing R]

/-- The table with its first coordinate fixed. -/
def fix (t : Nat → R) (r : R) (i : Nat) : R := t (2 * i) + (t (2 * i + 1) - t (2 * i)) * r

/-- How much the value at an index counts at a point. -/
def basis : List R → Nat → R
  | [], _ => 1
  | r :: point, i => (if i % 2 = 1 then r else 1 - r) * basis point (i / 2)

/-- The value of the table's extension at a point. -/
def extension (t : Nat → R) (point : List R) : R :=
  ∑ i ∈ range (2 ^ point.length), basis point i * t i

/-! ## Sums over blocks of indices -/

theorem sum_range_mul (f : Nat → R) (m : Nat) : ∀ n,
    ∑ i ∈ range (m * n), f i = ∑ y ∈ range n, ∑ x ∈ range m, f (m * y + x)
  | 0 => by simp
  | n + 1 => by
      rw [Nat.mul_succ, sum_range_add, sum_range_mul f m n, sum_range_succ]

theorem sum_range_pairs (f : Nat → R) (n : Nat) :
    ∑ i ∈ range (2 * n), f i = ∑ i ∈ range n, (f (2 * i) + f (2 * i + 1)) := by
  rw [sum_range_mul]
  apply sum_congr rfl
  intro i _
  rw [sum_range_succ, sum_range_one, Nat.add_zero]

/-- A sum of products of weighted sums, with the weights outside. -/
theorem sum_mul_weighted (a b : Nat → Nat → R) (u v : Nat → R) (rows inner cols : Nat) :
    ∑ k ∈ range inner, (∑ r ∈ range rows, a r k * u r) * ∑ c ∈ range cols, b k c * v c
      = ∑ r ∈ range rows, u r * ∑ c ∈ range cols, v c * ∑ k ∈ range inner, a r k * b k c := by
  simp only [sum_mul_sum]
  rw [sum_comm]
  apply sum_congr rfl
  intro r _
  rw [sum_comm, mul_sum]
  apply sum_congr rfl
  intro c _
  rw [mul_sum, mul_sum]
  apply sum_congr rfl
  intro k _
  ring

/-! ## Weights -/

theorem basis_singleton_zero (r : R) : basis [r] 0 = 1 - r := by simp [basis]

theorem basis_singleton_one (r : R) : basis [r] 1 = r := by simp [basis]

theorem basis_append : ∀ (p q : List R) (i : Nat),
    basis (p ++ q) i = basis p (i % 2 ^ p.length) * basis q (i / 2 ^ p.length)
  | [], q, i => by simp [basis]
  | r :: p, q, i => by
      have hbit : i % (2 * 2 ^ p.length) % 2 = i % 2 := Nat.mod_mul_right_mod i 2 _
      have hrest : i % (2 * 2 ^ p.length) / 2 = i / 2 % 2 ^ p.length :=
        Nat.mod_mul_right_div_self i 2 _
      have hdiv : i / (2 * 2 ^ p.length) = i / 2 / 2 ^ p.length :=
        (Nat.div_div_eq_div_mul i 2 _).symm
      rw [List.cons_append, basis, basis_append p q, List.length_cons, Nat.pow_succ',
        basis, hbit, hrest, hdiv, mul_assoc]

theorem basis_block (p q : List R) {x : Nat} (y : Nat) (hx : x < 2 ^ p.length) :
    basis (p ++ q) (2 ^ p.length * y + x) = basis p x * basis q y := by
  have hmod : (2 ^ p.length * y + x) % 2 ^ p.length = x := by
    rw [Nat.mul_add_mod, Nat.mod_eq_of_lt hx]
  have hdiv : (2 ^ p.length * y + x) / 2 ^ p.length = y := by
    rw [Nat.mul_add_div (Nat.two_pow_pos _), Nat.div_eq_of_lt hx, Nat.add_zero]
  rw [basis_append, hmod, hdiv]

/-! ## The extension -/

theorem extension_nil (t : Nat → R) : extension t [] = t 0 := by
  simp [extension, basis]

theorem extension_cons (t : Nat → R) (r : R) (point : List R) :
    extension t (r :: point) = extension (fix t r) point := by
  rw [extension, List.length_cons, Nat.pow_succ', sum_range_pairs, extension]
  apply sum_congr rfl
  intro i _
  have heven : 2 * i % 2 = 0 := Nat.mul_mod_right 2 i
  have hodd : (2 * i + 1) % 2 = 1 := by omega
  have hhalf : 2 * i / 2 = i := by omega
  have hhalf' : (2 * i + 1) / 2 = i := by omega
  simp only [basis, heven, hodd, hhalf, hhalf', zero_ne_one, if_false, if_true, fix]
  ring

theorem extension_congr {t t' : Nat → R} {point : List R}
    (h : ∀ i < 2 ^ point.length, t i = t' i) : extension t point = extension t' point := by
  apply sum_congr rfl
  intro i hi
  rw [h i (mem_range.mp hi)]

/-- The first coordinates inside, the last outside. -/
theorem extension_append (t : Nat → R) (p q : List R) :
    extension t (p ++ q)
      = ∑ y ∈ range (2 ^ q.length),
          basis q y * ∑ x ∈ range (2 ^ p.length), basis p x * t (2 ^ p.length * y + x) := by
  rw [extension, List.length_append, Nat.pow_add, sum_range_mul]
  apply sum_congr rfl
  intro y _
  rw [mul_sum]
  apply sum_congr rfl
  intro x hx
  rw [basis_block p q y (mem_range.mp hx)]
  ring

/-- The last coordinates inside, the first outside. -/
theorem extension_append' (t : Nat → R) (p q : List R) :
    extension t (p ++ q)
      = ∑ x ∈ range (2 ^ p.length),
          basis p x * ∑ y ∈ range (2 ^ q.length), basis q y * t (2 ^ p.length * y + x) := by
  rw [extension_append]
  simp only [mul_sum]
  rw [sum_comm]
  apply sum_congr rfl
  intro x _
  apply sum_congr rfl
  intro y _
  ring

/-! ## At a corner -/

/-- The corner with an index's `n` low bits. -/
def corner (n i : Nat) : List R := (List.range n).map fun k => if i.testBit k then 1 else 0

theorem corner_succ (n i : Nat) :
    (corner (n + 1) i : List R) = (if i % 2 = 1 then 1 else 0) :: corner n (i / 2) := by
  rw [corner, List.range_succ_eq_map, List.map_cons, List.map_map, corner]
  congr 1
  · simp [Nat.testBit_zero]
  · apply List.map_congr_left
    intro k _
    simp [Nat.testBit_succ]

/-- At a corner only the corner's own index counts. -/
theorem basis_corner : ∀ (n : Nat) {i j : Nat}, i < 2 ^ n → j < 2 ^ n →
    basis (corner n i : List R) j = if j = i then 1 else 0
  | 0, i, j, hi, hj => by
      have hij : j = i := by omega
      simp [corner, basis, hij]
  | n + 1, i, j, hi, hj => by
      rw [Nat.pow_succ'] at hi hj
      rw [corner_succ, basis, basis_corner n (by omega : i / 2 < 2 ^ n) (by omega)]
      by_cases hdiv : j / 2 = i / 2
      · rcases Nat.mod_two_eq_zero_or_one i with hi2 | hi2 <;>
          rcases Nat.mod_two_eq_zero_or_one j with hj2 | hj2 <;>
            simp [hi2, hj2, hdiv] <;> omega
      · have hne : j ≠ i := by
          intro h
          exact hdiv (by rw [h])
        simp [hdiv, hne]

/-- A sum weighted by a corner is the corner's own term. -/
theorem sum_basis_corner (n : Nat) {i : Nat} (hi : i < 2 ^ n) (t : Nat → R) :
    ∑ j ∈ range (2 ^ n), basis (corner n i) j * t j = t i := by
  rw [sum_eq_single i]
  · rw [basis_corner n hi hi, if_pos rfl, one_mul]
  · intro j hj hne
    rw [basis_corner n hi (mem_range.mp hj), if_neg hne, zero_mul]
  · intro hnot
    exact absurd (mem_range.mpr hi) hnot

/-! ## One round of the sumcheck of a product -/

/-- The round's polynomial at `0`: the products of the even entries. -/
def atZero (f g : Nat → R) (n : Nat) : R := ∑ i ∈ range n, f (2 * i) * g (2 * i)

/-- At `1`: the products of the odd entries. -/
def atOne (f g : Nat → R) (n : Nat) : R := ∑ i ∈ range n, f (2 * i + 1) * g (2 * i + 1)

/-- At `2`: the products of the entries continued in a line. -/
def atTwo (f g : Nat → R) (n : Nat) : R :=
  ∑ i ∈ range n,
    (f (2 * i + 1) + f (2 * i + 1) - f (2 * i)) * (g (2 * i + 1) + g (2 * i + 1) - g (2 * i))

/-- The polynomial of degree two with three given values, at a point. -/
def interpolate (half v₀ v₁ v₂ r : R) : R :=
  v₀ + (v₁ - v₀) * r + (v₂ - (v₁ + v₁) + v₀) * r * (r - 1) * half

theorem ends_sum (f g : Nat → R) (n : Nat) :
    atZero f g n + atOne f g n = ∑ i ∈ range (2 * n), f i * g i := by
  rw [sum_range_pairs, sum_add_distrib, atZero, atOne]

/-- The three values determine the sum of the products at every challenge. -/
theorem interpolate_ends {half : R} (hhalf : half * 2 = 1) (f g : Nat → R) (r : R) : ∀ n,
    interpolate half (atZero f g n) (atOne f g n) (atTwo f g n) r
      = ∑ i ∈ range n, fix f r i * fix g r i
  | 0 => by simp [interpolate, atZero, atOne, atTwo]
  | n + 1 => by
      have ih := interpolate_ends hhalf f g r n
      rw [sum_range_succ, ← ih]
      simp only [interpolate, atZero, atOne, atTwo, sum_range_succ, fix]
      linear_combination
        ((f (2 * n + 1) - f (2 * n)) * (g (2 * n + 1) - g (2 * n)) * r * (r - 1)) * hhalf

end Lib.Multilinear
