/-
# `CommonFoundry.Consensus.Goldilocks` — the field of the sumcheck

`Goldilocks` of `cmfd-consensus/src/sumcheck.rs`: a `u64` below
`2 ^ 64 - 2 ^ 32 + 1`.  Every constructor of the source keeps the bound, so the
structure carries it.  `toField` reads an element as a residue, and every operation
is the residues' own.

An honest sumcheck divides by `2` alone.  That the modulus is prime
(`goldilocksModulus_prime`, by Lucas's test with the generator `7`) is what bounds the
roots of a polynomial over the residues.
-/
import CommonFoundry.Lib.Outcome
import CommonFoundry.Lib.Bytes
import Mathlib.Data.ZMod.Basic
import Mathlib.NumberTheory.LucasPrimality
import Mathlib.Tactic.NormNum.Prime
import Mathlib.Tactic.ReduceModChar
import Mathlib.Tactic.Ring

namespace CommonFoundry.Consensus

open Lib

/-- `GOLDILOCKS_MODULUS`. -/
def goldilocksModulus : Nat := 0xffff_ffff_0000_0001

theorem modulus_pos : 0 < goldilocksModulus := by decide

theorem modulus_lt : goldilocksModulus < 2 ^ 64 := by decide

/-- `SumcheckError`. -/
inductive SumcheckError where
  /-- `"matrix dimensions must be nonzero powers of two"` -/
  | invalidDimensions
  /-- `"matrix input length does not match its dimensions"` -/
  | invalidLength
  /-- `"toy sumcheck is capped at 4096 elements per matrix"` -/
  | productionDisabled
  /-- `"matrix commitment does not match the verifier-owned table"` -/
  | commitment
  /-- `"proof protocol version mismatch"` -/
  | protocolVersion
  /-- `"proof contains a noncanonical Goldilocks field element"` -/
  | nonCanonicalField
  /-- `"proof has the wrong number of sumcheck rounds"` -/
  | roundCount
  /-- `"sumcheck round does not preserve the claimed sum"` -/
  | roundClaim
  /-- `"terminal product claim is invalid"` -/
  | terminalClaim
  /-- `"claimed multilinear opening does not match the verifier-owned table"` -/
  | opening
  /-- `"matrix multiplication overflowed the reference i64 representation"` -/
  | arithmeticOverflow
  deriving DecidableEq

/-- `Goldilocks(u64)`, with the bound that every constructor keeps. -/
structure Goldilocks where
  value : UInt64
  lt_modulus : value.toNat < goldilocksModulus
  deriving DecidableEq

namespace Goldilocks

/-- The element with a canonical value. -/
def ofLt (n : Nat) (h : n < goldilocksModulus) : Goldilocks :=
  ⟨UInt64.ofNat n, by rwa [UInt64.toNat_ofNat_of_lt' (Nat.lt_trans h modulus_lt)]⟩

/-- The element with the value's remainder. -/
def reduce (n : Nat) : Goldilocks := ofLt (n % goldilocksModulus) (Nat.mod_lt _ modulus_pos)

/-- `Goldilocks::ZERO`. -/
def zero : Goldilocks := ofLt 0 (by decide)

/-- `Goldilocks::ONE`. -/
def one : Goldilocks := ofLt 1 (by decide)

/-- `Goldilocks::INV_TWO`. -/
def invTwo : Goldilocks := ofLt 0x7fff_ffff_8000_0001 (by decide)

/-- `Goldilocks::canonical`. -/
def canonical (value : UInt64) : Outcome SumcheckError Goldilocks :=
  if h : value.toNat < goldilocksModulus then
    .ok ⟨value, h⟩
  else
    Outcome.fail .nonCanonicalField

/-- `Goldilocks::from_signed`. -/
def fromSigned (value : Int64) : Goldilocks :=
  if 0 ≤ value.toInt then
    reduce value.toInt.toNat
  else
    -- `unsigned_abs` of the smallest `i64` does not overflow a `u64`
    let magnitude := value.toInt.natAbs % goldilocksModulus
    if h : magnitude = 0 then
      zero
    else
      ofLt (goldilocksModulus - magnitude)
        (Nat.sub_lt modulus_pos (Nat.pos_of_ne_zero h))

/-- `Goldilocks::add`, over `u128`. -/
def add (self rhs : Goldilocks) : Goldilocks := reduce (self.value.toNat + rhs.value.toNat)

/-- `Goldilocks::sub`. -/
def sub (self rhs : Goldilocks) : Goldilocks :=
  if h : rhs.value.toNat ≤ self.value.toNat then
    ofLt (self.value.toNat - rhs.value.toNat) (Nat.lt_of_le_of_lt (Nat.sub_le _ _) self.lt_modulus)
  else
    ofLt (goldilocksModulus - (rhs.value.toNat - self.value.toNat))
      (Nat.sub_lt modulus_pos (Nat.sub_pos_of_lt (Nat.lt_of_not_le h)))

/-- `Goldilocks::mul`, over `u128`. -/
def mul (self rhs : Goldilocks) : Goldilocks := reduce (self.value.toNat * rhs.value.toNat)

/-- `Goldilocks::double`. -/
def double (self : Goldilocks) : Goldilocks := self.add self

/-- `Goldilocks::encode`. -/
def encode (self : Goldilocks) : List UInt8 := leBytes64 self.value

/-! ## The residue of an element -/

/-- The element as a residue. -/
def toField (x : Goldilocks) : ZMod goldilocksModulus := (x.value.toNat : ZMod goldilocksModulus)

@[simp] theorem toField_ofLt {n : Nat} (h : n < goldilocksModulus) :
    (ofLt n h).toField = (n : ZMod goldilocksModulus) := by
  rw [toField, ofLt, UInt64.toNat_ofNat_of_lt' (Nat.lt_trans h modulus_lt)]

@[simp] theorem toField_reduce (n : Nat) :
    (reduce n).toField = (n : ZMod goldilocksModulus) := by
  rw [reduce, toField_ofLt, ZMod.natCast_mod]

@[simp] theorem toField_zero : zero.toField = 0 := by
  rw [zero, toField_ofLt, Nat.cast_zero]

@[simp] theorem toField_one : one.toField = 1 := by
  rw [one, toField_ofLt, Nat.cast_one]

theorem toField_invTwo : invTwo.toField * 2 = 1 := by
  rw [invTwo, toField_ofLt]
  exact (ZMod.natCast_eq_natCast_iff (0x7fff_ffff_8000_0001 * 2) 1 goldilocksModulus).mpr rfl

theorem toField_injective {x y : Goldilocks} (h : x.toField = y.toField) : x = y := by
  have hmod : x.value.toNat % goldilocksModulus = y.value.toNat % goldilocksModulus :=
    (ZMod.natCast_eq_natCast_iff' _ _ _).mp h
  rw [Nat.mod_eq_of_lt x.lt_modulus, Nat.mod_eq_of_lt y.lt_modulus] at hmod
  have hvalue : x.value = y.value := UInt64.toNat_inj.mp hmod
  cases x
  cases y
  cases hvalue
  rfl

@[simp] theorem toField_add (x y : Goldilocks) : (x.add y).toField = x.toField + y.toField := by
  rw [add, toField_reduce, Nat.cast_add, toField, toField]

@[simp] theorem toField_mul (x y : Goldilocks) : (x.mul y).toField = x.toField * y.toField := by
  rw [mul, toField_reduce, Nat.cast_mul, toField, toField]

@[simp] theorem toField_double (x : Goldilocks) : x.double.toField = x.toField + x.toField :=
  toField_add x x

@[simp] theorem toField_sub (x y : Goldilocks) : (x.sub y).toField = x.toField - y.toField := by
  rw [sub]
  split
  case isTrue h =>
      rw [toField_ofLt, Nat.cast_sub h, toField, toField]
  case isFalse h =>
      have hle : y.value.toNat - x.value.toNat ≤ goldilocksModulus :=
        Nat.le_trans (Nat.sub_le _ _) (Nat.le_of_lt y.lt_modulus)
      rw [toField_ofLt, Nat.cast_sub hle, Nat.cast_sub (Nat.le_of_not_le h), ZMod.natCast_self,
        toField, toField]
      ring

/-- A signed value is read as its own residue. -/
theorem toField_fromSigned (value : Int64) :
    (fromSigned value).toField = (value.toInt : ZMod goldilocksModulus) := by
  rw [fromSigned]
  split
  case isTrue h =>
      rw [toField_reduce, ← Int.cast_natCast, Int.toNat_of_nonneg h]
  case isFalse h =>
      have habs : value.toInt = -(value.toInt.natAbs : Int) := by omega
      have hvalue : (value.toInt : ZMod goldilocksModulus)
          = -((value.toInt.natAbs % goldilocksModulus : Nat) : ZMod goldilocksModulus) := by
        rw [ZMod.natCast_mod, ← Int.cast_natCast, ← Int.cast_neg, ← habs]
      rw [hvalue]
      dsimp only
      split
      case isTrue hzero =>
          rw [hzero, toField_zero, Nat.cast_zero, neg_zero]
      case isFalse hne =>
          rw [toField_ofLt, Nat.cast_sub (Nat.le_of_lt (Nat.mod_lt _ modulus_pos)),
            ZMod.natCast_self, zero_sub]

/-- A canonical element is read back from its word. -/
@[simp] theorem canonical_value (x : Goldilocks) : canonical x.value = .ok x := by
  rw [canonical, dif_pos x.lt_modulus]

end Goldilocks

/-! ## The modulus is prime -/

theorem modulus_sub_one : goldilocksModulus - 1 = 2 ^ 32 * 3 * 5 * 17 * 257 * 65537 := rfl

/-- The prime divisors of the order of the multiplicative group. -/
theorem eq_of_prime_dvd {q : Nat} (hq : q.Prime) (h : q ∣ goldilocksModulus - 1) :
    q = 2 ∨ q = 3 ∨ q = 5 ∨ q = 17 ∨ q = 257 ∨ q = 65537 := by
  have heq : ∀ {p : Nat}, p.Prime → q ∣ p → q = p := fun hp hdvd =>
    (Nat.prime_dvd_prime_iff_eq hq hp).mp hdvd
  rw [modulus_sub_one] at h
  simp only [hq.dvd_mul] at h
  rcases h with ((((h | h) | h) | h) | h) | h
  · exact .inl (heq Nat.prime_two (hq.dvd_of_dvd_pow h))
  · exact .inr (.inl (heq Nat.prime_three h))
  · exact .inr (.inr (.inl (heq Nat.prime_five h)))
  · exact .inr (.inr (.inr (.inl (heq (by norm_num) h))))
  · exact .inr (.inr (.inr (.inr (.inl (heq (by norm_num) h)))))
  · exact .inr (.inr (.inr (.inr (.inr (heq (by norm_num) h)))))

theorem goldilocksModulus_prime : Nat.Prime goldilocksModulus := by
  show Nat.Prime 18446744069414584321
  apply lucas_primality _ (7 : ZMod 18446744069414584321)
  · norm_num only
    reduce_mod_char
  · intro q hq hdvd
    rcases eq_of_prime_dvd hq hdvd with rfl | rfl | rfl | rfl | rfl | rfl <;>
      norm_num only <;> reduce_mod_char <;> decide

instance : Fact (Nat.Prime goldilocksModulus) := ⟨goldilocksModulus_prime⟩

end CommonFoundry.Consensus
