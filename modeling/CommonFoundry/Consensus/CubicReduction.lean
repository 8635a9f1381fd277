/-
# `CommonFoundry.Consensus.CubicReduction` — the cubic reduction, in words and in the field

The products of `reduction_witness` and `check_reduction` are products of 64-bit words.  The
prover multiplies numbers below `2 ^ 32`, and the verifier has checked the ranges before it
multiplies, so no product or sum leaves its word (`reductionWitnessWords_eq`,
`checkReductionWords_eq`) and the arithmetic is that of natural numbers.

The modulus is a prime that leaves two when divided by three, so cubing permutes its field:
numbers that are encoded differently have different cube remainders, and the interval of the
accumulators is shorter than the modulus.
-/
import CommonFoundry.Consensus.ForgeMatrixReduction
import CommonFoundry.Lib.PowerPermutation
import CommonFoundry.Lib.Word
import Mathlib.Tactic.NormNum.Prime

namespace CommonFoundry

open Lib Lib.Outcome

/-! ## The arithmetic of words -/

/-- `left != modulus * quotient + remainder` in the conditions of `check_reduction`. -/
def checkRelationWords (overflowChecks : Bool) (left modulus quotient remainder : UInt64)
    (error : ForgeMatrixV2Error) : Outcome ForgeMatrixV2Error Unit := do
  let product ← plainMul overflowChecks modulus quotient
  let sum ← plainAdd overflowChecks product remainder
  require (left = sum) error

/-- `check_reduction`, with words for its products and sums. -/
def checkReductionWords (overflowChecks : Bool) (z : Int) (witness : ReductionWitness) :
    Outcome ForgeMatrixV2Error Unit := do
  let modulus := UInt64.ofNat v2TransitionModulus
  require (¬(witness.encodedZ.toNat ≥ v2TransitionModulus ∨
    witness.squareQuotient.toNat ≥ v2TransitionModulus ∨
    witness.squareRemainder.toNat ≥ v2TransitionModulus ∨
    witness.cubeQuotient.toNat ≥ v2TransitionModulus ∨
    witness.cubeRemainder.toNat ≥ v2TransitionModulus)) .transitionFieldRange
  require (¬(witness.outputQuotient.toNat > maxOutputQuotient ∨
    witness.outputRemainder.toNat > 250)) .outputRange
  let expectedEncoded ← (if 0 ≤ z then tryU32 z .encodedAccumulator
    else tryU32 (v2TransitionModulus + z) .encodedAccumulator)
  require (¬(witness.z ≠ z ∨ witness.encodedZ ≠ expectedEncoded)) .encodedAccumulator
  let square ← plainMul overflowChecks witness.encodedZ.toUInt64 witness.encodedZ.toUInt64
  checkRelationWords overflowChecks square modulus witness.squareQuotient.toUInt64
    witness.squareRemainder.toUInt64 .squareRelation
  let cube ← plainMul overflowChecks witness.squareRemainder.toUInt64 witness.encodedZ.toUInt64
  checkRelationWords overflowChecks cube modulus witness.cubeQuotient.toUInt64
    witness.cubeRemainder.toUInt64 .cubeRelation
  checkRelationWords overflowChecks witness.cubeRemainder.toUInt64 (UInt64.ofNat outputModulus)
    witness.outputQuotient.toUInt64 witness.outputRemainder.toUInt64 .outputRelation

/-- `reduction_witness`, with words for its products. -/
def reductionWitnessWords (overflowChecks : Bool) (z : Int) :
    Outcome ForgeMatrixV2Error ReductionWitness := do
  let modulus := UInt64.ofNat v2TransitionModulus
  require (¬z.natAbs ≥ v2TransitionModulus) .arithmeticOverflow
  let encodedZ ← (if 0 ≤ z then pure (UInt32.ofNat z.toNat)
    else tryU32 (v2TransitionModulus + z) .arithmeticOverflow)
  let square ← plainMul overflowChecks encodedZ.toUInt64 encodedZ.toUInt64
  let squareQuotient := square / modulus
  let squareRemainder := square % modulus
  let cubeProduct ← plainMul overflowChecks squareRemainder encodedZ.toUInt64
  let cubeQuotient := cubeProduct / modulus
  let cubeRemainder := cubeProduct % modulus
  let outputQuotient := cubeRemainder / UInt64.ofNat outputModulus
  let outputRemainder := cubeRemainder % UInt64.ofNat outputModulus
  let squareQuotient ← tryU32 squareQuotient.toNat .arithmeticOverflow
  let squareRemainder ← tryU32 squareRemainder.toNat .arithmeticOverflow
  let cubeQuotient ← tryU32 cubeQuotient.toNat .arithmeticOverflow
  let cubeRemainder ← tryU32 cubeRemainder.toNat .arithmeticOverflow
  let outputQuotient ← tryU32 outputQuotient.toNat .arithmeticOverflow
  let outputRemainder ← tryU16 outputRemainder.toNat .arithmeticOverflow
  let witness := {
    z, encodedZ, squareQuotient, squareRemainder, cubeQuotient, cubeRemainder, outputQuotient
    outputRemainder }
  checkReductionWords overflowChecks z witness
  pure witness

theorem toNat_modulusWord :
    (UInt64.ofNat v2TransitionModulus).toNat = v2TransitionModulus := by
  rw [UInt64.toNat_ofNat', Nat.mod_eq_of_lt (by decide)]

theorem toNat_outputWord : (UInt64.ofNat outputModulus).toNat = outputModulus := by
  rw [UInt64.toNat_ofNat', Nat.mod_eq_of_lt (by decide)]

variable {overflowChecks : Bool}

theorem checkRelationWords_eq {left modulus quotient remainder : UInt64}
    {error : ForgeMatrixV2Error}
    (h : modulus.toNat * quotient.toNat + remainder.toNat < 2 ^ 64) :
    checkRelationWords overflowChecks left modulus quotient remainder error =
      require (left.toNat = modulus.toNat * quotient.toNat + remainder.toNat) error := by
  have hmul : modulus.toNat * quotient.toNat < 2 ^ 64 := by omega
  have hproduct := toNat_mul_of_lt hmul
  have hsum : (modulus * quotient).toNat + remainder.toNat < 2 ^ 64 := by rwa [hproduct]
  rw [checkRelationWords, plainMul_of_lt hmul, ok_bind, plainAdd_of_lt hsum, ok_bind]
  simp only [← UInt64.toNat_inj, toNat_add_of_lt hsum, hproduct]

/-- No product or sum of the verifier leaves its word. -/
theorem checkReductionWords_eq (z : Int) (witness : ReductionWitness) :
    checkReductionWords overflowChecks z witness = checkReduction z witness := by
  have hmodulus : v2TransitionModulus = 134217689 := rfl
  have houtput : outputModulus = 251 := rfl
  have hquotient : maxOutputQuotient = 534731 := rfl
  rw [checkReductionWords, checkReduction]
  by_cases hrange : witness.encodedZ.toNat ≥ v2TransitionModulus ∨
      witness.squareQuotient.toNat ≥ v2TransitionModulus ∨
      witness.squareRemainder.toNat ≥ v2TransitionModulus ∨
      witness.cubeQuotient.toNat ≥ v2TransitionModulus ∨
      witness.cubeRemainder.toNat ≥ v2TransitionModulus
  · rw [require_neg (not_not.mpr hrange)]
    rfl
  by_cases hout : witness.outputQuotient.toNat > maxOutputQuotient ∨
      witness.outputRemainder.toNat > 250
  · rw [require_pos hrange, require_neg (not_not.mpr hout)]
    rfl
  rw [require_pos hrange, require_pos hout]
  simp only [not_or, not_le, ge_iff_le, gt_iff_lt, not_lt] at hrange hout
  obtain ⟨he, hsq, hsr, hcq, hcr⟩ := hrange
  obtain ⟨hoq, hor⟩ := hout
  have hproduct : ∀ {a b : Nat}, a < v2TransitionModulus → b < v2TransitionModulus →
      a * b < 2 ^ 63 := by
    intro a b ha hb
    exact Nat.lt_of_lt_of_le (Nat.mul_lt_mul'' ha hb) (by decide)
  have hsquare : witness.encodedZ.toUInt64.toNat * witness.encodedZ.toUInt64.toNat < 2 ^ 64 := by
    rw [UInt32.toNat_toUInt64]
    exact Nat.lt_trans (hproduct he he) (by decide)
  have hcube : witness.squareRemainder.toUInt64.toNat * witness.encodedZ.toUInt64.toNat <
      2 ^ 64 := by
    rw [UInt32.toNat_toUInt64, UInt32.toNat_toUInt64]
    exact Nat.lt_trans (hproduct hsr he) (by decide)
  have hsquareRelation : (UInt64.ofNat v2TransitionModulus).toNat *
      witness.squareQuotient.toUInt64.toNat + witness.squareRemainder.toUInt64.toNat < 2 ^ 64 := by
    rw [UInt32.toNat_toUInt64, UInt32.toNat_toUInt64, toNat_modulusWord, hmodulus]
    omega
  have hcubeRelation : (UInt64.ofNat v2TransitionModulus).toNat *
      witness.cubeQuotient.toUInt64.toNat + witness.cubeRemainder.toUInt64.toNat < 2 ^ 64 := by
    rw [UInt32.toNat_toUInt64, UInt32.toNat_toUInt64, toNat_modulusWord, hmodulus]
    omega
  have houtputRelation : (UInt64.ofNat outputModulus).toNat *
      witness.outputQuotient.toUInt64.toNat + witness.outputRemainder.toUInt64.toNat < 2 ^ 64 := by
    rw [UInt32.toNat_toUInt64, UInt16.toNat_toUInt64, toNat_outputWord, houtput]
    omega
  simp only [plainMul_of_lt hsquare, plainMul_of_lt hcube, ok_bind,
    checkRelationWords_eq hsquareRelation, checkRelationWords_eq hcubeRelation,
    checkRelationWords_eq houtputRelation, toNat_mul_of_lt hsquare, toNat_mul_of_lt hcube,
    UInt32.toNat_toUInt64, UInt16.toNat_toUInt64, toNat_modulusWord, toNat_outputWord]

/-- A product that fits, divided: the quotient and the remainder of the numbers. -/
theorem divided_words {a b m : UInt64} (h : a.toNat * b.toNat < 2 ^ 64) :
    (a * b / m).toNat = a.toNat * b.toNat / m.toNat ∧
      (a * b % m).toNat = a.toNat * b.toNat % m.toNat := by
  rw [UInt64.toNat_div, UInt64.toNat_mod, toNat_mul_of_lt h]
  exact ⟨rfl, rfl⟩

/-- Nor does one of the prover. -/
theorem reductionWitnessWords_eq (z : Int) :
    reductionWitnessWords overflowChecks z = reductionWitness z := by
  rw [reductionWitnessWords, reductionWitness]
  refine bind_congr fun _ => bind_congr fun encodedZ => ?_
  have hlt := encodedZ.toNat_lt
  have hsquare : encodedZ.toUInt64.toNat * encodedZ.toUInt64.toNat < 2 ^ 64 := by
    rw [UInt32.toNat_toUInt64]
    exact Nat.lt_of_lt_of_le (Nat.mul_lt_mul'' hlt hlt) (by decide)
  obtain ⟨hsquareQuotient, hsquareRemainder⟩ :=
    divided_words (m := UInt64.ofNat v2TransitionModulus) hsquare
  rw [UInt32.toNat_toUInt64, toNat_modulusWord] at hsquareQuotient hsquareRemainder
  have hcube : (encodedZ.toUInt64 * encodedZ.toUInt64 %
      UInt64.ofNat v2TransitionModulus).toNat * encodedZ.toUInt64.toNat < 2 ^ 64 := by
    have hmod := Nat.mod_lt (encodedZ.toNat * encodedZ.toNat) (y := v2TransitionModulus) (by decide)
    rw [hsquareRemainder, UInt32.toNat_toUInt64]
    exact Nat.lt_of_lt_of_le (Nat.mul_lt_mul'' hmod hlt) (by decide)
  obtain ⟨hcubeQuotient, hcubeRemainder⟩ :=
    divided_words (m := UInt64.ofNat v2TransitionModulus) hcube
  rw [hsquareRemainder, UInt32.toNat_toUInt64, toNat_modulusWord] at hcubeQuotient hcubeRemainder
  have houtput : ∀ w : UInt64, (w / UInt64.ofNat outputModulus).toNat = w.toNat / outputModulus ∧
      (w % UInt64.ofNat outputModulus).toNat = w.toNat % outputModulus := by
    intro w
    rw [UInt64.toNat_div, UInt64.toNat_mod, toNat_outputWord]
    exact ⟨rfl, rfl⟩
  rw [plainMul_of_lt hsquare, ok_bind]
  dsimp only
  rw [plainMul_of_lt hcube, ok_bind, (houtput _).1, (houtput _).2, hcubeQuotient, hcubeRemainder,
    hsquareQuotient, hsquareRemainder]
  simp only [checkReductionWords_eq]

/-! ## Quotients -/

/-- The quotient of a product of two numbers below the modulus. -/
theorem quotient_le {a b q r : Nat} (ha : a < v2TransitionModulus) (hb : b < v2TransitionModulus)
    (h : a * b = v2TransitionModulus * q + r) : q ≤ v2TransitionModulus - 2 := by
  have hmodulus : v2TransitionModulus = 134217689 := rfl
  have hproduct : a * b ≤ 134217688 * 134217688 := Nat.mul_le_mul (by omega) (by omega)
  rw [hmodulus] at h ⊢
  omega

/-! ## The field -/

theorem transitionModulus_prime : Nat.Prime v2TransitionModulus := by
  show Nat.Prime 134217689
  norm_num

instance : Fact (Nat.Prime v2TransitionModulus) := ⟨transitionModulus_prime⟩

theorem transitionModulus_mod : v2TransitionModulus % 3 = 2 := rfl

/-- The remainder of the cube is the cube in the field. -/
theorem ReductionWitness.Reduces.cube_eq {witness : ReductionWitness} {z : Int}
    (h : witness.Reduces z) : (witness.encodedZ.toNat : ZMod v2TransitionModulus) ^ 3 =
      (witness.cubeRemainder.toNat : ZMod v2TransitionModulus) := by
  have hsquare := congrArg (Nat.cast : Nat → ZMod v2TransitionModulus) h.square
  have hcube := congrArg (Nat.cast : Nat → ZMod v2TransitionModulus) h.cube
  push_cast [ZMod.natCast_self, zero_mul, zero_add] at hsquare hcube
  rw [← hcube, ← hsquare, pow_succ, pow_two]

/-- Numbers whose encodings differ have different remainders. -/
theorem ReductionWitness.Reduces.encoded_eq {a b : ReductionWitness} {z z' : Int}
    (ha : a.Reduces z) (hb : b.Reduces z') (h : a.cubeRemainder = b.cubeRemainder) :
    encodedOf z = encodedOf z' := by
  have hcubes : (a.encodedZ.toNat : ZMod v2TransitionModulus) ^ 3 =
      (b.encodedZ.toNat : ZMod v2TransitionModulus) ^ 3 := by
    rw [ha.cube_eq, hb.cube_eq, h]
  have hfield := (cube_bijective transitionModulus_mod).injective hcubes
  rw [ZMod.natCast_eq_natCast_iff', Nat.mod_eq_of_lt ha.encodedRange,
    Nat.mod_eq_of_lt hb.encodedRange] at hfield
  rw [ha.encoded, hb.encoded, hfield]

/-- The interval of the accumulators is shorter than the modulus. -/
theorem encodedOf_inj {z z' : Int} (hz : -64000000 ≤ z ∧ z ≤ 64005000)
    (hz' : -64000000 ≤ z' ∧ z' ≤ 64005000) (h : encodedOf z = encodedOf z') : z = z' := by
  have hmodulus : v2TransitionModulus = 134217689 := rfl
  unfold encodedOf at h
  split at h <;> split at h <;> omega

/-- Below the modulus there is one witness, made and checked without leaving a word; and in
the interval of the accumulators its cube remainder tells numbers apart. -/
theorem cubic_reduction_exact :
    (∀ z : Int, z.natAbs < v2TransitionModulus →
      ∃ witness, reductionWitness z = .ok witness ∧ checkReduction z witness = .ok () ∧
        (∀ other, checkReduction z other = .ok () → other = witness) ∧
        witness.squareQuotient.toNat ≤ v2TransitionModulus - 2 ∧
        witness.cubeQuotient.toNat ≤ v2TransitionModulus - 2 ∧
        witness.outputQuotient.toNat ≤ 534731) ∧
      (∀ overflowChecks z, reductionWitnessWords overflowChecks z = reductionWitness z ∧
        ∀ witness, checkReductionWords overflowChecks z witness = checkReduction z witness) ∧
      (v2TransitionModulus.Prime ∧ v2TransitionModulus % 3 = 2 ∧
        Function.Bijective fun x : ZMod v2TransitionModulus => x ^ 3) ∧
      ∀ z z' : Int, -64000000 ≤ z ∧ z ≤ 64005000 → -64000000 ≤ z' ∧ z' ≤ 64005000 → z ≠ z' →
        ∃ witness witness', reductionWitness z = .ok witness ∧
          reductionWitness z' = .ok witness' ∧
          witness.cubeRemainder ≠ witness'.cubeRemainder := by
  have hmodulus : v2TransitionModulus = 134217689 := rfl
  refine ⟨fun z hz => ?_, fun overflowChecks z => ?_, ?_, fun z z' hz hz' hne => ?_⟩
  · obtain ⟨witness, h⟩ := exists_reductionWitness hz
    have hcheck := checkReduction_of_reductionWitness h
    have hreduces := checkReduction_eq_ok.mp hcheck
    refine ⟨witness, h, hcheck, fun other hother => ?_, ?_, ?_, hreduces.outputQuotient⟩
    · exact (checkReduction_eq_ok.mp hother).unique hreduces
    · exact quotient_le hreduces.encodedRange hreduces.encodedRange hreduces.square
    · exact quotient_le hreduces.squareRemainder hreduces.encodedRange hreduces.cube
  · exact ⟨reductionWitnessWords_eq z, checkReductionWords_eq z⟩
  · exact ⟨transitionModulus_prime, transitionModulus_mod, cube_bijective transitionModulus_mod⟩
  · obtain ⟨witness, h⟩ := exists_reductionWitness (z := z) (by omega)
    obtain ⟨witness', h'⟩ := exists_reductionWitness (z := z') (by omega)
    refine ⟨witness, witness', h, h', fun heq => hne ?_⟩
    have hreduces := checkReduction_eq_ok.mp (checkReduction_of_reductionWitness h)
    have hreduces' := checkReduction_eq_ok.mp (checkReduction_of_reductionWitness h')
    exact encodedOf_inj hz hz' (hreduces.encoded_eq hreduces' heq)

/-- A number next to the modulus, and the two ends of the interval. -/
theorem cubic_reduction_exact_sample :
    (∃ witness, reductionWitness (-134217688) = .ok witness ∧
      witness.squareQuotient.toNat ≤ v2TransitionModulus - 2) ∧
      ∃ witness witness', reductionWitness (-64000000) = .ok witness ∧
        reductionWitness 64005000 = .ok witness' ∧
        witness.cubeRemainder ≠ witness'.cubeRemainder := by
  obtain ⟨hexact, -, -, hinjective⟩ := cubic_reduction_exact
  obtain ⟨witness, h, -, -, hquotient, -⟩ := hexact (-134217688) (by decide)
  exact ⟨⟨witness, h, hquotient⟩,
    hinjective (-64000000) 64005000 (by decide) (by decide) (by decide)⟩

end CommonFoundry
