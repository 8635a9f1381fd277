/-
# `CommonFoundry.Consensus.ForgeMatrixReduction` — a number has one reduction witness

The ranges of `check_reduction` leave no quotients and remainders but the Euclidean ones,
so what passes the check is what the prover makes (`checkReduction_iff`), and the prover
makes one for every number below the modulus.  Its output is an activation, between -125
and 125.
-/
import CommonFoundry.Consensus.ForgeMatrix

namespace CommonFoundry

open Lib Lib.Outcome

/-! ## Witnesses of a number -/

theorem tryU32_eq_ok {n : Int} {error : ForgeMatrixV2Error} {w : UInt32} :
    tryU32 n error = .ok w ↔ n = w.toNat := by
  have hlt := w.toNat_lt
  rw [tryU32]
  split
  · next h =>
      have hnat : n.toNat < 2 ^ 32 := by omega
      rw [Except.ok.injEq, ← UInt32.toNat_inj, UInt32.toNat_ofNat', Nat.mod_eq_of_lt hnat]
      omega
  · next h => exact ⟨fun heq => absurd heq fail_ne_ok, fun heq => absurd heq (by omega)⟩

theorem tryU16_eq_ok {n : Nat} {error : ForgeMatrixV2Error} {w : UInt16} :
    tryU16 n error = .ok w ↔ n = w.toNat := by
  have hlt := w.toNat_lt
  rw [tryU16]
  split
  · next h =>
      rw [Except.ok.injEq, ← UInt16.toNat_inj, UInt16.toNat_ofNat', Nat.mod_eq_of_lt h]
  · next h => exact ⟨fun heq => absurd heq fail_ne_ok, fun heq => absurd heq (by omega)⟩

/-- The encoding of a number in the transition field. -/
def encodedOf (z : Int) : Int := if 0 ≤ z then z else v2TransitionModulus + z

/-- The quotients and remainders of a number, with their ranges. -/
structure ReductionWitness.Reduces (witness : ReductionWitness) (z : Int) : Prop where
  number : witness.z = z
  encoded : encodedOf z = witness.encodedZ.toNat
  encodedRange : witness.encodedZ.toNat < v2TransitionModulus
  squareQuotient : witness.squareQuotient.toNat < v2TransitionModulus
  squareRemainder : witness.squareRemainder.toNat < v2TransitionModulus
  cubeQuotient : witness.cubeQuotient.toNat < v2TransitionModulus
  cubeRemainder : witness.cubeRemainder.toNat < v2TransitionModulus
  outputQuotient : witness.outputQuotient.toNat ≤ maxOutputQuotient
  outputRemainder : witness.outputRemainder.toNat ≤ 250
  square : witness.encodedZ.toNat * witness.encodedZ.toNat =
    v2TransitionModulus * witness.squareQuotient.toNat + witness.squareRemainder.toNat
  cube : witness.squareRemainder.toNat * witness.encodedZ.toNat =
    v2TransitionModulus * witness.cubeQuotient.toNat + witness.cubeRemainder.toNat
  output : witness.cubeRemainder.toNat =
    outputModulus * witness.outputQuotient.toNat + witness.outputRemainder.toNat

theorem checkReduction_eq_ok {z : Int} {witness : ReductionWitness} {u : Unit} :
    checkReduction z witness = .ok u ↔ witness.Reduces z := by
  have hencode : ∀ w : UInt32, (if 0 ≤ z then tryU32 z .encodedAccumulator
      else tryU32 (v2TransitionModulus + z) .encodedAccumulator) = .ok w ↔
        encodedOf z = w.toNat := by
    intro w
    rw [encodedOf]
    split <;> exact tryU32_eq_ok
  simp only [checkReduction, bind_eq_ok, require_eq_ok, hencode, not_or, not_le, ge_iff_le,
    gt_iff_lt, not_lt, ne_eq, not_not]
  constructor
  · rintro ⟨_, ⟨he, hsq, hsr, hcq, hcr⟩, _, ⟨hoq, hor⟩, w, hw, _, ⟨hz, rfl⟩, _, hsquare, _, hcube,
      houtput⟩
    exact ⟨hz, hw, he, hsq, hsr, hcq, hcr, hoq, hor, hsquare, hcube, houtput⟩
  · intro h
    exact ⟨(), ⟨h.encodedRange, h.squareQuotient, h.squareRemainder, h.cubeQuotient,
      h.cubeRemainder⟩, (), ⟨h.outputQuotient, h.outputRemainder⟩, _, h.encoded, (), ⟨h.number, rfl⟩, (),
      h.square, (), h.cube, h.output⟩

/-- A quotient and a remainder are determined by their equation. -/
theorem quotient_unique {n m q r q' r' : Nat} (hr : r < m) (hr' : r' < m) (h : n = m * q + r)
    (h' : n = m * q' + r') : q = q' ∧ r = r' := by
  have hm : 0 < m := by omega
  have hsum : r + m * q = n := by rw [h, Nat.add_comm]
  have hsum' : r' + m * q' = n := by rw [h', Nat.add_comm]
  obtain ⟨hq, hmod⟩ := (Nat.div_mod_unique hm).mpr ⟨hsum, hr⟩
  obtain ⟨hq', hmod'⟩ := (Nat.div_mod_unique hm).mpr ⟨hsum', hr'⟩
  exact ⟨hq.symm.trans hq', hmod.symm.trans hmod'⟩

/-- There is one witness for a number. -/
theorem ReductionWitness.Reduces.unique {a b : ReductionWitness} {z : Int} (ha : a.Reduces z)
    (hb : b.Reduces z) : a = b := by
  have hencoded : a.encodedZ = b.encodedZ :=
    UInt32.toNat_inj.mp (Int.ofNat_inj.mp (ha.encoded.symm.trans hb.encoded))
  obtain ⟨hsq, hsr⟩ := quotient_unique ha.squareRemainder hb.squareRemainder ha.square
    (hencoded ▸ hb.square)
  obtain ⟨hcq, hcr⟩ := quotient_unique ha.cubeRemainder hb.cubeRemainder ha.cube
    (by rw [hsr, hencoded]; exact hb.cube)
  have hrange : ∀ {w : ReductionWitness}, w.Reduces z → w.outputRemainder.toNat < outputModulus :=
    fun h => Nat.lt_succ_of_le h.outputRemainder
  obtain ⟨hoq, hor⟩ := quotient_unique (hrange ha) (hrange hb) ha.output
    (by rw [hcr]; exact hb.output)
  cases a
  cases b
  simp only [ReductionWitness.mk.injEq]
  exact ⟨ha.number.trans hb.number.symm, hencoded, UInt32.toNat_inj.mp hsq, UInt32.toNat_inj.mp hsr,
    UInt32.toNat_inj.mp hcq, UInt32.toNat_inj.mp hcr, UInt32.toNat_inj.mp hoq,
    UInt16.toNat_inj.mp hor⟩

theorem exists_tryU32 {n : Nat} (h : n < v2TransitionModulus) (error : ForgeMatrixV2Error) :
    ∃ w, tryU32 n error = .ok w ∧ w.toNat = n := by
  have hmodulus : v2TransitionModulus < 2 ^ 32 := by decide
  have hnat : (UInt32.ofNat n).toNat = n := by
    rw [UInt32.toNat_ofNat', Nat.mod_eq_of_lt (by omega)]
  exact ⟨_, tryU32_eq_ok.mpr (by rw [hnat]), hnat⟩

theorem exists_tryU16 {n : Nat} (h : n < 2 ^ 16) (error : ForgeMatrixV2Error) :
    ∃ w, tryU16 n error = .ok w ∧ w.toNat = n := by
  have hnat : (UInt16.ofNat n).toNat = n := by
    rw [UInt16.toNat_ofNat', Nat.mod_eq_of_lt h]
  exact ⟨_, tryU16_eq_ok.mpr hnat.symm, hnat⟩

/-- Below the modulus there is a witness, and the prover finds it. -/
theorem exists_reductionWitness {z : Int} (hz : z.natAbs < v2TransitionModulus) :
    ∃ witness, reductionWitness z = .ok witness := by
  have hmodulus : v2TransitionModulus = 134217689 := rfl
  have hencoded : ∃ e : UInt32, (if 0 ≤ z then pure (UInt32.ofNat z.toNat)
      else tryU32 (v2TransitionModulus + z) .arithmeticOverflow) = .ok e ∧
        encodedOf z = e.toNat ∧ e.toNat < v2TransitionModulus := by
    rw [encodedOf]
    split
    · have hnat : (UInt32.ofNat z.toNat).toNat = z.toNat := by
        rw [UInt32.toNat_ofNat', Nat.mod_eq_of_lt (by omega)]
      exact ⟨_, rfl, by rw [hnat]; omega, by rw [hnat]; omega⟩
    · obtain ⟨e, he, heq⟩ := exists_tryU32 (n := (v2TransitionModulus + z).toNat) (by omega)
        .arithmeticOverflow
      rw [Int.toNat_of_nonneg (by omega)] at he
      exact ⟨e, he, by omega, by omega⟩
  obtain ⟨e, he, hencode, hlt⟩ := hencoded
  have hpos : 0 < v2TransitionModulus := by omega
  have hsr := Nat.mod_lt (e.toNat * e.toNat) hpos
  have hcr := Nat.mod_lt (e.toNat * e.toNat % v2TransitionModulus * e.toNat) hpos
  obtain ⟨sq, hsqTry, hsq⟩ := exists_tryU32
    (Nat.div_lt_of_lt_mul (Nat.mul_lt_mul'' hlt hlt)) .arithmeticOverflow
  obtain ⟨sr, hsrTry, hsrEq⟩ := exists_tryU32 hsr .arithmeticOverflow
  obtain ⟨cq, hcqTry, hcq⟩ := exists_tryU32
    (Nat.div_lt_of_lt_mul (Nat.mul_lt_mul'' hsr hlt)) .arithmeticOverflow
  obtain ⟨cr, hcrTry, hcrEq⟩ := exists_tryU32 hcr .arithmeticOverflow
  -- the largest quotient by 251 of a number below the modulus
  have hquotient : ∀ n < v2TransitionModulus, n / outputModulus ≤ maxOutputQuotient := by
    intro n hn
    have hbound : v2TransitionModulus ≤ outputModulus * (maxOutputQuotient + 1) := by decide
    exact Nat.le_of_lt_succ (Nat.div_lt_of_lt_mul (Nat.lt_of_lt_of_le hn hbound))
  obtain ⟨oq, hoqTry, hoq⟩ := exists_tryU32
    (Nat.lt_of_le_of_lt (hquotient _ hcr) (by decide)) .arithmeticOverflow
  have hor := Nat.mod_lt (e.toNat * e.toNat % v2TransitionModulus * e.toNat % v2TransitionModulus)
    (show 0 < outputModulus by decide)
  obtain ⟨or, horTry, horEq⟩ := exists_tryU16 (Nat.lt_trans hor (by decide)) .arithmeticOverflow
  simp only [reductionWitness, bind_eq_ok, require_eq_ok, pure_eq_ok]
  refine ⟨_, (), not_le.mpr hz, e, he, sq, hsqTry, sr, hsrTry, cq, hcqTry, cr, hcrTry, oq, hoqTry,
    or, horTry, (), checkReduction_eq_ok.mpr ?_, rfl⟩
  refine ⟨rfl, hencode, hlt, ?_, ?_, ?_, ?_, ?_, ?_, ?_, ?_, ?_⟩ <;>
    simp only [hsq, hsrEq, hcq, hcrEq, hoq, horEq]
  · exact Nat.div_lt_of_lt_mul (Nat.mul_lt_mul'' hlt hlt)
  · exact hsr
  · exact Nat.div_lt_of_lt_mul (Nat.mul_lt_mul'' hsr hlt)
  · exact hcr
  · exact hquotient _ hcr
  · exact Nat.le_of_lt_succ hor
  · exact (Nat.div_add_mod _ _).symm
  · exact (Nat.div_add_mod _ _).symm
  · exact (Nat.div_add_mod _ _).symm

theorem checkReduction_of_reductionWitness {z : Int} {witness : ReductionWitness}
    (h : reductionWitness z = .ok witness) : checkReduction z witness = .ok () := by
  simp only [reductionWitness, bind_eq_ok, pure_eq_ok] at h
  obtain ⟨_, _, _, _, _, _, _, _, _, _, _, _, _, _, _, _, _, hcheck, rfl⟩ := h
  exact hcheck

/-- What passes the check is what the prover makes. -/
theorem checkReduction_iff {z : Int} (hz : z.natAbs < v2TransitionModulus)
    {witness : ReductionWitness} :
    checkReduction z witness = .ok () ↔ reductionWitness z = .ok witness := by
  refine ⟨fun hcheck => ?_, checkReduction_of_reductionWitness⟩
  obtain ⟨honest, hhonest⟩ := exists_reductionWitness hz
  have hreduces := checkReduction_eq_ok.mp (checkReduction_of_reductionWitness hhonest)
  rw [(checkReduction_eq_ok.mp hcheck).unique hreduces]
  exact hhonest

/-! ## The activation of a number -/

/-- An activation of the relation. -/
def Centered (value : Int) : Prop := -125 ≤ value ∧ value ≤ 125

/-- The witness and the activation of a number. -/
def Reduced (z : Int) (witness : ReductionWitness) (value : Int) : Prop :=
  reductionWitness z = .ok witness ∧ centeredActivation witness.outputRemainder = .ok value

theorem exists_reduced {z : Int} (hz : z.natAbs < v2TransitionModulus) :
    ∃ witness value, Reduced z witness value ∧ Centered value := by
  obtain ⟨witness, h⟩ := exists_reductionWitness hz
  have hle := (checkReduction_eq_ok.mp (checkReduction_of_reductionWitness h)).outputRemainder
  refine ⟨witness, witness.outputRemainder.toNat - center, ⟨h, ?_⟩, ?_⟩
  · rw [centeredActivation, require_pos (not_lt.mpr hle)]
    rfl
  · have hcenter : center = 125 := rfl
    rw [Centered]
    omega

/-- The verifier's check of a witness and an activation. -/
theorem checkReduction_centered_iff {z : Int} (hz : z.natAbs < v2TransitionModulus)
    {witness : ReductionWitness} {value : Int} :
    checkReduction z witness = .ok () ∧ centeredActivation witness.outputRemainder = .ok value ↔
      Reduced z witness value :=
  and_congr_left' (checkReduction_iff hz)

end CommonFoundry
