/-
# `CommonFoundry.Gpu.Arithmetic` — the device computes what the reference does

The functions of the kernel that work on numbers alone, and the host's.  A mask is the same
number (`coordinateMask_eq`), the cubic reduction leaves the remainder of the witness
(`cubicReduce_eq`), and four packed bytes are multiplied and added as they were before
(`dp4a_packInt8x4`).
-/
import CommonFoundry.Consensus.ForgeMatrixAgreement
import CommonFoundry.Gpu.Kernel

namespace CommonFoundry

open Lib Lib.Outcome

theorem int32_of_small {n : Int} (h : n.natAbs < v2TransitionModulus) : int32 n = some n := by
  rw [v2TransitionModulus] at h
  exact if_pos (by omega)

/-- An activation as a byte of the device. -/
theorem int8_of_centered {value : Int} (h : Centered value) :
    ∃ byte, int8 value = some byte ∧ byte.toInt = value := by
  obtain ⟨hlow, hhigh⟩ := h
  exact ⟨Int8.ofInt value, if_pos (by omega), Int8.toInt_ofInt_of_le (by omega) (by omega)⟩

/-! ## Powers of two -/

theorem find?_range_eq {n bits : Nat} {p : Nat → Bool} (hp : ∀ i, p i = decide (bits = i))
    (hbits : bits < n) : (List.range n).find? p = some bits := by
  rw [List.find?_range_eq_some]
  refine ⟨by rw [hp, decide_eq_true rfl], List.mem_range.mpr hbits, fun i hi => ?_⟩
  rw [hp, decide_eq_false (by omega)]
  rfl

theorem ffs_two_pow {bits : Nat} (hbits : bits < 32) : ffs (2 ^ bits) = bits + 1 := by
  rw [ffs, find?_range_eq (fun i => Nat.testBit_two_pow) hbits]

theorem exactLog2_two_pow {bits : Nat} (hbits : bits < 32) : exactLog2 (2 ^ bits) = .ok bits := by
  have hpos := Nat.two_pow_pos bits
  have hvalid : ¬(2 ^ bits = 0 ∨ 2 ^ bits &&& (2 ^ bits - 1) ≠ 0) := by
    rw [Nat.and_two_pow_sub_one_eq_mod, Nat.mod_self]
    omega
  have hfound : (List.range 32).find? (fun i => decide (1 <<< i = 2 ^ bits)) = some bits := by
    refine find?_range_eq (fun i => decide_eq_decide.mpr ?_) hbits
    rw [Nat.one_shiftLeft]
    exact ⟨fun h => (Nat.pow_right_injective le_rfl h).symm, fun h => h ▸ rfl⟩
  rw [exactLog2, require_pos hvalid, ok_bind, hfound]
  rfl

/-! ## Packed bytes -/

theorem unpack (a b c d : UInt8) :
    let packed := a.toUInt32 ||| b.toUInt32 <<< 8 ||| c.toUInt32 <<< 16 ||| d.toUInt32 <<< 24
    (packed >>> 0).toUInt8 = a ∧ (packed >>> 8).toUInt8 = b ∧ (packed >>> 16).toUInt8 = c ∧
      (packed >>> 24).toUInt8 = d := by
  intro packed
  refine ⟨?_, ?_, ?_, ?_⟩ <;>
    refine UInt8.toBitVec_inj.mp (BitVec.eq_of_getLsbD_eq fun i hi => ?_) <;> simp [packed, hi]
  all_goals
    simp (disch := omega) [decide_eq_true, decide_eq_false, BitVec.getLsbD_of_ge]

/-- The sum of four products. -/
theorem dp4a_packInt8x4 (value₀ value₁ value₂ value₃ weight₀ weight₁ weight₂ weight₃ : Int8)
    (accumulator : Int) :
    dp4a (packInt8x4 value₀ value₁ value₂ value₃) (packInt8x4 weight₀ weight₁ weight₂ weight₃)
        accumulator =
      int32 (accumulator + value₀.toInt * weight₀.toInt + value₁.toInt * weight₁.toInt +
        value₂.toInt * weight₂.toInt + value₃.toInt * weight₃.toInt) := by
  obtain ⟨hv₀, hv₁, hv₂, hv₃⟩ := unpack value₀.toUInt8 value₁.toUInt8 value₂.toUInt8 value₃.toUInt8
  obtain ⟨hw₀, hw₁, hw₂, hw₃⟩ :=
    unpack weight₀.toUInt8 weight₁.toUInt8 weight₂.toUInt8 weight₃.toUInt8
  simp only [dp4a, packedLane, packInt8x4, hv₀, hv₁, hv₂, hv₃, hw₀, hw₁, hw₂, hw₃,
    Int8.toInt8_toUInt8]

/-! ## The cubic reduction -/

theorem mod_of_quotient {n m q r : Nat} (h : n = m * q + r) (hr : r < m) : n % m = r := by
  rw [h, Nat.mul_add_mod, Nat.mod_eq_of_lt hr]

/-- The remainder of a product in 64 bits. -/
theorem mulMod_toNat {a b : UInt32} {q r : Nat} (ha : a.toNat < v2TransitionModulus)
    (hb : b.toNat < v2TransitionModulus) (hr : r < v2TransitionModulus)
    (h : a.toNat * b.toNat = v2TransitionModulus * q + r) :
    (a.toUInt64 * b.toUInt64 % 134217689).toUInt32.toNat = r := by
  have hmodulus : v2TransitionModulus = 134217689 := rfl
  have hproduct : a.toNat * b.toNat < v2TransitionModulus * v2TransitionModulus :=
    Nat.mul_lt_mul'' ha hb
  have hsmall : v2TransitionModulus * v2TransitionModulus < 2 ^ 64 := by decide
  rw [UInt64.toNat_toUInt32, UInt64.toNat_mod, UInt64.toNat_mul, UInt32.toNat_toUInt64,
    UInt32.toNat_toUInt64, Nat.mod_eq_of_lt (hproduct.trans hsmall)]
  rw [show (134217689 : UInt64).toNat = v2TransitionModulus from rfl, mod_of_quotient h hr,
    Nat.mod_eq_of_lt (by omega)]

theorem ofInt_natCast (w : UInt32) : UInt32.ofInt (w.toNat : Int) = w := by
  have hlt := w.toNat_lt
  have hmod : ((w.toNat : Int) % 2 ^ 32).toNat = w.toNat := by omega
  rw [UInt32.ofInt, hmod, UInt32.ofNat_toNat]

theorem Reduced.eq_remainder {z value : Int} {witness : ReductionWitness}
    (h : Reduced z witness value) :
    witness.Reduces z ∧ (witness.outputRemainder.toNat : Int) - 125 = value := by
  obtain ⟨hwitness, hvalue⟩ := h
  have hreduces := checkReduction_eq_ok.mp (checkReduction_of_reductionWitness hwitness)
  rw [centeredActivation, require_pos (not_lt.mpr hreduces.outputRemainder)] at hvalue
  exact ⟨hreduces, Except.ok.inj hvalue⟩

theorem Reduced.centered {z value : Int} {witness : ReductionWitness}
    (h : Reduced z witness value) : Centered value := by
  obtain ⟨hreduces, hvalue⟩ := h.eq_remainder
  have hrange := hreduces.outputRemainder
  rw [Centered]
  omega

/-- The device finds the activation of the witness. -/
theorem cubicReduce_eq {z value : Int} {witness : ReductionWitness}
    (h : Reduced z witness value) :
    ∃ byte, cubicReduce z = some byte ∧ byte.toInt = value := by
  obtain ⟨hreduces, hvalue⟩ := h.eq_remainder
  have hencoded : UInt32.ofInt (if z ≥ 0 then z else 134217689 + z) = witness.encodedZ := by
    rw [← ofInt_natCast witness.encodedZ, ← hreduces.encoded]
    rfl
  have hsquare := mulMod_toNat hreduces.encodedRange hreduces.encodedRange hreduces.squareRemainder
    hreduces.square
  have hcube := mulMod_toNat (hsquare ▸ hreduces.squareRemainder) hreduces.encodedRange
    hreduces.cubeRemainder (hsquare ▸ hreduces.cube)
  have hremainder : witness.cubeRemainder.toNat % outputModulus = witness.outputRemainder.toNat :=
    mod_of_quotient hreduces.output (Nat.lt_succ_of_le hreduces.outputRemainder)
  obtain ⟨byte, hbyte, hint⟩ := int8_of_centered h.centered
  refine ⟨byte, ?_, hint⟩
  simp only [cubicReduce, hencoded]
  rw [UInt32.toNat_mod, hcube, show (251 : UInt32).toNat = outputModulus from rfl, hremainder,
    hvalue, hbyte]

/-! ## Masks -/

/-- The bits of a coordinate add what they add in the reference. -/
theorem addCoordinateBits_eq {mask rest : List UInt8} {offset position bits : Nat} {value final : Int}
    (hbounded : ∀ coefficient ∈ mask, coefficient.toNat ≤ 250)
    (hlength : offset + bits ≤ mask.length) (hvalue : 0 ≤ value ∧ value ≤ 100000)
    (hbits : bits ≤ 32) (h : addMaskBits mask offset position bits value = .ok final) :
    addCoordinateBits (mask ++ rest) offset position bits value = some final := by
  induction bits generalizing final with
  | zero => exact congrArg some (Except.ok.inj h)
  | succ bits ih =>
      obtain ⟨before, hbefore, hlow, hhigh⟩ := exists_addMaskBits offset position bits value hbounded
        (by omega)
      rw [addMaskBits, List.range_succ, foldlM_append_eq_ok] at h
      obtain ⟨before', hbefore', h⟩ := h
      obtain rfl : before = before' := Except.ok.inj (hbefore.symm.trans hbefore')
      have hlt : offset + bits < mask.length := by omega
      have hcoefficient := hbounded _ (List.getElem_mem hlt)
      have hfound : (mask ++ rest)[offset + bits]? = some mask[offset + bits] := by
        rw [List.getElem?_append_left hlt, List.getElem?_eq_getElem hlt]
      rw [addCoordinateBits, List.range_succ, List.foldlM_append]
      rw [show (List.range bits).foldlM _ value = some before from ih (by omega) (by omega) hbefore]
      rw [List.foldlM_cons] at h
      by_cases hbit : position.testBit bits
      · rw [if_pos hbit, itemAt_of_lt hlt] at h
        obtain rfl := Except.ok.inj h
        have hfits : int32 (before + mask[offset + bits].toNat) =
            some (before + mask[offset + bits].toNat) := int32_of_small (by
          rw [v2TransitionModulus]
          omega)
        simp only [Option.bind_eq_bind, Option.bind_some, List.foldlM_cons, if_pos hbit, hfound,
          hfits, List.foldlM_nil, Option.pure_def]
      · rw [if_neg hbit] at h
        obtain rfl := Except.ok.inj h
        simp only [Option.bind_eq_bind, Option.bind_some, List.foldlM_cons, if_neg hbit,
          List.foldlM_nil, Option.pure_def]

/-- A mask that stands in front of others. -/
theorem coordinateMask_eq {mask rest : List UInt8} {rows width row col : Nat} {value : Int}
    (hrows : rows ≤ 4) (hwidth : width ≤ 32) (hmask : IsMask mask rows width)
    (h : maskValue mask row col rows width = .ok value) :
    coordinateMask (mask ++ rest) row col rows.log2 width.log2 = some value := by
  have hrowBits := Nat.log2_le_self rows
  have hcolBits := Nat.log2_le_self width
  have hlength := hmask.length
  have hpos : 0 < mask.length := by omega
  have hfirst := hmask.bounded _ (List.getElem_mem hpos)
  rw [maskValue, require_pos hlength, ok_bind, itemAt_of_lt hpos, ok_bind] at h
  obtain ⟨middle, hmiddle, hfinal⟩ := bind_eq_ok.mp h
  obtain ⟨middle', hmiddle', hlow, hhigh⟩ := exists_addMaskBits 1 row rows.log2 mask[0].toNat
    hmask.bounded (by omega)
  obtain rfl := Except.ok.inj (hmiddle.symm.trans hmiddle')
  have hfound : (mask ++ rest)[0]? = some mask[0] := by
    rw [List.getElem?_append_left hpos, List.getElem?_eq_getElem hpos]
  rw [coordinateMask, hfound, Option.bind_eq_bind, Option.bind_some,
    addCoordinateBits_eq hmask.bounded (by omega) (by omega) (by omega) hmiddle, Option.bind_eq_bind, Option.bind_some,
    addCoordinateBits_eq hmask.bounded (by omega) (by omega) (by omega) hfinal]

end CommonFoundry
