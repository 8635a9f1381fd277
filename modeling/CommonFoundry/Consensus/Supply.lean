/-
# `CommonFoundry.Consensus.Supply` — the supply before the tail, in closed form

`scheduled_supply_before_tail` adds up the subsidies of all heights before the tail
without visiting them: the sum of `floor(initialSubsidy * k / N)` is half of
`S * N + S - N + gcd(S, N)`.

The closed form is evaluated in 128 bits.  `plain128` is one such operation: a result
that does not fit is an abort here, in any build, so that a result says that nothing
overflowed.
-/
import CommonFoundry.Consensus.Emission

namespace CommonFoundry

open Lib Lib.Outcome

/-- `greatest_common_divisor`. -/
def greatestCommonDivisor (left right : UInt64) : UInt64 :=
  if _h : right = 0 then
    left
  else
    greatestCommonDivisor right (left % right)
termination_by right.toNat
decreasing_by
  rw [UInt64.toNat_mod]
  refine Nat.mod_lt _ (Nat.pos_of_ne_zero fun hzero => _h ?_)
  exact UInt64.toNat_inj.mp hzero

/-- A `u128` operation whose result, before it is stored, is `n`. -/
def plain128 (n : Nat) : Outcome EconomicsError Nat :=
  if n < 2 ^ 128 then .ok n else .error .panic

/-- `a - b` on `u128`. -/
def plainSub128 (a b : Nat) : Outcome EconomicsError Nat :=
  if b ≤ a then .ok (a - b) else .error .panic

/-- `linear_supply`. -/
def linearSupply (initialSubsidy emissionBlocks : UInt64) : Outcome EconomicsError Nat := do
  let subsidy := initialSubsidy.toNat
  let blocks := emissionBlocks.toNat
  let product ← plain128 (subsidy * blocks)
  let sum ← plain128 (product + subsidy)
  let difference ← plainSub128 sum blocks
  let total ← plain128
    (difference + (greatestCommonDivisor initialSubsidy emissionBlocks).toNat)
  pure (total / 2)

/-- `MonetaryPolicy::scheduled_supply_before_tail`. -/
def MonetaryPolicy.scheduledSupplyBeforeTail (policy : MonetaryPolicy) :
    Outcome EconomicsError Nat := do
  policy.validate
  let emissionBlocks := policy.tailHeight - 1
  linearSupply policy.initialSubsidy emissionBlocks

/-! ## The greatest common divisor -/

/-- The loop ends with the divisor that is meant. -/
theorem toNat_greatestCommonDivisor (left right : UInt64) :
    (greatestCommonDivisor left right).toNat = Nat.gcd left.toNat right.toNat := by
  induction left, right using greatestCommonDivisor.induct with
  | case1 left =>
      rw [greatestCommonDivisor, dif_pos rfl, UInt64.toNat_zero, Nat.gcd_zero_right]
  | case2 left right hright ih =>
      rw [greatestCommonDivisor, dif_neg hright, ih, UInt64.toNat_mod, Nat.gcd_comm,
        ← Nat.gcd_rec, Nat.gcd_comm]

/-! ## The closed form -/

theorem linearSupply_eq {initialSubsidy emissionBlocks : UInt64}
    (hsubsidy : 0 < initialSubsidy.toNat) (hblocks : 0 < emissionBlocks.toNat)
    (hbound : emissionBlocks.toNat < 2 ^ 64 - 1) :
    linearSupply initialSubsidy emissionBlocks =
      .ok (∑ remaining ∈ Finset.range (emissionBlocks.toNat + 1),
        initialSubsidy.toNat * remaining / emissionBlocks.toNat) := by
  have hclosed := two_mul_sum_floor (a := initialSubsidy.toNat) hblocks
  have hgcd : Nat.gcd initialSubsidy.toNat emissionBlocks.toNat ≤ emissionBlocks.toNat :=
    Nat.gcd_le_right _ hblocks
  have hle : emissionBlocks.toNat ≤ initialSubsidy.toNat * emissionBlocks.toNat :=
    Nat.le_mul_of_pos_left _ hsubsidy
  -- the largest product is `(2 ^ 64 - 1) * (2 ^ 64 - 1)`
  have hmax : initialSubsidy.toNat * (emissionBlocks.toNat + 1) < 2 ^ 64 * 2 ^ 64 :=
    Nat.mul_lt_mul_of_lt_of_le (toNat_lt initialSubsidy) (by omega) (by omega)
  rw [Nat.mul_succ] at hmax
  rw [linearSupply, plain128, if_pos (by omega), ok_bind, plain128, if_pos (by omega), ok_bind,
    plainSub128, if_pos (by omega), ok_bind, toNat_greatestCommonDivisor, plain128,
    if_pos (by omega), ok_bind]
  refine congrArg Except.ok ?_
  omega

namespace MonetaryPolicy

variable {policy : MonetaryPolicy}

theorem Validated.toNat_tailHeight (h : policy.Validated) :
    policy.tailHeight.toNat = policy.emissionBlocks + 1 := by
  have hblocks := h.emissionBlocks
  rw [MonetaryPolicy.emissionBlocks] at hblocks ⊢
  omega

/-- The subsidy of a height before the tail, given as a number. -/
theorem toNat_subsidyUnchecked {height : Nat} (hheight : height < policy.tailHeight.toNat) :
    (policy.subsidyUnchecked (UInt64.ofNat height)).toNat =
      policy.scheduled (policy.emissionBlocks - (height - 1)) := by
  have hword : (UInt64.ofNat height).toNat = height :=
    UInt64.toNat_ofNat_of_lt' (Nat.lt_trans hheight (toNat_lt policy.tailHeight))
  have hlt : UInt64.ofNat height < policy.tailHeight := by
    rw [UInt64.lt_iff_toNat_lt, hword]
    exact hheight
  rw [subsidyUnchecked, if_neg (UInt64.not_le.mpr hlt), toNat_decliningSubsidyUnchecked,
    remainingAt, hword]

/-- The heights from the first on leave all the blocks, then one less, and so on. -/
theorem Validated.sum_subsidies (h : policy.Validated) :
    ∑ height ∈ Finset.Ico 1 policy.tailHeight.toNat,
        (policy.subsidyUnchecked (UInt64.ofNat height)).toNat =
      ∑ remaining ∈ Finset.range (policy.emissionBlocks + 1), policy.scheduled remaining := by
  have hzero : policy.scheduled 0 = 0 := by
    rw [scheduled, Nat.mul_zero, Nat.zero_div]
  have hreflect := Finset.sum_Ico_reflect policy.scheduled 1
    (show policy.emissionBlocks + 1 ≤ policy.emissionBlocks + 1 + 1 by omega)
  rw [Nat.add_sub_cancel_left, Nat.add_sub_cancel] at hreflect
  rw [Finset.range_eq_Ico, Finset.sum_eq_sum_Ico_succ_bot (Nat.succ_pos _), hzero, Nat.zero_add,
    ← hreflect, h.toNat_tailHeight]
  refine Finset.sum_congr rfl fun height hmem => ?_
  obtain ⟨hlow, hhigh⟩ := Finset.mem_Ico.mp hmem
  rw [toNat_subsidyUnchecked (by rw [h.toNat_tailHeight]; exact hhigh)]
  congr 1
  omega

theorem toNat_emissionBlocks (h : policy.Validated) :
    (policy.tailHeight - 1).toNat = policy.emissionBlocks := by
  have htail := h.toNat_tailHeight
  have hone : (1 : UInt64).toNat = 1 := rfl
  rw [toNat_sub_of_le (by omega), hone]
  omega

theorem scheduledSupplyBeforeTail_eq (h : policy.validate = .ok ()) :
    policy.scheduledSupplyBeforeTail =
      .ok (∑ height ∈ Finset.Ico 1 policy.tailHeight.toNat,
        (policy.subsidyUnchecked (UInt64.ofNat height)).toNat) := by
  have hvalid := validated h
  have hblocks := toNat_emissionBlocks hvalid
  have htail := hvalid.toNat_tailHeight
  have hlt := toNat_lt policy.tailHeight
  rw [scheduledSupplyBeforeTail, h, ok_bind, hvalid.sum_subsidies,
    linearSupply_eq hvalid.initialSubsidy (by rw [hblocks]; exact hvalid.emissionBlocks)
      (by omega), hblocks]
  rfl

/-- The checks of a policy return, whatever the policy. -/
theorem noPanic_validate (policy : MonetaryPolicy) : NoPanic policy.validate :=
  NoPanic.require.bind fun _ _ => NoPanic.require.bind fun _ _ => NoPanic.require.bind fun _ _ =>
    NoPanic.require.bind fun _ _ => NoPanic.require.bind fun _ _ => NoPanic.require

end MonetaryPolicy

/-- The closed form is the sum of the subsidies of all heights before the tail, the loop
finds the greatest common divisor, and no operation leaves its range, whatever the
policy. -/
theorem scheduledSupply_exact :
    (∀ policy : MonetaryPolicy, policy.validate = .ok () →
      ∃ subsidies : UInt64 → UInt64, (∀ height, policy.subsidy height = .ok (subsidies height)) ∧
        policy.scheduledSupplyBeforeTail =
          .ok (∑ height ∈ Finset.Ico 1 policy.tailHeight.toNat,
            (subsidies (UInt64.ofNat height)).toNat)) ∧
    (∀ left right : UInt64,
      (greatestCommonDivisor left right).toNat = Nat.gcd left.toNat right.toNat) ∧
    ∀ policy : MonetaryPolicy, NoPanic policy.scheduledSupplyBeforeTail := by
  refine ⟨?_, toNat_greatestCommonDivisor, ?_⟩
  · intro policy h
    exact ⟨policy.subsidyUnchecked, MonetaryPolicy.subsidy_eq h,
      MonetaryPolicy.scheduledSupplyBeforeTail_eq h⟩
  · intro policy
    cases hvalidate : policy.validate with
    | error fault =>
        rw [MonetaryPolicy.scheduledSupplyBeforeTail]
        refine policy.noPanic_validate.bind fun _ h => ?_
        rw [hvalidate] at h
        cases h
    | ok u =>
        rw [MonetaryPolicy.scheduledSupplyBeforeTail_eq hvalidate]
        exact NoPanic.ok

/-- The schedule 6, 3 of two heights. -/
theorem scheduledSupply_exact_sample : ∃ subsidies : UInt64 → UInt64,
    (∀ height, evenSplit.subsidy height = .ok (subsidies height)) ∧
      evenSplit.scheduledSupplyBeforeTail =
        .ok (∑ height ∈ Finset.Ico 1 evenSplit.tailHeight.toNat,
          (subsidies (UInt64.ofNat height)).toNat) :=
  scheduledSupply_exact.1 evenSplit rfl

end CommonFoundry
