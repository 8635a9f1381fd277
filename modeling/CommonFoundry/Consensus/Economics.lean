/-
# `CommonFoundry.Consensus.Economics` — the subsidy schedule and its allocation

`economics.rs`: the subsidy declines linearly from `initialSubsidy` to the
block before `tailHeight` and is `tailSubsidy` from there on; a block's subsidy
is split between the miner, the steward and the community, and the split is
exact because the miner takes what rounding leaves.

The 128-bit products of the source are products in `Nat`, and an `as u64` cast
is `UInt64.ofNat`.  Nothing is truncated: a share is at most the subsidy
(`share_le`), and the schedule is at most `initialSubsidy`.
-/
import CommonFoundry.Platform

namespace CommonFoundry

open Lib Lib.Outcome

structure MonetaryPolicy where
  initialSubsidy : UInt64
  tailHeight : UInt64
  tailSubsidy : UInt64
  stewardPercent : UInt8
  communityPercent : UInt8
  deriving DecidableEq

structure Allocation where
  subsidy : UInt64
  miner : UInt64
  steward : UInt64
  community : UInt64
  feesBurned : UInt64
  deriving DecidableEq

structure CoinbaseClaim where
  miner : UInt64
  steward : UInt64
  community : UInt64
  deriving DecidableEq

inductive EconomicsError where
  | miner (actual expected : UInt64)
  | steward (actual expected : UInt64)
  | community (actual expected : UInt64)
  | invalidPercentages
  | zeroInitialSubsidy
  | invalidEmissionWindow
  | zeroTailSubsidy
  | emissionReachesZeroEarly
  | vanishingPreTailReward
  deriving DecidableEq

/-- `(u128::from(amount) * u128::from(percent) / 100) as u64`. -/
def share (amount : UInt64) (percent : UInt8) : UInt64 :=
  UInt64.ofNat (amount.toNat * percent.toNat / 100)

namespace MonetaryPolicy

/-- Height zero is the virtual genesis and counts as the launch height, so block
one starts at the full initial subsidy.  Called only where `tailHeight` is known
to exceed one, so the emission window is not empty. -/
def decliningSubsidyUnchecked (policy : MonetaryPolicy) (height : UInt64) : UInt64 :=
  let emissionBlocks := policy.tailHeight.toNat - 1
  let elapsed := min (height.toNat - 1) emissionBlocks
  let remaining := emissionBlocks - elapsed
  UInt64.ofNat (policy.initialSubsidy.toNat * remaining / emissionBlocks)

def validate (policy : MonetaryPolicy) : Outcome EconomicsError Unit := do
  require (policy.initialSubsidy ≠ 0) .zeroInitialSubsidy
  require (¬policy.tailHeight ≤ 1) .invalidEmissionWindow
  require (policy.tailSubsidy ≠ 0) .zeroTailSubsidy
  require (¬policy.stewardPercent.toNat + policy.communityPercent.toNat > 100)
    .invalidPercentages
  let precedingSubsidy := policy.decliningSubsidyUnchecked (policy.tailHeight - 1)
  require (precedingSubsidy ≠ 0) .emissionReachesZeroEarly
  let steward := share precedingSubsidy policy.stewardPercent
  let community := share precedingSubsidy policy.communityPercent
  let miner := precedingSubsidy - steward - community
  require (¬(miner = 0 ∨ (policy.stewardPercent ≠ 0 ∧ steward = 0) ∨
    (policy.communityPercent ≠ 0 ∧ community = 0))) .vanishingPreTailReward

def subsidyUnchecked (policy : MonetaryPolicy) (height : UInt64) : UInt64 :=
  if height ≥ policy.tailHeight then policy.tailSubsidy
  else policy.decliningSubsidyUnchecked height

def subsidy (policy : MonetaryPolicy) (height : UInt64) : Outcome EconomicsError UInt64 := do
  policy.validate
  pure (policy.subsidyUnchecked height)

def allocation (policy : MonetaryPolicy) (height fees : UInt64) :
    Outcome EconomicsError Allocation := do
  policy.validate
  let subsidy := policy.subsidyUnchecked height
  if height ≥ policy.tailHeight then
    pure { subsidy, miner := subsidy, steward := 0, community := 0, feesBurned := fees }
  else
    let steward := share subsidy policy.stewardPercent
    let community := share subsidy policy.communityPercent
    let miner := subsidy - steward - community
    pure { subsidy, miner, steward, community, feesBurned := fees }

/-! ## The split is exact -/

theorem toNat_share_le {amount : UInt64} {percent : UInt8} (h : percent.toNat ≤ 100) :
    amount.toNat * percent.toNat / 100 ≤ amount.toNat := by
  have hmul : amount.toNat * percent.toNat ≤ amount.toNat * 100 := Nat.mul_le_mul_left _ h
  exact Nat.div_le_of_le_mul (by omega)

theorem toNat_share {amount : UInt64} {percent : UInt8} (h : percent.toNat ≤ 100) :
    (share amount percent).toNat = amount.toNat * percent.toNat / 100 := by
  rw [share, UInt64.toNat_ofNat']
  exact Nat.mod_eq_of_lt (Nat.lt_of_le_of_lt (toNat_share_le h) (toNat_lt amount))

/-- Two shares whose percentages sum to at most one hundred leave the miner the rest. -/
theorem shares_le {amount : UInt64} {p q : UInt8} (h : p.toNat + q.toNat ≤ 100) :
    (share amount p).toNat + (share amount q).toNat ≤ amount.toNat := by
  rw [toNat_share (by omega), toNat_share (by omega)]
  have hmul : amount.toNat * p.toNat + amount.toNat * q.toNat ≤ amount.toNat * 100 := by
    rw [← Nat.mul_add]
    exact Nat.mul_le_mul_left _ h
  omega

theorem validate_percent {policy : MonetaryPolicy} (h : policy.validate = .ok ()) :
    policy.stewardPercent.toNat + policy.communityPercent.toNat ≤ 100 := by
  simp only [validate, bind_eq_ok, require_eq_ok] at h
  obtain ⟨_, _, _, _, _, _, _, hpercent, _⟩ := h
  omega

/-- A valid policy has an allocation for every height. -/
theorem allocation_ok {policy : MonetaryPolicy} (h : policy.validate = .ok ())
    (height fees : UInt64) : ∃ allocation, policy.allocation height fees = .ok allocation := by
  rw [allocation, h, ok_bind]
  split
  · exact ⟨_, rfl⟩
  · exact ⟨_, rfl⟩

/-- The shares of an allocation sum to the scheduled subsidy of its height. -/
theorem allocation_exact {policy : MonetaryPolicy} {height fees : UInt64} {a : Allocation}
    (h : policy.allocation height fees = .ok a) :
    a.miner.toNat + a.steward.toNat + a.community.toNat
        = (policy.subsidyUnchecked height).toNat ∧
      a.subsidy = policy.subsidyUnchecked height ∧ a.feesBurned = fees := by
  simp only [allocation, bind_eq_ok] at h
  obtain ⟨_, hvalid, h⟩ := h
  split at h
  · rw [pure_eq_ok] at h
    subst h
    exact ⟨rfl, rfl, rfl⟩
  · rw [pure_eq_ok] at h
    subst h
    refine ⟨?_, rfl, rfl⟩
    have hle : (share (policy.subsidyUnchecked height) policy.stewardPercent).toNat +
        (share (policy.subsidyUnchecked height) policy.communityPercent).toNat ≤
        (policy.subsidyUnchecked height).toNat := shares_le (validate_percent hvalid)
    simp only
    generalize policy.subsidyUnchecked height = subsidy at hle ⊢
    generalize share subsidy policy.stewardPercent = steward at hle ⊢
    generalize share subsidy policy.communityPercent = community at hle ⊢
    have hsteward : steward.toNat ≤ subsidy.toNat := by omega
    have hrest : community.toNat ≤ (subsidy - steward).toNat := by
      rw [toNat_sub_of_le hsteward]; omega
    rw [toNat_sub_of_le hrest, toNat_sub_of_le hsteward]
    omega

end MonetaryPolicy

end CommonFoundry
