/-
# `CommonFoundry.Consensus.Emission` — the shares of a valid policy, height by height

`MonetaryPolicy.validate` looks at the last height before the tail only.  The subsidy
falls with the height, so a share that is not zero there is not zero at any height
before it: this holds of the steward's and of the community's share, each of which is
one rounded product.  The miner takes what is left, which need not fall with the
subsidy.  Where the two percentages make up one hundred, the miner has the one unit
that both roundings lose, or nothing (`rest_pos_iff`).

`Minable` is what every height needs so that its canonical coinbase pays no output of
zero, and `minable_iff` says at which heights of a valid policy it holds.

The canonical coinbase is built by `Coinbase.new` and checked by `validateCoinbase`,
which finds the shares by their position.  `coinbaseAgrees_iff` says when the two
agree.
-/
import CommonFoundry.Consensus.Preflight
import CommonFoundry.Lib.FloorSum

namespace CommonFoundry

open Lib Lib.Outcome

/-- What is left of `s` after two rounded shares is nothing only where the percentages
make up one hundred and neither share is rounded. -/
theorem rest_pos_iff {s p q : Nat} (hs : 0 < s) (hpercent : p + q ≤ 100) :
    s * p / 100 + s * q / 100 < s ↔ p + q < 100 ∨ ¬100 ∣ s * p := by
  by_cases hall : p + q = 100
  · obtain rfl : q = 100 - p := by omega
    have hpair := floor_add_floor (a := s) (n := 100) (k := p) (by omega) (by omega)
    split at hpair
    case isTrue hdvd =>
        constructor
        · intro hlt
          omega
        · rintro (hlt | hnot)
          · omega
          · exact absurd hdvd hnot
    case isFalse hdvd => exact ⟨fun _ => .inr hdvd, fun _ => by omega⟩
  · have hsum : s * p + s * q < s * 100 := by
      rw [← Nat.mul_add]
      exact Nat.mul_lt_mul_of_pos_left (by omega) hs
    exact ⟨fun _ => .inl (by omega), fun _ => by omega⟩

namespace MonetaryPolicy

variable {policy : MonetaryPolicy} {height fees : UInt64}

/-- The number of heights before the tail. -/
def emissionBlocks (policy : MonetaryPolicy) : Nat := policy.tailHeight.toNat - 1

/-- The declining subsidy when `remaining` of the emission blocks are left. -/
def scheduled (policy : MonetaryPolicy) (remaining : Nat) : Nat :=
  policy.initialSubsidy.toNat * remaining / policy.emissionBlocks

/-- The emission blocks that are left at a height, itself included. -/
def remainingAt (policy : MonetaryPolicy) (height : UInt64) : Nat :=
  policy.emissionBlocks - (height.toNat - 1)

theorem scheduled_mono {m n : Nat} (h : m ≤ n) : policy.scheduled m ≤ policy.scheduled n :=
  Nat.div_le_div_right (Nat.mul_le_mul_left _ h)

theorem scheduled_le {remaining : Nat} (h : remaining ≤ policy.emissionBlocks) :
    policy.scheduled remaining ≤ policy.initialSubsidy.toNat := by
  refine Nat.div_le_of_le_mul ?_
  rw [Nat.mul_comm policy.emissionBlocks]
  exact Nat.mul_le_mul_left _ h

theorem toNat_decliningSubsidyUnchecked (height : UInt64) :
    (policy.decliningSubsidyUnchecked height).toNat = policy.scheduled (policy.remainingAt height) := by
  have hremaining : policy.emissionBlocks - min (height.toNat - 1) policy.emissionBlocks =
      policy.remainingAt height := by
    rw [remainingAt]
    omega
  have hle : policy.scheduled (policy.remainingAt height) ≤ policy.initialSubsidy.toNat :=
    scheduled_le (Nat.sub_le _ _)
  have hlt := toNat_lt policy.initialSubsidy
  rw [decliningSubsidyUnchecked, UInt64.toNat_ofNat', ← emissionBlocks, hremaining, ← scheduled,
    Nat.mod_eq_of_lt (by omega)]

/-- What `validate` has checked. -/
structure Validated (policy : MonetaryPolicy) : Prop where
  initialSubsidy : 0 < policy.initialSubsidy.toNat
  emissionBlocks : 0 < policy.emissionBlocks
  tailSubsidy : policy.tailSubsidy ≠ 0
  percent : policy.stewardPercent.toNat + policy.communityPercent.toNat ≤ 100
  last : 0 < policy.scheduled 1
  steward : policy.stewardPercent ≠ 0 → 0 < policy.scheduled 1 * policy.stewardPercent.toNat / 100
  community :
    policy.communityPercent ≠ 0 → 0 < policy.scheduled 1 * policy.communityPercent.toNat / 100

theorem toNat_pos {value : UInt64} (h : value ≠ 0) : 0 < value.toNat :=
  UInt64.lt_iff_toNat_lt.mp (gt_zero_of_ne_zero h)

theorem validated (h : policy.validate = .ok ()) : policy.Validated := by
  have hpercent := validate_percent h
  obtain ⟨_, hinitial, h⟩ := bind_eq_ok.mp h
  obtain ⟨_, hwindow, h⟩ := bind_eq_ok.mp h
  obtain ⟨_, htail, h⟩ := bind_eq_ok.mp h
  obtain ⟨_, _, h⟩ := bind_eq_ok.mp h
  obtain ⟨_, hpreceding, h⟩ := bind_eq_ok.mp h
  have hrewards := require_eq_ok.mp h
  have hwindow : 1 < policy.tailHeight.toNat :=
    UInt64.lt_iff_toNat_lt.mp (UInt64.not_le.mp (require_eq_ok.mp hwindow))
  have hlast : policy.remainingAt (policy.tailHeight - 1) = 1 := by
    rw [remainingAt, MonetaryPolicy.emissionBlocks, toNat_sub_of_le (by simp; omega),
      show (1 : UInt64).toNat = 1 from rfl]
    omega
  have hscheduled : (policy.decliningSubsidyUnchecked (policy.tailHeight - 1)).toNat =
      policy.scheduled 1 := by
    rw [toNat_decliningSubsidyUnchecked, hlast]
  push Not at hrewards
  obtain ⟨_, hsteward, hcommunity⟩ := hrewards
  refine ⟨toNat_pos (require_eq_ok.mp hinitial), ?_, require_eq_ok.mp htail, hpercent, ?_, ?_, ?_⟩
  · rw [MonetaryPolicy.emissionBlocks]
    omega
  · rw [← hscheduled]
    exact toNat_pos (require_eq_ok.mp hpreceding)
  · intro hpercent'
    rw [← hscheduled, ← toNat_share (by omega)]
    exact toNat_pos (hsteward hpercent')
  · intro hpercent'
    rw [← hscheduled, ← toNat_share (by omega)]
    exact toNat_pos (hcommunity hpercent')

theorem Validated.one_le_remainingAt (h : policy.Validated)
    (hheight : height < policy.tailHeight) : 1 ≤ policy.remainingAt height := by
  have hlt := UInt64.lt_iff_toNat_lt.mp hheight
  have hblocks := h.emissionBlocks
  rw [MonetaryPolicy.emissionBlocks] at hblocks
  rw [remainingAt, MonetaryPolicy.emissionBlocks]
  omega

/-- Before the tail the subsidy is at least that of the last height before the tail. -/
theorem Validated.last_le (h : policy.Validated) (hheight : height < policy.tailHeight) :
    policy.scheduled 1 ≤ policy.scheduled (policy.remainingAt height) :=
  scheduled_mono (h.one_le_remainingAt hheight)

/-! ## The shares -/

/-- The shares of a height before the tail. -/
theorem allocation_declining (h : policy.validate = .ok ()) (fees : UInt64)
    (hheight : height < policy.tailHeight) : ∃ allocation,
    policy.allocation height fees = .ok allocation ∧
      allocation.subsidy.toNat = policy.scheduled (policy.remainingAt height) ∧
      allocation.steward.toNat = allocation.subsidy.toNat * policy.stewardPercent.toNat / 100 ∧
      allocation.community.toNat =
        allocation.subsidy.toNat * policy.communityPercent.toNat / 100 := by
  have hpercent := validate_percent h
  have htail : ¬height ≥ policy.tailHeight := UInt64.not_le.mpr hheight
  rw [allocation, h, ok_bind, if_neg htail, subsidyUnchecked, if_neg htail]
  exact ⟨_, rfl, toNat_decliningSubsidyUnchecked height, toNat_share (by omega),
    toNat_share (by omega)⟩

/-- In the tail the miner has it all. -/
theorem allocation_tail (h : policy.validate = .ok ()) (fees : UInt64)
    (hheight : policy.tailHeight ≤ height) : policy.allocation height fees = .ok {
      subsidy := policy.tailSubsidy
      miner := policy.tailSubsidy
      steward := 0
      community := 0
      feesBurned := fees } := by
  rw [allocation, h, ok_bind, if_pos hheight, subsidyUnchecked, if_pos hheight]
  rfl

theorem pos_of_toNat_pos {value : UInt64} (h : 0 < value.toNat) : value ≠ 0 := by
  rintro rfl
  exact absurd h (Nat.lt_irrefl 0)

/-- A rounded share that is not zero at the last height before the tail is zero before
that only where there is no percentage. -/
theorem Validated.share_eq_zero_iff (h : policy.Validated) {value : UInt64} {percent : UInt8}
    (hvalue : value.toNat = policy.scheduled (policy.remainingAt height) * percent.toNat / 100)
    (hlast : percent ≠ 0 → 0 < policy.scheduled 1 * percent.toNat / 100)
    (hheight : height < policy.tailHeight) : value = 0 ↔ percent = 0 := by
  constructor
  · intro hzero
    refine Decidable.byContradiction fun hpercent => ?_
    have hle : policy.scheduled 1 * percent.toNat / 100 ≤
        policy.scheduled (policy.remainingAt height) * percent.toNat / 100 :=
      Nat.div_le_div_right (Nat.mul_le_mul_right _ (h.last_le hheight))
    have hpos := Nat.lt_of_lt_of_le (hlast hpercent) hle
    rw [← hvalue] at hpos
    exact pos_of_toNat_pos hpos hzero
  · intro hpercent
    rw [hpercent, UInt8.toNat_zero, Nat.mul_zero, Nat.zero_div] at hvalue
    exact UInt64.toNat_inj.mp hvalue

/-- The shares of a height before the tail that are zero. -/
theorem declining_eq_zero_iff (h : policy.validate = .ok ()) {allocation : Allocation}
    (hallocation : policy.allocation height fees = .ok allocation)
    (hheight : height < policy.tailHeight) :
    (allocation.steward = 0 ↔ policy.stewardPercent = 0) ∧
      (allocation.community = 0 ↔ policy.communityPercent = 0) := by
  obtain ⟨found, hfound, hsubsidy, hsteward, hcommunity⟩ := allocation_declining h fees hheight
  obtain rfl := Except.ok.inj (hfound.symm.trans hallocation)
  rw [hsubsidy] at hsteward hcommunity
  exact ⟨(validated h).share_eq_zero_iff hsteward (validated h).steward hheight,
    (validated h).share_eq_zero_iff hcommunity (validated h).community hheight⟩

/-- The miner's share of a height before the tail. -/
theorem miner_pos_iff (h : policy.validate = .ok ()) {allocation : Allocation}
    (hallocation : policy.allocation height fees = .ok allocation)
    (hheight : height < policy.tailHeight) :
    allocation.miner ≠ 0 ↔ policy.stewardPercent.toNat + policy.communityPercent.toNat < 100 ∨
      ¬100 ∣ policy.scheduled (policy.remainingAt height) * policy.stewardPercent.toNat := by
  obtain ⟨found, hfound, hsubsidy, hsteward, hcommunity⟩ := allocation_declining h fees hheight
  obtain rfl := Except.ok.inj (hfound.symm.trans hallocation)
  obtain ⟨hsum, hscheduled, _⟩ := allocation_exact hallocation
  have hpos : 0 < policy.scheduled (policy.remainingAt height) :=
    Nat.lt_of_lt_of_le (validated h).last ((validated h).last_le hheight)
  rw [← rest_pos_iff hpos (validated h).percent, ← hsubsidy, ← hsteward, ← hcommunity]
  rw [← hscheduled] at hsum
  constructor
  · intro hminer
    have hminer := toNat_pos hminer
    omega
  · intro hlt
    refine pos_of_toNat_pos ?_
    omega

/-! ## Heights that can be mined -/

/-- Every share that the policy configures is worth something at the height, and so is
every output of its canonical coinbase; the shares make up the subsidy; and no height
before the tail that comes before this one has a smaller subsidy. -/
structure Minable (policy : MonetaryPolicy) (height : UInt64) (allocation : Allocation) :
    Prop where
  miner : height < policy.tailHeight → allocation.miner ≠ 0
  steward : height < policy.tailHeight → policy.stewardPercent ≠ 0 → allocation.steward ≠ 0
  community : height < policy.tailHeight → policy.communityPercent ≠ 0 →
    allocation.community ≠ 0
  sum : allocation.miner.toNat + allocation.steward.toNat + allocation.community.toNat =
    allocation.subsidy.toNat
  subsidy : policy.subsidy height = .ok allocation.subsidy
  declining : height < policy.tailHeight → ∀ earlier ≤ height, ∃ subsidy,
    policy.subsidy earlier = .ok subsidy ∧ allocation.subsidy ≤ subsidy
  outputs : ∀ destination rewards,
    ∀ output ∈ (Coinbase.new height allocation destination rewards).outputs, output.value ≠ 0

theorem subsidy_mono {earlier : UInt64} (hle : earlier ≤ height)
    (hheight : height < policy.tailHeight) :
    policy.subsidyUnchecked height ≤ policy.subsidyUnchecked earlier := by
  have hearlier : earlier < policy.tailHeight := UInt64.lt_of_le_of_lt hle hheight
  rw [subsidyUnchecked, subsidyUnchecked, if_neg (UInt64.not_le.mpr hheight),
    if_neg (UInt64.not_le.mpr hearlier), UInt64.le_iff_toNat_le, toNat_decliningSubsidyUnchecked,
    toNat_decliningSubsidyUnchecked]
  refine scheduled_mono ?_
  have hle := UInt64.le_iff_toNat_le.mp hle
  rw [remainingAt, remainingAt]
  omega

theorem subsidy_eq (h : policy.validate = .ok ()) (height : UInt64) :
    policy.subsidy height = .ok (policy.subsidyUnchecked height) := by
  rw [subsidy, h, ok_bind]
  rfl

/-- A height of a valid policy can be mined exactly when the miner's share does not come
out as nothing: in the tail, where the percentages leave it a part, or where a share is
rounded. -/
theorem minable_iff (policy : MonetaryPolicy) (h : policy.validate = .ok ())
    (height fees : UInt64) :
    (∃ allocation, policy.allocation height fees = .ok allocation ∧
      policy.Minable height allocation) ↔
    policy.tailHeight ≤ height ∨
      policy.stewardPercent.toNat + policy.communityPercent.toNat < 100 ∨
      ¬100 ∣ policy.initialSubsidy.toNat *
        (policy.tailHeight.toNat - 1 - (height.toNat - 1)) / (policy.tailHeight.toNat - 1) *
          policy.stewardPercent.toNat := by
  constructor
  · rintro ⟨allocation, hallocation, hminable⟩
    by_cases hheight : policy.tailHeight ≤ height
    · exact .inl hheight
    · have hlt := UInt64.not_le.mp hheight
      exact .inr ((miner_pos_iff h hallocation hlt).mp (hminable.miner hlt))
  · intro hcondition
    obtain ⟨allocation, hallocation⟩ := allocation_ok h height fees
    obtain ⟨hsum, hsubsidy, _⟩ := allocation_exact hallocation
    have hminer : allocation.miner ≠ 0 := by
      rcases hcondition with htail | hcondition
      · rw [allocation_tail h fees htail] at hallocation
        cases hallocation
        exact (validated h).tailSubsidy
      · by_cases hheight : policy.tailHeight ≤ height
        · rw [allocation_tail h fees hheight] at hallocation
          cases hallocation
          exact (validated h).tailSubsidy
        · exact (miner_pos_iff h hallocation (UInt64.not_le.mp hheight)).mpr hcondition
    refine ⟨allocation, hallocation, fun _ => hminer, ?_, ?_, ?_, ?_, ?_, ?_⟩
    · intro hlt hpercent hzero
      exact hpercent ((declining_eq_zero_iff h hallocation hlt).1.mp hzero)
    · intro hlt hpercent hzero
      exact hpercent ((declining_eq_zero_iff h hallocation hlt).2.mp hzero)
    · rw [hsubsidy, hsum]
    · rw [subsidy_eq h, hsubsidy]
    · intro hlt earlier hle
      refine ⟨_, subsidy_eq h earlier, ?_⟩
      rw [hsubsidy]
      exact subsidy_mono hle hlt
    · intro destination rewards output hmem hzero
      exact hminer ((coinbase_channel output hmem).2 hzero)

end MonetaryPolicy

/-- Two heights, and two halves of everything. -/
def evenSplit : MonetaryPolicy where
  initialSubsidy := 6
  tailHeight := 3
  tailSubsidy := 1
  stewardPercent := 50
  communityPercent := 50

/-- The second subsidy is odd: its rounding is the miner's. -/
theorem minable_iff_sample : ∃ allocation, evenSplit.allocation 2 0 = .ok allocation ∧
    evenSplit.Minable 2 allocation :=
  (evenSplit.minable_iff rfl 2 0).mpr (by decide)

/-- The policy is valid, and the first block of its chain pays the miner nothing. -/
theorem evenSplit_unminable : evenSplit.validate = .ok () ∧ ∃ allocation,
    evenSplit.allocation 1 0 = .ok allocation ∧ allocation.miner = 0 ∧
      ¬evenSplit.Minable 1 allocation :=
  ⟨rfl, _, rfl, rfl, fun h => h.miner (by decide) rfl⟩

/-! ## The canonical coinbase -/

/-- The coinbase that is built for the height is accepted there, and is the only one
that is accepted for the miner's key. -/
def CoinbaseAgrees (P : Platform) (policy : MonetaryPolicy) (height fees : UInt64)
    (destination : Bytes32) (rewards : FixedRewardDestinations) : Prop :=
  ∃ allocation, policy.allocation height fees = .ok allocation ∧
    validateCoinbase P (Coinbase.new height allocation destination rewards) allocation rewards =
      .ok () ∧
    ∀ coinbase : Coinbase, coinbase.height = height →
      minerDestination coinbase = .ok destination →
      validateCoinbase P coinbase allocation rewards = .ok () →
      coinbase = Coinbase.new height allocation destination rewards

variable {P : Platform}

/-- What is accepted has the outputs of the canonical coinbase of its own key. -/
theorem eq_new_of_validateCoinbase {coinbase : Coinbase} {allocation : Allocation}
    {destination : Bytes32} {rewards : FixedRewardDestinations}
    (hdestination : minerDestination coinbase = .ok destination)
    (h : validateCoinbase P coinbase allocation rewards = .ok ()) :
    coinbase = Coinbase.new coinbase.height allocation destination rewards := by
  obtain ⟨found, hfound, h⟩ := bind_eq_ok.mp h
  obtain rfl := Except.ok.inj (hfound.symm.trans hdestination)
  obtain ⟨_, _, h⟩ := bind_eq_ok.mp h
  obtain ⟨_, houtputs, _⟩ := bind_eq_ok.mp h
  have houtputs := require_eq_ok.mp houtputs
  cases coinbase with
  | mk height outputs => exact congrArg (Coinbase.mk height) houtputs

/-- The builder and the validator agree exactly where the community's output is not the
second one: in the tail, with a steward's share, or without one for the community. -/
theorem coinbaseAgrees_iff (policy : MonetaryPolicy) (height fees : UInt64)
    (destination : Bytes32) (rewards : FixedRewardDestinations)
    (h : policy.validate = .ok ()) (hkey : P.verifyingKey destination = true) :
    CoinbaseAgrees P policy height fees destination rewards ↔
      policy.tailHeight ≤ height ∨ policy.stewardPercent ≠ 0 ∨ policy.communityPercent = 0 := by
  constructor
  · rintro ⟨allocation, hallocation, hbuilt, _⟩
    have hshares := (validateCoinbase_new hkey).mp hbuilt
    by_cases hheight : policy.tailHeight ≤ height
    · exact .inl hheight
    · obtain ⟨hsteward, hcommunity⟩ :=
        MonetaryPolicy.declining_eq_zero_iff h hallocation (UInt64.not_le.mp hheight)
      by_cases hpercent : policy.stewardPercent = 0
      · exact .inr (.inr (hcommunity.mp (hshares (hsteward.mpr hpercent))))
      · exact .inr (.inl hpercent)
  · intro hcondition
    obtain ⟨allocation, hallocation⟩ := MonetaryPolicy.allocation_ok h height fees
    have hshares : allocation.steward = 0 → allocation.community = 0 := by
      intro hzero
      by_cases hheight : policy.tailHeight ≤ height
      · rw [MonetaryPolicy.allocation_tail h fees hheight] at hallocation
        cases hallocation
        rfl
      · obtain ⟨hsteward, hcommunity⟩ :=
          MonetaryPolicy.declining_eq_zero_iff h hallocation (UInt64.not_le.mp hheight)
        rcases hcondition with htail | hsome | hnone
        · exact absurd htail hheight
        · exact absurd (hsteward.mp hzero) hsome
        · exact hcommunity.mpr hnone
    refine ⟨allocation, hallocation, (validateCoinbase_new hkey).mpr hshares, ?_⟩
    rintro coinbase rfl hdestination haccepted
    exact eq_new_of_validateCoinbase hdestination haccepted

/-- The shares of 25 and 5 percent agree. -/
theorem coinbaseAgrees_iff_sample :
    CoinbaseAgrees samplePlatform
      { initialSubsidy := 50000000000
        tailHeight := 2628001
        tailSubsidy := 500000000
        stewardPercent := 25
        communityPercent := 5 }
      1 0 (toBytes 5) { steward := toBytes 6, community := toBytes 7 } :=
  (coinbaseAgrees_iff _ 1 0 _ _ rfl rfl).mpr (.inr (.inl (by decide)))

/-- A share for the community only. -/
def communityOnly : MonetaryPolicy where
  initialSubsidy := 100
  tailHeight := 2
  tailSubsidy := 1
  stewardPercent := 0
  communityPercent := 5

/-- The policy is valid, and its canonical coinbase is refused at height one. -/
theorem communityOnly_refused : communityOnly.validate = .ok () ∧ ∃ allocation,
    communityOnly.allocation 1 0 = .ok allocation ∧
    samplePlatform.verifyingKey (toBytes 5) = true ∧
    validateCoinbase samplePlatform
      (Coinbase.new 1 allocation (toBytes 5) { steward := toBytes 6, community := toBytes 7 })
      allocation { steward := toBytes 6, community := toBytes 7 } = fail .coinbaseLayout :=
  ⟨rfl, _, rfl, rfl, rfl⟩

end CommonFoundry
