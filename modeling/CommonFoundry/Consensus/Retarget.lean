/-
# `CommonFoundry.Consensus.Retarget` — bounds and monotonicity of the retarget

The retarget of a window of two headers or more is one function of four numbers, the
average target, the measured and the expected span, and the limit (`retarget`).  It is
between the claimed bounds, and it grows with the measured span.

`nextWorkTarget` computes with unbounded numbers.  `nextWorkTargetChecked` is the same
code with the abort of every operation written out: the 512-bit sum and product, the
divisions, the 64-bit subtraction of the timestamps, the clamp and the conversion back
to 256 bits.  None of them is ever taken (`nextWorkTargetChecked_eq`), on any history.
-/
import Mathlib.Order.MinMax
import CommonFoundry.Consensus.Difficulty

namespace CommonFoundry

open Lib Lib.Outcome

/-! ## The code, with its aborts -/

/-- A `U512` operation whose result, before it is stored, is `n`. -/
def plain512 (n : Nat) : Outcome DifficultyError Nat :=
  if n < workLimit then .ok n else .error .panic

/-- A `u64` operation whose result, before it is stored, is `n`. -/
def plain64 (n : Nat) : Outcome DifficultyError Nat :=
  if n < 2 ^ 64 then .ok n else .error .panic

/-- `a / b`. -/
def plainDiv (a b : Nat) : Outcome DifficultyError Nat :=
  if b = 0 then .error .panic else .ok (a / b)

/-- `a - b` on `u64`. -/
def plainSub64 (a b : Nat) : Outcome DifficultyError Nat :=
  if b ≤ a then .ok (a - b) else .error .panic

/-- `Ord::clamp`. -/
def clamp (value low high : Nat) : Outcome DifficultyError Nat :=
  if low ≤ high then .ok (max low (min value high)) else .error .panic

/-- `U256::try_from(value).expect(..)`. -/
def expect256 (value : Nat) : Outcome DifficultyError Nat :=
  if value < 2 ^ 256 then .ok value else .error .panic

/-- The loop over the targets. -/
def targetSumChecked (window : List HeaderWork) : Outcome DifficultyError Nat :=
  window.foldlM (fun sum header => do
    require (targetValue header.target ≠ 0) .zeroTarget
    plain512 (sum + targetValue header.target)) 0

/-- `next_work_target`, with the aborts of its operations. -/
def nextWorkTargetChecked (history : List HeaderWork) (powLimit : Bytes32) :
    Outcome DifficultyError Bytes32 := do
  let limit := targetValue powLimit
  require (limit ≠ 0) .zeroPowLimit
  if history.isEmpty then
    return toBytes limit
  let window := history.drop (history.length - dgwWindow)
  require (timestampsOrdered window) .timestampOrder
  let sum ← targetSumChecked window
  match window with
  | [] => .error .panic
  | [only] => pure (toBytes (min (targetValue only.target) limit))
  | first :: second :: rest =>
      let last := (second :: rest).getLast (List.cons_ne_nil _ _)
      let average ← plainDiv sum window.length
      let expectedSpan ← plain64 ((window.length - 1) * targetSpacingSeconds)
      let measuredSpan ← plainSub64 last.timestamp.toNat first.timestamp.toNat
      let longest ← plain64 (expectedSpan * 3)
      let clampedSpan ← clamp measuredSpan (expectedSpan / 3) longest
      let product ← plain512 (average * clampedSpan)
      let adjusted ← plainDiv product expectedSpan
      let capped := min adjusted limit
      let target ← if capped = 0 then pure 1 else expect256 capped
      pure (toBytes target)

/-! ## The retarget as a function of numbers -/

/-- The average scaled by the clamped span, and kept between one and the limit. -/
def retarget (average measured expected limit : Nat) : Nat :=
  max 1 (min (average * max (expected / 3) (min measured (expected * 3)) / expected) limit)

section Retarget

variable {average measured expected limit : Nat}

theorem one_le_retarget : 1 ≤ retarget average measured expected limit := le_max_left _ _

theorem retarget_le (hlimit : 1 ≤ limit) : retarget average measured expected limit ≤ limit :=
  max_le hlimit (min_le_right _ _)

/-- At most three times the average. -/
theorem retarget_le_three_mul (haverage : 1 ≤ average) (hexpected : 0 < expected) :
    retarget average measured expected limit ≤ 3 * average := by
  refine max_le (by omega) (le_trans (min_le_left _ _) ?_)
  have hspan : max (expected / 3) (min measured (expected * 3)) ≤ expected * 3 :=
    max_le (by omega) (min_le_right _ _)
  calc average * max (expected / 3) (min measured (expected * 3)) / expected
      ≤ average * (expected * 3) / expected := Nat.div_le_div_right (Nat.mul_le_mul_left _ hspan)
    _ = 3 * average := by
      rw [Nat.mul_left_comm, Nat.mul_div_cancel_left _ hexpected, Nat.mul_comm]

/-- At least a third, as far as the limit allows. -/
theorem le_retarget : min limit (max 1 (average * (expected / 3) / expected)) ≤
    retarget average measured expected limit := by
  have hthird : average * (expected / 3) / expected ≤
      average * max (expected / 3) (min measured (expected * 3)) / expected :=
    Nat.div_le_div_right (Nat.mul_le_mul_left _ (le_max_left _ _))
  rw [retarget]
  omega

/-- A longer span never gives a smaller target. -/
theorem retarget_mono {measured' : Nat} (h : measured ≤ measured') :
    retarget average measured expected limit ≤ retarget average measured' expected limit := by
  have hspan : max (expected / 3) (min measured (expected * 3)) ≤
      max (expected / 3) (min measured' (expected * 3)) :=
    max_le_max (le_refl _) (min_le_min h (le_refl _))
  exact max_le_max (le_refl _)
    (min_le_min (Nat.div_le_div_right (Nat.mul_le_mul_left _ hspan)) (le_refl _))

end Retarget

/-! ## The window -/

/-- The headers that are averaged. -/
def averagingWindow (history : List HeaderWork) : List HeaderWork :=
  history.drop (history.length - dgwWindow)

/-- The sum of the targets, divided. -/
def averageTarget (window : List HeaderWork) : Nat :=
  (window.map fun header => targetValue header.target).sum / window.length

/-- From the first timestamp to the last. -/
def measuredSpan : List HeaderWork → Nat
  | [] => 0
  | first :: rest =>
      ((first :: rest).getLast (List.cons_ne_nil _ _)).timestamp.toNat - first.timestamp.toNat

/-- The span of a window whose headers are a target spacing apart. -/
def expectedSpan (window : List HeaderWork) : Nat := (window.length - 1) * targetSpacingSeconds

theorem length_averagingWindow (history : List HeaderWork) :
    (averagingWindow history).length ≤ dgwWindow := by
  rw [averagingWindow, List.length_drop]
  omega

theorem timestampsOrdered_iff {window : List HeaderWork} :
    timestampsOrdered window = true ↔ window.Pairwise fun a b => a.timestamp ≤ b.timestamp := by
  rw [← List.isChain_iff_pairwise]
  induction window using timestampsOrdered.induct with
  | case1 a b rest ih =>
      rw [timestampsOrdered, Bool.and_eq_true, decide_eq_true_eq, ih, List.isChain_cons_cons]
  | case2 window hshort =>
      match window, hshort with
      | [], _ => exact ⟨fun _ => .nil, fun _ => rfl⟩
      | [a], _ => exact ⟨fun _ => .singleton a, fun _ => rfl⟩
      | a :: b :: rest, hshort => exact absurd rfl (hshort a b rest)

theorem targetSum_eq {window : List HeaderWork}
    (htargets : ∀ header ∈ window, targetValue header.target ≠ 0) :
    targetSum window = .ok (window.map fun header => targetValue header.target).sum := by
  have hsteps : ∀ header ∈ window, ∀ sum : Nat, (do
      require (targetValue header.target ≠ 0) DifficultyError.zeroTarget
      pure (sum + targetValue header.target) : Outcome DifficultyError Nat) =
        .ok (sum + targetValue header.target) := by
    intro header hmem sum
    rw [require_pos (htargets header hmem), ok_bind]
    rfl
  rw [targetSum, foldlM_eq_ok hsteps, List.sum_eq_foldl, List.foldl_map]

/-- The loop over the targets ends only if none is zero. -/
theorem targetSum_eq_ok {window : List HeaderWork} {sum : Nat} (h : targetSum window = .ok sum) :
    (∀ header ∈ window, targetValue header.target ≠ 0) ∧
      sum = (window.map fun header => targetValue header.target).sum := by
  have htargets : ∀ (l : List HeaderWork) (start total : Nat),
      l.foldlM (fun sum header => do
        require (targetValue header.target ≠ 0) DifficultyError.zeroTarget
        pure (sum + targetValue header.target)) start = .ok total →
      ∀ header ∈ l, targetValue header.target ≠ 0 := by
    intro l
    induction l with
    | nil => exact fun _ _ _ _ hmem => by cases hmem
    | cons header l ih =>
        intro start total hloop
        obtain ⟨next, hstep, hloop⟩ := foldlM_cons_eq_ok.mp hloop
        obtain ⟨_, hheader, _⟩ := bind_eq_ok.mp hstep
        exact List.forall_mem_cons.mpr ⟨require_eq_ok.mp hheader, ih next total hloop⟩
  have hnonzero := htargets window 0 sum h
  rw [targetSum_eq hnonzero] at h
  exact ⟨hnonzero, (Except.ok.inj h).symm⟩

theorem pow_mul_pow_le_workLimit {a b : Nat} (h : a + b ≤ 512) : 2 ^ a * 2 ^ b ≤ workLimit := by
  have hpow : ∀ width, a + b ≤ width → 2 ^ a * 2 ^ b ≤ 2 ^ width := by
    intro width hwidth
    rw [← Nat.pow_add]
    exact Nat.pow_le_pow_right Nat.two_pos hwidth
  exact hpow 512 h

/-- A target and a span of less than 16 bits. -/
theorem mul_lt_workLimit {average span : Nat} (haverage : average < 2 ^ 256)
    (hspan : span < 2 ^ 16) : average * span < workLimit :=
  lt_of_lt_of_le (Nat.mul_lt_mul'' haverage hspan) (pow_mul_pow_le_workLimit (by omega))

theorem dgwWindow_mul_le : dgwWindow * 2 ^ 256 ≤ workLimit :=
  le_trans (Nat.mul_le_mul_right (2 ^ 256) (show dgwWindow ≤ 2 ^ 8 by decide))
    (pow_mul_pow_le_workLimit (by omega))

/-- The sum fits in 512 bits: it has far fewer than `2 ^ 256` terms. -/
theorem targetSumChecked_eq {window : List HeaderWork} (hlength : window.length ≤ dgwWindow) :
    targetSumChecked window = targetSum window := by
  obtain ⟨limit, hlimit⟩ : ∃ limit : Nat, 2 ^ 256 = limit := ⟨_, rfl⟩
  have hlt : ∀ target, targetValue target < limit := by
    rw [← hlimit]
    exact targetValue_lt
  have hmax : dgwWindow * limit ≤ workLimit := by
    rw [← hlimit]
    exact dgwWindow_mul_le
  have hloop : ∀ (l : List HeaderWork) (sum : Nat), sum + l.length * limit ≤ workLimit →
      l.foldlM (fun sum header => do
        require (targetValue header.target ≠ 0) DifficultyError.zeroTarget
        plain512 (sum + targetValue header.target)) sum =
      l.foldlM (fun sum header => do
        require (targetValue header.target ≠ 0) DifficultyError.zeroTarget
        pure (sum + targetValue header.target)) sum := by
    intro l
    induction l with
    | nil =>
        intro sum _
        rw [List.foldlM_nil, List.foldlM_nil]
    | cons header l ih =>
        intro sum hbound
        have hheader := hlt header.target
        rw [List.length_cons, Nat.succ_mul] at hbound
        have hfits : sum + targetValue header.target < workLimit := by omega
        rw [List.foldlM_cons, List.foldlM_cons, plain512, if_pos hfits]
        by_cases hzero : targetValue header.target ≠ 0
        · rw [require_pos hzero, ok_bind, ok_bind]
          exact ih _ (by omega)
        · rw [require_neg hzero, fail_bind, fail_bind, fail_bind, fail_bind]
  refine hloop window 0 ?_
  rw [Nat.zero_add]
  exact le_trans (Nat.mul_le_mul_right limit hlength) hmax

/-- A sum of as many terms as the window has headers. -/
theorem sum_targets_le {limit : Nat} : ∀ {window : List HeaderWork},
    (∀ header ∈ window, targetValue header.target ≤ limit) →
    (window.map fun header => targetValue header.target).sum ≤ window.length * limit
  | [], _ => Nat.zero_le _
  | header :: window, h => by
      obtain ⟨hheader, hwindow⟩ := List.forall_mem_cons.mp h
      have hsum := sum_targets_le hwindow
      rw [List.map_cons, List.sum_cons, List.length_cons, Nat.succ_mul]
      omega

theorem le_sum_targets : ∀ {window : List HeaderWork},
    (∀ header ∈ window, targetValue header.target ≠ 0) →
    window.length ≤ (window.map fun header => targetValue header.target).sum
  | [], _ => Nat.zero_le _
  | header :: window, h => by
      obtain ⟨hheader, hwindow⟩ := List.forall_mem_cons.mp h
      have hsum := le_sum_targets hwindow
      rw [List.map_cons, List.sum_cons, List.length_cons]
      omega

/-- The average of targets is a target. -/
theorem averageTarget_lt (window : List HeaderWork) : averageTarget window < 2 ^ 256 := by
  have hsum : (window.map fun header => targetValue header.target).sum ≤
      window.length * (2 ^ 256 - 1) :=
    sum_targets_le fun header _ => Nat.le_pred_of_lt (targetValue_lt header.target)
  exact Nat.lt_of_le_of_lt (Nat.div_le_of_le_mul hsum) (by omega)

theorem one_le_averageTarget {window : List HeaderWork} (hne : window ≠ [])
    (htargets : ∀ header ∈ window, targetValue header.target ≠ 0) : 1 ≤ averageTarget window :=
  Nat.div_pos (le_sum_targets htargets) (List.length_pos_iff.mpr hne)

theorem targetValue_toBytes {value : Nat} (h : value < 2 ^ 256) :
    targetValue (toBytes value) = value := by
  have hpow : 256 ^ 32 = 2 ^ 256 := by decide
  rw [targetValue, toBytes, ofBe_toBe, hpow]
  exact Nat.mod_eq_of_lt h

/-! ## The retarget of a history -/

/-- No header of a window that is in order is older than the first. -/
theorem first_le_last {first second : HeaderWork} {rest : List HeaderWork}
    (h : timestampsOrdered (first :: second :: rest) = true) :
    first.timestamp ≤ ((second :: rest).getLast (List.cons_ne_nil _ _)).timestamp :=
  (List.pairwise_cons.mp (timestampsOrdered_iff.mp h)).1 _ (List.getLast_mem _)

theorem if_zero_eq_max (value : Nat) : (if value = 0 then 1 else value) = max 1 value := by
  split <;> omega

/-- The target that follows a window. -/
def windowTarget (window : List HeaderWork) (limit : Nat) : Nat :=
  match window with
  | [] => limit
  | [only] => min (targetValue only.target) limit
  | _ => retarget (averageTarget window) (measuredSpan window) (expectedSpan window) limit

theorem windowTarget_of_two_le {window : List HeaderWork} {limit : Nat}
    (htwo : 2 ≤ window.length) : windowTarget window limit =
      retarget (averageTarget window) (measuredSpan window) (expectedSpan window) limit := by
  cases window with
  | nil => exact absurd htwo (by decide)
  | cons first window =>
      cases window with
      | nil => exact absurd htwo (by rw [List.length_singleton]; decide)
      | cons second rest => rfl

theorem averagingWindow_ne_nil {history : List HeaderWork} (hne : history ≠ []) :
    averagingWindow history ≠ [] := by
  have hpos := List.length_pos_iff.mpr hne
  have hw : dgwWindow = 180 := rfl
  rw [averagingWindow, ← List.length_pos_iff, List.length_drop]
  omega

/-- The code computes the target that follows the window. -/
theorem nextWorkTarget_eq {history : List HeaderWork} {powLimit : Bytes32}
    (hlimit : targetValue powLimit ≠ 0)
    (hordered : timestampsOrdered (averagingWindow history) = true)
    (htargets : ∀ header ∈ averagingWindow history, targetValue header.target ≠ 0) :
    nextWorkTarget history powLimit =
      .ok (toBytes (windowTarget (averagingWindow history) (targetValue powLimit))) := by
  rw [nextWorkTarget, require_pos hlimit, ok_bind]
  by_cases hnil : history = []
  · subst hnil
    rfl
  · have hempty : ¬history.isEmpty = true := by
      rw [List.isEmpty_iff]
      exact hnil
    have hwindow : history.drop (history.length - dgwWindow) = averagingWindow history := rfl
    have hne := averagingWindow_ne_nil hnil
    rw [if_neg hempty]
    simp only [hwindow, targetSum_eq htargets, require_pos hordered, ok_bind]
    generalize averagingWindow history = window at hne
    cases window with
    | nil => exact absurd rfl hne
    | cons first window =>
        cases window with
        | nil => rfl
        | cons second rest =>
            simp only [windowTarget, measuredSpan, List.getLast_cons_cons, retarget,
              averageTarget, expectedSpan, if_zero_eq_max]
            rfl

/-- No operation of the code leaves its range, on any history. -/
theorem nextWorkTargetChecked_eq (history : List HeaderWork) (powLimit : Bytes32) :
    nextWorkTargetChecked history powLimit = nextWorkTarget history powLimit := by
  have hlength := length_averagingWindow history
  have hwindow : history.drop (history.length - dgwWindow) = averagingWindow history := rfl
  rw [nextWorkTargetChecked, nextWorkTarget]
  refine congrArg (fun f => require (targetValue powLimit ≠ 0) DifficultyError.zeroPowLimit >>= f)
    (funext fun _ => ?_)
  split
  case isTrue => rfl
  case isFalse =>
      rw [hwindow]
      dsimp only
      rw [targetSumChecked_eq hlength]
      by_cases hordered : timestampsOrdered (averagingWindow history) = true
      · rw [require_pos hordered, ok_bind, ok_bind]
        cases hsum : targetSum (averagingWindow history) with
        | error fault => rw [error_bind, error_bind]
        | ok sum =>
            have htotal := (targetSum_eq_ok hsum).2
            rw [ok_bind, ok_bind, htotal]
            have haverage := averageTarget_lt (averagingWindow history)
            generalize averagingWindow history = window at hlength hordered haverage
            cases window with
            | nil => dsimp only
            | cons first window =>
                cases window with
                | nil => dsimp only
                | cons second rest =>
                    have hspan := UInt64.le_iff_toNat_le.mp (first_le_last hordered)
                    have hcount : (first :: second :: rest).length = rest.length + 2 := rfl
                    have hw : dgwWindow = 180 := rfl
                    have hspacing : targetSpacingSeconds = 60 := rfl
                    generalize hexpected : ((first :: second :: rest).length - 1) *
                      targetSpacingSeconds = expected
                    have hbound : 0 < expected ∧ expected * 3 < 2 ^ 16 := by
                      rw [hspacing] at hexpected
                      omega
                    generalize hclamped : max (expected / 3) (min
                      (((second :: rest).getLast (List.cons_ne_nil _ _)).timestamp.toNat -
                        first.timestamp.toNat) (expected * 3)) = clamped
                    have hclamp : clamped < 2 ^ 16 := by omega
                    have hproduct := mul_lt_workLimit haverage hclamp
                    dsimp only
                    rw [plainDiv, if_neg (by omega), ok_bind, plain64,
                      if_pos (by omega), ok_bind, plainSub64, if_pos hspan, ok_bind, plain64,
                      if_pos (by omega), ok_bind, clamp, if_pos (by omega), ok_bind, hclamped,
                      ← averageTarget, plain512, if_pos hproduct, ok_bind, plainDiv,
                      if_neg (by omega), ok_bind]
                    generalize averageTarget (first :: second :: rest) * clamped / expected =
                      adjusted
                    have hlimit := targetValue_lt powLimit
                    split
                    · rfl
                    · rw [expect256, if_pos (by omega), ok_bind]
      · rw [require_neg hordered, fail_bind, fail_bind]

/-! ## Bounds -/

/-- A target the retarget may return. -/
def InRange (powLimit target : Bytes32) : Prop :=
  1 ≤ targetValue target ∧ targetValue target ≤ targetValue powLimit

/-- What the retarget returns for a window: a target in range; for two headers or more
between a third of the average, as far as the limit allows, and three times the average;
for one header its own target, as far as the limit allows. -/
structure Retargets (window : List HeaderWork) (powLimit target : Bytes32) : Prop where
  inRange : InRange powLimit target
  upper : 2 ≤ window.length → targetValue target ≤ 3 * averageTarget window
  lower : 2 ≤ window.length →
    min (targetValue powLimit)
      (max 1 (averageTarget window * (expectedSpan window / 3) / expectedSpan window)) ≤
      targetValue target
  single : ∀ header, window = [header] →
    targetValue target = min (targetValue header.target) (targetValue powLimit)

theorem windowTarget_bounds {window : List HeaderWork} {limit : Nat} (hlimit : 1 ≤ limit)
    (htargets : ∀ header ∈ window, targetValue header.target ≠ 0) :
    1 ≤ windowTarget window limit ∧ windowTarget window limit ≤ limit := by
  cases window with
  | nil => exact ⟨hlimit, le_refl _⟩
  | cons first window =>
      cases window with
      | nil =>
          have hfirst := htargets first List.mem_cons_self
          rw [windowTarget]
          omega
      | cons second rest => exact ⟨one_le_retarget, retarget_le hlimit⟩

/-- The target that follows a window is within the bounds. -/
theorem retargets_windowTarget {window : List HeaderWork} {powLimit : Bytes32}
    (hlimit : targetValue powLimit ≠ 0)
    (htargets : ∀ header ∈ window, targetValue header.target ≠ 0) :
    Retargets window powLimit (toBytes (windowTarget window (targetValue powLimit))) := by
  obtain ⟨hlow, hhigh⟩ := windowTarget_bounds (Nat.one_le_iff_ne_zero.mpr hlimit) htargets
  have hsame := targetValue_toBytes (Nat.lt_of_le_of_lt hhigh (targetValue_lt powLimit))
  refine ⟨?_, fun htwo => ?_, fun htwo => ?_, fun header hsingle => ?_⟩
  · rw [InRange, hsame]
    exact ⟨hlow, hhigh⟩
  · have hne : window ≠ [] := fun hnil => by rw [hnil] at htwo; exact absurd htwo (by decide)
    rw [hsame, windowTarget_of_two_le htwo]
    exact retarget_le_three_mul (one_le_averageTarget hne htargets)
      (Nat.mul_pos (by omega) (by decide))
  · rw [hsame, windowTarget_of_two_le htwo]
    exact le_retarget
  · rw [hsame, hsingle]
    rfl

/-- Only the targets and the number of the headers go into the average. -/
theorem averageTarget_congr {window window' : List HeaderWork}
    (h : window.map (·.target) = window'.map (·.target)) :
    averageTarget window = averageTarget window' := by
  have hlength : window.length = window'.length := by
    rw [← List.length_map (·.target), h, List.length_map]
  have hvalues : window.map (fun header => targetValue header.target) =
      window'.map fun header => targetValue header.target := by
    have hmap := congrArg (List.map targetValue) h
    rwa [List.map_map, List.map_map] at hmap
  rw [averageTarget, averageTarget, hlength, hvalues]

/-- A longer span over the same targets never gives a smaller target. -/
theorem windowTarget_mono {window window' : List HeaderWork} {limit : Nat}
    (h : window.map (·.target) = window'.map (·.target))
    (hspan : measuredSpan window ≤ measuredSpan window') :
    windowTarget window limit ≤ windowTarget window' limit := by
  have hlength : window.length = window'.length := by
    rw [← List.length_map (·.target), h, List.length_map]
  by_cases htwo : 2 ≤ window.length
  · rw [windowTarget_of_two_le htwo, windowTarget_of_two_le (by omega), averageTarget_congr h,
      expectedSpan, expectedSpan, hlength]
    exact retarget_mono hspan
  · match window, window', h with
    | [], [], _ => exact le_refl _
    | [only], [only'], h =>
        have htarget : only.target = only'.target := (List.cons.inj h).1
        rw [windowTarget, windowTarget, htarget]
    | _ :: _ :: _, _, _ => exact absurd (Nat.le_add_left 2 _) htwo

/-- The retarget of a history in order without zero targets returns, with no operation
out of its range, a target within the bounds; and a longer span over the same targets
does not give a smaller one. -/
theorem nextWorkTarget_bounds (history : List HeaderWork) (powLimit : Bytes32)
    (hlimit : targetValue powLimit ≠ 0)
    (hordered : (averagingWindow history).Pairwise fun a b => a.timestamp ≤ b.timestamp)
    (htargets : ∀ header ∈ averagingWindow history, targetValue header.target ≠ 0) :
    ∃ target, nextWorkTargetChecked history powLimit = .ok target ∧
      Retargets (averagingWindow history) powLimit target ∧
      ∀ history' : List HeaderWork,
        (averagingWindow history).map (·.target) = (averagingWindow history').map (·.target) →
        ((averagingWindow history').Pairwise fun a b => a.timestamp ≤ b.timestamp) →
        measuredSpan (averagingWindow history) ≤ measuredSpan (averagingWindow history') →
        ∃ target', nextWorkTargetChecked history' powLimit = .ok target' ∧
          targetValue target ≤ targetValue target' := by
  have hpos := Nat.one_le_iff_ne_zero.mpr hlimit
  have hfits : ∀ window : List HeaderWork,
      (∀ header ∈ window, targetValue header.target ≠ 0) →
      targetValue (toBytes (windowTarget window (targetValue powLimit))) =
        windowTarget window (targetValue powLimit) := fun window h =>
    targetValue_toBytes
      (Nat.lt_of_le_of_lt (windowTarget_bounds hpos h).2 (targetValue_lt powLimit))
  rw [nextWorkTargetChecked_eq, nextWorkTarget_eq hlimit (timestampsOrdered_iff.mpr hordered)
    htargets]
  refine ⟨_, rfl, retargets_windowTarget hlimit htargets, ?_⟩
  intro history' hsame hordered' hspan
  have htargets' : ∀ header ∈ averagingWindow history', targetValue header.target ≠ 0 := by
    intro header hmem
    have hmap := List.mem_map_of_mem (f := (·.target)) hmem
    rw [← hsame] at hmap
    obtain ⟨other, hother, htarget⟩ := List.mem_map.mp hmap
    rw [← htarget]
    exact htargets other hother
  rw [nextWorkTargetChecked_eq, nextWorkTarget_eq hlimit (timestampsOrdered_iff.mpr hordered')
    htargets']
  refine ⟨_, rfl, ?_⟩
  rw [hfits _ htargets, hfits _ htargets']
  exact windowTarget_mono hsame hspan

/-- Three headers a minute apart keep their target. -/
theorem nextWorkTarget_bounds_sample :
    ∃ target, nextWorkTargetChecked
        [⟨0, toBytes 900⟩, ⟨60, toBytes 900⟩, ⟨120, toBytes 900⟩] (toBytes 1000) = .ok target ∧
      Retargets [⟨0, toBytes 900⟩, ⟨60, toBytes 900⟩, ⟨120, toBytes 900⟩] (toBytes 1000)
        target := by
  obtain ⟨target, htarget, hbounds, _⟩ := nextWorkTarget_bounds
    [⟨0, toBytes 900⟩, ⟨60, toBytes 900⟩, ⟨120, toBytes 900⟩] (toBytes 1000) (by decide)
    (by decide) (by decide)
  exact ⟨target, htarget, hbounds⟩

end CommonFoundry
