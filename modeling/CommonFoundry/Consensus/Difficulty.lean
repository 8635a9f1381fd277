/-
# `CommonFoundry.Consensus.Difficulty` — targets, work and the retarget

`difficulty.rs`.  A target is a 256-bit big-endian number; the work it stands
for is `⌊2²⁵⁶ / (target + 1)⌋`, and cumulative work is a 512-bit sum that is
refused when it overflows.  The 256- and 512-bit integers of the source are
`Nat` here, with the overflow of the one checked addition written out.

`blockWork_pos` is what fork choice rests on: every valid target is worth at
least one unit, so a chain's work grows strictly along it.
-/
import CommonFoundry.Platform

namespace CommonFoundry

open Lib Lib.Outcome

/-- `TARGET_SPACING_SECONDS`. -/
def targetSpacingSeconds : Nat := 60

/-- `DGW_WINDOW`. -/
def dgwWindow : Nat := 180

structure HeaderWork where
  timestamp : UInt64
  target : Bytes32
  deriving DecidableEq

inductive DifficultyError where
  | zeroPowLimit
  | zeroTarget
  | timestampOrder
  | workOverflow
  deriving DecidableEq, Repr

/-- `U256::from_big_endian`. -/
def targetValue (target : Bytes32) : Nat := ofBe target.1

/-- `value.to_big_endian()`. -/
def toBytes (value : Nat) : Bytes32 := ⟨toBe 32 value, length_toBe 32 value⟩

def blockWork (target : Bytes32) : Outcome DifficultyError Nat := do
  require (targetValue target ≠ 0) .zeroTarget
  pure (2 ^ 256 / (targetValue target + 1))

/-- What a `U512` can hold. -/
def workLimit : Nat := 2 ^ 512

def addChainWork (current : Nat) (target : Bytes32) : Outcome DifficultyError Nat := do
  let work ← blockWork target
  require (current + work < workLimit) .workOverflow
  pure (current + work)

/-- The test of `window.windows(2)`: no header is older than the one before it. -/
def timestampsOrdered : List HeaderWork → Bool
  | a :: b :: rest => decide (a.timestamp ≤ b.timestamp) && timestampsOrdered (b :: rest)
  | _ => true

/-- The sum of the targets of a window, none of which may be zero. -/
def targetSum (window : List HeaderWork) : Outcome DifficultyError Nat :=
  window.foldlM (fun sum header => do
    require (targetValue header.target ≠ 0) .zeroTarget
    pure (sum + targetValue header.target)) 0

def nextWorkTarget (history : List HeaderWork) (powLimit : Bytes32) :
    Outcome DifficultyError Bytes32 := do
  let limit := targetValue powLimit
  require (limit ≠ 0) .zeroPowLimit
  if history.isEmpty then
    return toBytes limit
  let window := history.drop (history.length - dgwWindow)
  require (timestampsOrdered window) .timestampOrder
  let sum ← targetSum window
  match window with
  | [] => .error .panic
  | [only] => pure (toBytes (min (targetValue only.target) limit))
  | first :: second :: rest =>
      let last := (second :: rest).getLast (List.cons_ne_nil _ _)
      let average := sum / window.length
      let expectedSpan := (window.length - 1) * targetSpacingSeconds
      let measuredSpan := last.timestamp.toNat - first.timestamp.toNat
      let clampedSpan := max (expectedSpan / 3) (min measuredSpan (expectedSpan * 3))
      let adjusted := average * clampedSpan / expectedSpan
      let capped := min adjusted limit
      pure (toBytes (if capped = 0 then 1 else capped))

/-! ## Work -/

theorem targetValue_lt (target : Bytes32) : targetValue target < 2 ^ 256 := by
  have h := ofBe_lt target.1
  rw [target.2] at h
  exact h

theorem blockWork_pos {target : Bytes32} {work : Nat} (h : blockWork target = .ok work) :
    0 < work := by
  simp only [blockWork, bind_eq_ok, pure_eq_ok] at h
  obtain ⟨_, _, rfl⟩ := h
  have hlt := targetValue_lt target
  exact Nat.div_pos hlt (Nat.succ_pos _)

theorem lt_workLimit {work : Nat} (h : work < 2 ^ 64) : work < workLimit := by
  have hpow : ∀ width, 64 < width → work < 2 ^ width :=
    fun width hwidth => h.trans (Nat.pow_lt_pow_right Nat.one_lt_two hwidth)
  rw [workLimit]
  exact hpow 512 (by omega)

theorem addChainWork_eq_ok {current total : Nat} {target : Bytes32} :
    addChainWork current target = .ok total ↔
      ∃ work, blockWork target = .ok work ∧ total = current + work ∧ total < workLimit := by
  simp only [addChainWork, bind_eq_ok, require_eq_ok, pure_eq_ok]
  constructor
  · rintro ⟨work, hwork, _, hlt, rfl⟩
    exact ⟨work, hwork, rfl, hlt⟩
  · rintro ⟨work, hwork, rfl, hlt⟩
    exact ⟨work, hwork, (), hlt, rfl⟩

end CommonFoundry
