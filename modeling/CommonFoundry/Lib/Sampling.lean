/-
# `CommonFoundry.Lib.Sampling` — as many values as asked for, from an endless stream

Rejection sampling: a stream is read block by block, the values that are not kept are
dropped, and the loop ends when enough are there.  It ends on every stream in which the
kept values do not run out; each turn either adds a value or comes closer to the next one
that is kept, which is the measure of `sample`.
-/
import Mathlib.Data.Nat.Find
import Mathlib.Tactic.Common

namespace Lib

variable {α : Type} {keep : α → Bool} {stream : Nat → α}

/-- Values that are kept come again and again. -/
def Endless (keep : α → Bool) (stream : Nat → α) : Prop :=
  ∀ n, ∃ m, n ≤ m ∧ keep (stream m) = true

/-- The next block of the stream. -/
def streamBlock (stream : Nat → α) (size position : Nat) : List α :=
  (List.range size).map fun i => stream (position + i)

/-- If nothing of a block is kept, the next value that is kept comes after it. -/
theorem le_of_filter_block {size position m : Nat} (hposition : position ≤ m)
    (hkeep : keep (stream m) = true)
    (hnone : (streamBlock stream size position).filter keep = []) : position + size ≤ m := by
  by_contra hlt
  have hmem : stream m ∈ streamBlock stream size position :=
    List.mem_map.mpr ⟨m - position, List.mem_range.mpr (by omega), by congr 1; omega⟩
  exact List.filter_eq_nil_iff.mp hnone _ hmem hkeep

/-- Values from `position` on are added until there are `count`. -/
def sample (h : Endless keep stream) {size : Nat} (hsize : 0 < size) (count position : Nat)
    (values : List α) : List α :=
  if values.length < count then
    sample h hsize count (position + size) (values ++
      ((streamBlock stream size position).filter keep).take (count - values.length))
  else values
termination_by (count - values.length, Nat.find (h position) - position)
decreasing_by
  rename_i hlt
  rw [List.length_append, List.length_take]
  by_cases hnone : (streamBlock stream size position).filter keep = []
  · rw [hnone, List.length_nil, Nat.min_zero, Nat.add_zero]
    obtain ⟨hposition, hkeep⟩ := Nat.find_spec (h position)
    have hafter := le_of_filter_block hposition hkeep hnone
    have hnext := Nat.find_min' (h (position + size)) ⟨hafter, hkeep⟩
    exact Prod.Lex.right _ (by omega)
  · have hpos := List.length_pos_iff.mpr hnone
    exact Prod.Lex.left _ _ (by omega)

section

variable (h : Endless keep stream) {size : Nat} (hsize : 0 < size) (count : Nat)

theorem length_sample (position : Nat) (values : List α) (hle : values.length ≤ count) :
    (sample h hsize count position values).length = count := by
  induction position, values using sample.induct h hsize count with
  | case1 position values hlt ih =>
      rw [sample, if_pos hlt]
      refine ih ?_
      rw [List.length_append, List.length_take]
      omega
  | case2 position values hge =>
      rw [sample, if_neg hge]
      omega

theorem sample_kept (position : Nat) (values : List α) (hkept : ∀ a ∈ values, keep a = true) :
    ∀ a ∈ sample h hsize count position values, keep a = true := by
  induction position, values using sample.induct h hsize count with
  | case1 position values hlt ih =>
      rw [sample, if_pos hlt]
      refine ih fun a ha => ?_
      rcases List.mem_append.mp ha with ha | ha
      · exact hkept a ha
      · exact (List.mem_filter.mp (List.mem_of_mem_take ha)).2
  | case2 position values hge =>
      rw [sample, if_neg hge]
      exact hkept

end

end Lib
