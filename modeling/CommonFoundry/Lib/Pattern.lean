/-
# `CommonFoundry.Lib.Pattern` — patterns over units, matched by backtracking

A pattern is what a regular expression without general repetition comes to: runs of units of
one class, one pattern after another, alternatives, an optional part, and a capturing group.

`run` is the backtracking matcher: it lists what is left of the text after every way to match
a front of it, the way that is tried first in front.  `Matches` says which texts a pattern
describes, and `mem_run` that these are the fronts `run` finds.  `exec` is a pattern between
`^` and `$`.
-/
import Mathlib.Data.List.Basic
import Mathlib.Data.List.TakeWhile
import Mathlib.Tactic.Common

namespace Lib

/-- `group` is the capturing group; there is at most one in the patterns here. -/
inductive Pattern (α : Type) where
  | units (accepts : α → Bool) (least : Nat) (most : Option Nat)
  | seq (first second : Pattern α)
  | either (first second : Pattern α)
  | maybe (inner : Pattern α)
  | group (inner : Pattern α)

namespace Pattern

variable {α : Type}

/-- How many units in front of a text a run takes at most. -/
def longest (accepts : α → Bool) (most : Option Nat) (text : List α) : Nat :=
  match most with
  | none => (text.takeWhile accepts).length
  | some most => min most (text.takeWhile accepts).length

/-- What is left of the text, and the text of the group, for every way to match: a run takes
as many units as it can first, and an optional part is there first. -/
def run : Pattern α → List α → List (List α × Option (List α))
  | units accepts least most, text =>
      ((List.range (longest accepts most text + 1)).reverse.filter (least ≤ ·)).map
        fun size => (text.drop size, none)
  | seq first second, text =>
      (first.run text).flatMap fun (rest, captured) =>
        (second.run rest).map fun (rest, later) => (rest, later.or captured)
  | either first second, text => first.run text ++ second.run text
  | maybe inner, text => inner.run text ++ [(text, none)]
  | group inner, text =>
      (inner.run text).map fun (rest, _) =>
        (rest, some (text.take (text.length - rest.length)))

/-- The whole text, or nothing; the answer is the text of the group where it took part. -/
def exec (pattern : Pattern α) (text : List α) : Option (Option (List α)) :=
  ((pattern.run text).find? fun found => found.1.isEmpty).map Prod.snd

/-- The texts of a pattern, with what its group captures. -/
inductive Matches : Pattern α → List α → Option (List α) → Prop
  | units {accepts : α → Bool} {least : Nat} {most : Option Nat} {text : List α} :
      (∀ unit ∈ text, accepts unit) → least ≤ text.length →
      (∀ bound ∈ most, text.length ≤ bound) → Matches (units accepts least most) text none
  | seq {first second : Pattern α} {text text' : List α} {captured later : Option (List α)} :
      Matches first text captured → Matches second text' later →
      Matches (seq first second) (text ++ text') (later.or captured)
  | first {first second : Pattern α} {text : List α} {captured : Option (List α)} :
      Matches first text captured → Matches (either first second) text captured
  | second {first second : Pattern α} {text : List α} {captured : Option (List α)} :
      Matches second text captured → Matches (either first second) text captured
  | present {inner : Pattern α} {text : List α} {captured : Option (List α)} :
      Matches inner text captured → Matches (maybe inner) text captured
  | absent {inner : Pattern α} : Matches (maybe inner) [] none
  | group {inner : Pattern α} {text : List α} {captured : Option (List α)} :
      Matches inner text captured → Matches (group inner) text (some text)

theorem le_length_takeWhile_iff {accepts : α → Bool} {text : List α} : ∀ {size : Nat},
    size ≤ (text.takeWhile accepts).length ↔
      size ≤ text.length ∧ ∀ unit ∈ text.take size, accepts unit := by
  induction text with
  | nil => intro size; simp
  | cons unit text ih =>
      intro size
      cases size with
      | zero => simp
      | succ size =>
          by_cases hunit : accepts unit
          · rw [List.takeWhile_cons_of_pos hunit, List.length_cons, List.length_cons,
              Nat.succ_le_succ_iff, Nat.succ_le_succ_iff, ih, List.take_succ_cons,
              List.forall_mem_cons]
            simp only [hunit, true_and]
          · rw [List.takeWhile_cons_of_neg hunit, List.take_succ_cons, List.forall_mem_cons]
            simp [hunit]

/-- The units a run may take are a front of the text. -/
theorem le_longest_iff {accepts : α → Bool} {most : Option Nat} {text : List α} {size : Nat} :
    size ≤ longest accepts most text ↔ size ≤ text.length ∧
      (∀ unit ∈ text.take size, accepts unit) ∧ ∀ bound ∈ most, size ≤ bound := by
  cases most with
  | none =>
      rw [longest, le_length_takeWhile_iff]
      simp only [Option.not_mem_none, false_imp_iff, implies_true, and_true]
  | some bound =>
      rw [longest, Nat.le_min, le_length_takeWhile_iff]
      simp only [Option.mem_def, Option.some.injEq, forall_eq']
      exact ⟨fun ⟨hb, hs, ha⟩ => ⟨hs, ha, hb⟩, fun ⟨hs, ha, hb⟩ => ⟨hb, hs, ha⟩⟩

/-- What `run` finds are the fronts that the pattern describes. -/
theorem mem_run {pattern : Pattern α} : ∀ {text rest : List α} {captured : Option (List α)},
    (rest, captured) ∈ pattern.run text ↔
      ∃ taken, text = taken ++ rest ∧ Matches pattern taken captured := by
  induction pattern with
  | units accepts least most =>
      intro text rest captured
      simp only [run, List.mem_map, List.mem_filter, List.mem_reverse, List.mem_range,
        decide_eq_true_eq, Prod.mk.injEq, Nat.lt_succ_iff, le_longest_iff]
      constructor
      · rintro ⟨size, ⟨⟨hsize, hall, hmost⟩, hleast⟩, rfl, rfl⟩
        have hlength : (text.take size).length = size := List.length_take_of_le hsize
        refine ⟨text.take size, (List.take_append_drop size text).symm, .units hall ?_ ?_⟩
        · rwa [hlength]
        · rwa [hlength]
      · rintro ⟨taken, rfl, hmatches⟩
        cases hmatches with
        | units hall hleast hmost =>
            refine ⟨taken.length, ⟨⟨?_, ?_, hmost⟩, hleast⟩, List.drop_left, rfl⟩
            · rw [List.length_append]
              exact Nat.le_add_right _ _
            · rwa [List.take_left]
  | seq first second ihFirst ihSecond =>
      intro text rest captured
      simp only [run, List.mem_flatMap, List.mem_map, Prod.exists, Prod.mk.injEq, ihFirst,
        ihSecond]
      constructor
      · rintro ⟨_, before, ⟨taken, rfl, hfirst⟩, _, later, ⟨taken', rfl, hsecond⟩, rfl, rfl⟩
        exact ⟨taken ++ taken', (List.append_assoc _ _ _).symm, .seq hfirst hsecond⟩
      · rintro ⟨_, rfl, hmatches⟩
        cases hmatches with
        | @seq _ _ taken taken' before later hfirst hsecond =>
            exact ⟨taken' ++ rest, before, ⟨taken, List.append_assoc _ _ _, hfirst⟩, rest, later,
              ⟨taken', rfl, hsecond⟩, rfl, rfl⟩
  | either first second ihFirst ihSecond =>
      intro text rest captured
      rw [run, List.mem_append, ihFirst, ihSecond]
      constructor
      · rintro (⟨taken, htext, hmatches⟩ | ⟨taken, htext, hmatches⟩)
        · exact ⟨taken, htext, .first hmatches⟩
        · exact ⟨taken, htext, .second hmatches⟩
      · rintro ⟨taken, htext, hmatches⟩
        cases hmatches with
        | first hmatches => exact .inl ⟨taken, htext, hmatches⟩
        | second hmatches => exact .inr ⟨taken, htext, hmatches⟩
  | maybe inner ih =>
      intro text rest captured
      rw [run, List.mem_append, ih, List.mem_singleton, Prod.mk.injEq]
      constructor
      · rintro (⟨taken, htext, hmatches⟩ | ⟨rfl, rfl⟩)
        · exact ⟨taken, htext, .present hmatches⟩
        · exact ⟨[], rfl, .absent⟩
      · rintro ⟨taken, rfl, hmatches⟩
        cases hmatches with
        | present hmatches => exact .inl ⟨taken, rfl, hmatches⟩
        | absent => exact .inr ⟨rfl, rfl⟩
  | group inner ih =>
      intro text rest captured
      simp only [run, List.mem_map, Prod.exists, Prod.mk.injEq, ih]
      have htake : ∀ taken : List α,
          (taken ++ rest).take ((taken ++ rest).length - rest.length) = taken := by
        intro taken
        rw [List.length_append, Nat.add_sub_cancel, List.take_left]
      constructor
      · rintro ⟨_, before, ⟨taken, rfl, hmatches⟩, rfl, rfl⟩
        exact ⟨taken, rfl, (htake taken).symm ▸ .group hmatches⟩
      · rintro ⟨taken, rfl, hmatches⟩
        cases hmatches with
        | @group _ _ before hmatches =>
            exact ⟨rest, before, ⟨taken, rfl, hmatches⟩, rfl, by rw [htake]⟩

/-- What is found between `^` and `$` is a text of the pattern. -/
theorem matches_of_exec {pattern : Pattern α} {text : List α} {captured : Option (List α)}
    (h : pattern.exec text = some captured) : Matches pattern text captured := by
  obtain ⟨⟨rest, _⟩, hfind, rfl⟩ := Option.map_eq_some_iff.mp h
  obtain ⟨taken, rfl, hmatches⟩ := mem_run.mp (List.mem_of_find?_eq_some hfind)
  have hend := List.find?_some hfind
  obtain rfl : rest = [] := List.isEmpty_iff.mp hend
  rwa [List.append_nil]

/-- And every text of the pattern is found. -/
theorem exec_isSome_iff {pattern : Pattern α} {text : List α} :
    (pattern.exec text).isSome ↔ ∃ captured, Matches pattern text captured := by
  constructor
  · intro h
    obtain ⟨captured, hexec⟩ := Option.isSome_iff_exists.mp h
    exact ⟨captured, matches_of_exec hexec⟩
  · rintro ⟨captured, hmatches⟩
    rw [exec, Option.isSome_map, List.find?_isSome]
    exact ⟨([], captured), mem_run.mpr ⟨text, (List.append_nil _).symm, hmatches⟩, rfl⟩

end Pattern

end Lib
