/-
# `Lib.OrderStatistic` — what stands at a position of the sorted list

The element at position `i` of a sorted list is at least `m` exactly when at most
`i` elements are below `m` (`le_getElem_insertionSort`).  Everything else is
counting: elements can be added, or the oldest dropped, and as long as what is
added is not below the old median, and the window does not shrink, the median does
not go down (`upperMedian_le_append`).
-/
import Mathlib.Data.List.Sort
import Mathlib.Tactic.Common

namespace Lib

variable {α : Type}

theorem half_lt_length [LE α] [DecidableLE α] {l : List α} (h : l ≠ []) :
    l.length / 2 < (l.insertionSort (· ≤ ·)).length := by
  rw [List.length_insertionSort]
  exact Nat.div_lt_self (List.length_pos_iff.mpr h) Nat.one_lt_two

variable [LE α] [LT α] [DecidableLT α] [Std.IsLinearOrder α] [Std.LawfulOrderLT α]

theorem le_getElem_of_pairwise {l : List α} (hsorted : l.Pairwise (· ≤ ·)) (m : α) :
    ∀ {i : Nat} (h : i < l.length), m ≤ l[i] ↔ l.countP (fun a => decide (a < m)) ≤ i := by
  induction l with
  | nil => exact fun h => absurd h (Nat.not_lt_zero _)
  | cons a l ih =>
      intro i h
      obtain ⟨hfirst, hrest⟩ := List.pairwise_cons.mp hsorted
      by_cases hlt : a < m
      · simp only [List.countP_cons, hlt, decide_true, if_true]
        cases i with
        | zero =>
            rw [List.getElem_cons_zero]
            exact ⟨fun hle => absurd hlt (Std.not_lt.mpr hle),
              fun hle => absurd hle (Nat.not_succ_le_zero _)⟩
        | succ i =>
            rw [List.getElem_cons_succ, ih hrest, Nat.add_le_add_iff_right]
      · -- nothing is below `m`
        have hle : m ≤ a := Std.not_lt.mp hlt
        have hzero : (a :: l).countP (fun a => decide (a < m)) = 0 := by
          rw [List.countP_eq_zero]
          intro b hb
          rcases List.mem_cons.mp hb with rfl | hb
          · exact fun h => hlt (of_decide_eq_true h)
          · exact fun h => Std.not_lt.mpr (Std.le_trans hle (hfirst b hb)) (of_decide_eq_true h)
        rw [hzero]
        refine ⟨fun _ => Nat.zero_le _, fun _ => ?_⟩
        rcases List.mem_cons.mp (List.getElem_mem h) with heq | hmem
        · rw [heq]
          exact hle
        · exact Std.le_trans hle (hfirst _ hmem)

variable [DecidableLE α]

/-- The element at position `i` of the sorted list is at least `m` exactly when at
most `i` elements are below `m`. -/
theorem le_getElem_insertionSort {l : List α} (m : α) {i : Nat}
    (h : i < (l.insertionSort (· ≤ ·)).length) :
    m ≤ (l.insertionSort (· ≤ ·))[i] ↔ l.countP (fun a => decide (a < m)) ≤ i := by
  rw [le_getElem_of_pairwise (List.pairwise_insertionSort _ l),
    (List.perm_insertionSort _ l).countP_eq]

/-- The element in the middle of the sorted list, the upper one of two. -/
def upperMedian (l : List α) (h : l ≠ []) : α :=
  (l.insertionSort (· ≤ ·)).get ⟨l.length / 2, half_lt_length h⟩

theorem le_upperMedian {l : List α} (h : l ≠ []) (m : α) :
    m ≤ upperMedian l h ↔ l.countP (fun a => decide (a < m)) ≤ l.length / 2 := by
  rw [upperMedian, List.get_eq_getElem]
  exact le_getElem_insertionSort m (half_lt_length h)

/-- A window moves on: it loses elements of the old one, gains one that is not below
the old median, and does not get shorter. -/
theorem upperMedian_le_append {window kept : List α} {a : α} (h : window ≠ [])
    (hkept : kept.Sublist window) (ha : upperMedian window h ≤ a)
    (hlength : window.length ≤ (kept ++ [a]).length) :
    upperMedian window h ≤ upperMedian (kept ++ [a]) (List.append_ne_nil_of_right_ne_nil _
      (List.cons_ne_nil _ _)) := by
  have hold : window.countP (fun b => decide (b < upperMedian window h)) ≤ window.length / 2 :=
    (le_upperMedian h _).mp (Std.le_refl _)
  rw [le_upperMedian]
  have hnew : [a].countP (fun b => decide (b < upperMedian window h)) = 0 := by
    rw [List.countP_eq_zero]
    intro b hb
    rw [List.mem_singleton.mp hb, decide_eq_true_eq]
    exact Std.not_lt.mpr ha
  have hfewer : kept.countP (fun b => decide (b < upperMedian window h)) ≤
      window.countP (fun b => decide (b < upperMedian window h)) := hkept.countP_le
  rw [List.countP_append, hnew]
  omega

end Lib
