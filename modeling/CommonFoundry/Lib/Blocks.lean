/-
# `CommonFoundry.Lib.Blocks` — a sequence cut into blocks of one size

`blocks size count l` are the first `count` blocks of `l`.  Where `l` has just that
length they are the only way to cut it: the blocks have the size and make up `l`
(`flatten_blocks`), and blocks of the size are what their concatenation is cut into
(`blocks_flatten`).
-/
import Mathlib.Data.List.Basic
import Mathlib.Tactic.Common

namespace Lib

variable {α : Type}

/-- The first `count` blocks of `size` entries each. -/
def blocks (size : Nat) : Nat → List α → List (List α)
  | 0, _ => []
  | count + 1, l => l.take size :: blocks size count (l.drop size)

@[simp] theorem length_blocks (size : Nat) : ∀ (count : Nat) (l : List α),
    (blocks size count l).length = count
  | 0, _ => rfl
  | count + 1, l => by rw [blocks, List.length_cons, length_blocks size count]

/-- Every block of a long enough sequence has the size. -/
theorem length_of_mem_blocks {size count : Nat} {l block : List α}
    (hlength : l.length = count * size) (hmem : block ∈ blocks size count l) :
    block.length = size := by
  induction count generalizing l with
  | zero => cases hmem
  | succ count ih =>
      rw [Nat.succ_mul] at hlength
      rcases List.mem_cons.mp hmem with rfl | hmem
      · rw [List.length_take]
        omega
      · refine ih ?_ hmem
        rw [List.length_drop]
        omega

theorem flatten_blocks {size count : Nat} {l : List α} (hlength : l.length = count * size) :
    (blocks size count l).flatten = l := by
  induction count generalizing l with
  | zero =>
      rw [Nat.zero_mul, List.length_eq_zero_iff] at hlength
      rw [hlength]
      rfl
  | succ count ih =>
      rw [Nat.succ_mul] at hlength
      have hrest : (l.drop size).length = count * size := by
        rw [List.length_drop]
        omega
      rw [blocks, List.flatten_cons, ih hrest, List.take_append_drop]

theorem blocks_flatten {size : Nat} {ls : List (List α)} (hsize : ∀ l ∈ ls, l.length = size) :
    blocks size ls.length ls.flatten = ls := by
  induction ls with
  | nil => rfl
  | cons l ls ih =>
      have hl : l.length = size := hsize l List.mem_cons_self
      rw [List.length_cons, blocks, List.flatten_cons, List.take_left' hl, List.drop_left' hl,
        ih fun l' hl' => hsize l' (List.mem_cons_of_mem _ hl')]

theorem length_flatten_of_forall {size : Nat} {ls : List (List α)}
    (hsize : ∀ l ∈ ls, l.length = size) : ls.flatten.length = ls.length * size := by
  induction ls with
  | nil => rw [List.flatten_nil, List.length_nil, List.length_nil, Nat.zero_mul]
  | cons l ls ih =>
      rw [List.flatten_cons, List.length_append, hsize l List.mem_cons_self,
        ih fun l' hl' => hsize l' (List.mem_cons_of_mem _ hl'), List.length_cons, Nat.succ_mul,
        Nat.add_comm]

/-- Blocks one after the other, from one of them on. -/
theorem drop_flatten {size : Nat} {ls : List (List α)} (hsize : ∀ l ∈ ls, l.length = size) (i : Nat) :
    ls.flatten.drop (i * size) = (ls.drop i).flatten := by
  induction i generalizing ls with
  | zero => rw [Nat.zero_mul, List.drop_zero, List.drop_zero]
  | succ i ih =>
      cases ls with
      | nil => rw [List.drop_nil, List.flatten_nil, List.drop_nil]
      | cons l ls =>
          obtain ⟨hl, hls⟩ := List.forall_mem_cons.mp hsize
          rw [List.flatten_cons, Nat.succ_mul, Nat.add_comm, ← List.drop_drop, List.drop_left' hl,
            ih hls, List.drop_succ_cons]

theorem exists_drop_flatten {size i : Nat} {ls : List (List α)} {l : List α}
    (hsize : ∀ l ∈ ls, l.length = size) (h : ls[i]? = some l) :
    ∃ rest, ls.flatten.drop (i * size) = l ++ rest := by
  obtain ⟨hi, rfl⟩ := List.getElem?_eq_some_iff.mp h
  refine ⟨(ls.drop (i + 1)).flatten, ?_⟩
  rw [drop_flatten hsize, List.drop_eq_getElem_cons hi, List.flatten_cons]

end Lib
