/-
# `CommonFoundry.Lib.Weight` — the total weight of a finite map

For a weight `w` on the values of a finite map, `weight w m` is the sum over
its entries, in `Nat`.  Insertion at a fresh key adds the new value's weight and
erasing a present key removes exactly the weight that was there; these two are
all a ledger's accounting needs.
-/
import Mathlib.Data.Finmap
import Mathlib.Algebra.BigOperators.Group.Multiset.Basic
import Mathlib.Algebra.GroupWithZero.Nat
import Mathlib.Tactic.Common

namespace Lib

variable {K V : Type}

/-- The sum of the weights of all entries. -/
def weight (w : V → Nat) (m : Finmap fun _ : K => V) : Nat :=
  (m.entries.map fun entry => w entry.2).sum

variable [DecidableEq K] {w : V → Nat} {m : Finmap fun _ : K => V} {k : K}

theorem weight_insert {v : V} (h : m.lookup k = none) :
    weight w (m.insert k v) = w v + weight w m := by
  have hk : k ∉ m := Finmap.lookup_eq_none.mp h
  rw [weight, Finmap.entries_insert_of_notMem hk, Multiset.map_cons, Multiset.sum_cons, weight]

/-- A key that no entry has is absent. -/
theorem lookup_eq_none_of_keys (h : ∀ entry ∈ m.entries, entry.1 ≠ k) : m.lookup k = none := by
  refine Finmap.lookup_eq_none.mpr fun hmem => ?_
  obtain ⟨entry, hentry, hkey⟩ := Multiset.mem_map.mp (Finmap.mem_def.mp hmem)
  exact h entry hentry hkey

/-- Re-inserting what an entry held restores the map. -/
theorem insert_erase_self {v : V} (h : m.lookup k = some v) : (m.erase k).insert k v = m := by
  refine Finmap.ext_lookup fun k' => ?_
  by_cases hk : k' = k
  · subst hk
    rw [Finmap.lookup_insert, h]
  · rw [Finmap.lookup_insert_of_ne _ hk, Finmap.lookup_erase_ne hk]

theorem weight_erase {v : V} (h : m.lookup k = some v) :
    w v + weight w (m.erase k) = weight w m := by
  have hfresh : (m.erase k).lookup k = none := Finmap.lookup_erase _ _
  rw [← weight_insert (v := v) hfresh, insert_erase_self h]

end Lib
