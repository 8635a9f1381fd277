/-
# `CommonFoundry.Lib.KeyMap` — a map that is read in key order

The ordered map of a systems language: a list of entries with strictly
increasing keys.  The order of the keys is part of the type, so every loop over
the map is a loop over the list, and two maps with the same entries are equal.
-/
import Mathlib.Order.Lattice
import Mathlib.Tactic.Common

namespace Lib

/-- The entries of a map, by strictly increasing key. -/
structure KeyMap (K V : Type) [LinearOrder K] where
  entries : List (K × V)
  sorted : entries.Pairwise fun a b => a.1 < b.1

namespace KeyMap

variable {K V : Type} [LinearOrder K]

def empty : KeyMap K V := ⟨[], .nil⟩

def values (m : KeyMap K V) : List V := m.entries.map (·.2)

def length (m : KeyMap K V) : Nat := m.entries.length

def contains (m : KeyMap K V) (key : K) : Bool := m.entries.any fun entry => entry.1 = key

/-- Insertion into a sorted list; an entry under the same key is replaced. -/
def insertEntry (key : K) (value : V) : List (K × V) → List (K × V)
  | [] => [(key, value)]
  | entry :: rest =>
      if key < entry.1 then (key, value) :: entry :: rest
      else if key = entry.1 then (key, value) :: rest
      else entry :: insertEntry key value rest

theorem mem_insertEntry {key : K} {value : V} {entry : K × V} {l : List (K × V)}
    (h : entry ∈ insertEntry key value l) : entry = (key, value) ∨ entry ∈ l := by
  induction l with
  | nil => exact .inl (List.mem_singleton.mp h)
  | cons head rest ih =>
      rw [insertEntry] at h
      split at h
      · exact List.mem_cons.mp h
      · split at h
        · rcases List.mem_cons.mp h with h | h
          · exact .inl h
          · exact .inr (List.mem_cons_of_mem _ h)
        · rcases List.mem_cons.mp h with h | h
          · exact .inr (h ▸ List.mem_cons_self)
          · exact (ih h).imp_right (List.mem_cons_of_mem _)

/-- The entries under other keys stay. -/
theorem mem_insertEntry_of_ne {key : K} {value : V} {entry : K × V} {l : List (K × V)}
    (h : entry ∈ l) (hne : entry.1 ≠ key) : entry ∈ insertEntry key value l := by
  induction l with
  | nil => cases h
  | cons head rest ih =>
      rw [insertEntry]
      split
      · exact List.mem_cons_of_mem _ h
      · split
        · next heq =>
            rcases List.mem_cons.mp h with rfl | h
            · exact absurd heq.symm hne
            · exact List.mem_cons_of_mem _ h
        · rcases List.mem_cons.mp h with rfl | h
          · exact List.mem_cons_self
          · exact List.mem_cons_of_mem _ (ih h)

/-- A new key adds its entry and moves nothing else. -/
theorem insertEntry_perm {key : K} {value : V} {l : List (K × V)}
    (hnew : ∀ entry ∈ l, entry.1 ≠ key) :
    (insertEntry key value l).Perm ((key, value) :: l) := by
  induction l with
  | nil => exact .refl _
  | cons head rest ih =>
      obtain ⟨hhead, hrest⟩ := List.forall_mem_cons.mp hnew
      rw [insertEntry]
      split
      · exact .refl _
      · rw [if_neg (Ne.symm hhead)]
        exact ((ih hrest).cons head).trans (.swap _ _ _)

/-- A key beyond all others goes to the end. -/
theorem insertEntry_last {key : K} {value : V} {l : List (K × V)}
    (hlast : ∀ entry ∈ l, entry.1 < key) : insertEntry key value l = l ++ [(key, value)] := by
  induction l with
  | nil => rfl
  | cons head rest ih =>
      obtain ⟨hhead, hrest⟩ := List.forall_mem_cons.mp hlast
      rw [insertEntry, if_neg (not_lt_of_gt hhead), if_neg (ne_of_gt hhead), ih hrest,
        List.cons_append]

theorem sorted_insertEntry {key : K} {value : V} {l : List (K × V)}
    (h : l.Pairwise fun a b => a.1 < b.1) :
    (insertEntry key value l).Pairwise fun a b => a.1 < b.1 := by
  induction l with
  | nil => exact List.pairwise_singleton _ _
  | cons head rest ih =>
      obtain ⟨hhead, hrest⟩ := List.pairwise_cons.mp h
      rw [insertEntry]
      split
      · next hlt =>
          refine List.pairwise_cons.mpr ⟨fun entry hentry => ?_, h⟩
          rcases List.mem_cons.mp hentry with rfl | hentry
          · exact hlt
          · exact lt_trans hlt (hhead entry hentry)
      · split
        · next heq => exact List.pairwise_cons.mpr ⟨heq ▸ hhead, hrest⟩
        · next hlt hne =>
            refine List.pairwise_cons.mpr ⟨fun entry hentry => ?_, ih hrest⟩
            rcases mem_insertEntry hentry with rfl | hentry
            · exact lt_of_le_of_ne (not_lt.mp hlt) (Ne.symm hne)
            · exact hhead entry hentry

theorem not_contains_iff {m : KeyMap K V} {key : K} :
    ¬m.contains key = true ↔ ∀ entry ∈ m.entries, entry.1 ≠ key := by
  rw [contains, List.any_eq_true]
  constructor
  · intro h entry hmem heq
    exact h ⟨entry, hmem, decide_eq_true heq⟩
  · rintro h ⟨entry, hmem, heq⟩
    exact h entry hmem (of_decide_eq_true heq)

def insert (m : KeyMap K V) (key : K) (value : V) : KeyMap K V :=
  ⟨insertEntry key value m.entries, sorted_insertEntry m.sorted⟩

/-- The value under a key. -/
def lookup (m : KeyMap K V) (key : K) : Option V :=
  (m.entries.find? fun entry => entry.1 = key).map (·.2)

def erase (m : KeyMap K V) (key : K) : KeyMap K V :=
  ⟨m.entries.filter fun entry => entry.1 ≠ key, m.sorted.filter _⟩

theorem find?_insertEntry (key other : K) (value : V) (l : List (K × V)) :
    (insertEntry key value l).find? (fun entry => entry.1 = other) =
      if key = other then some (key, value) else l.find? fun entry => entry.1 = other := by
  induction l with
  | nil =>
      rw [insertEntry, List.find?_cons, List.find?_nil]
      split <;> simp_all
  | cons head rest ih =>
      rw [insertEntry]
      split
      · rw [List.find?_cons]
        split <;> simp_all
      · split
        · next heq =>
            subst heq
            rw [List.find?_cons, List.find?_cons]
            split <;> simp_all
        · rw [List.find?_cons, List.find?_cons, ih]
          split <;> simp_all

theorem lookup_insert (m : KeyMap K V) (key other : K) (value : V) :
    (m.insert key value).lookup other = if key = other then some value else m.lookup other := by
  rw [lookup, insert, find?_insertEntry]
  split <;> rfl

theorem lookup_erase (m : KeyMap K V) (key other : K) :
    (m.erase key).lookup other = if key = other then none else m.lookup other := by
  rw [lookup, erase, List.find?_filter]
  split
  · next heq =>
      subst heq
      rw [List.find?_eq_none.mpr fun entry _ => by simp, Option.map_none]
  · next hne =>
      have hsame : ∀ entry : K × V,
          decide (decide (entry.1 ≠ key) = true ∧ decide (entry.1 = other) = true) =
            decide (entry.1 = other) := by
        intro entry
        by_cases heq : entry.1 = other <;> simp [heq, Ne.symm hne]
      rw [lookup]
      simp only [hsame]

theorem erase_insert (m : KeyMap K V) (key : K) (value : V) :
    ((m.insert key value).erase key).entries = (m.erase key).entries := by
  have hfilter : ∀ l : List (K × V), (insertEntry key value l).filter (fun entry => entry.1 ≠ key) =
      l.filter fun entry => entry.1 ≠ key := fun l => by
    induction l with
    | nil => simp [insertEntry]
    | cons head rest ih =>
        rw [insertEntry]
        split
        · rw [List.filter_cons_of_neg (by simp)]
        · split
          · next heq => rw [List.filter_cons_of_neg (by simp), List.filter_cons_of_neg (by simp [heq])]
          · rw [List.filter_cons, List.filter_cons, ih]
  exact hfilter m.entries

/-- An entry and the others. -/
theorem entries_perm {m : KeyMap K V} {key : K} {value : V} (h : (key, value) ∈ m.entries) :
    m.entries.Perm ((key, value) :: (m.erase key).entries) := by
  have hsorted := m.sorted
  show m.entries.Perm ((key, value) :: m.entries.filter fun entry => entry.1 ≠ key)
  obtain ⟨before, after, heq⟩ := List.append_of_mem h
  rw [heq, List.pairwise_append, List.pairwise_cons] at hsorted
  obtain ⟨_, ⟨hafter, _⟩, hbefore⟩ := hsorted
  rw [heq, List.filter_append, List.filter_cons_of_neg (by simp),
    List.filter_eq_self.mpr fun entry hentry => decide_eq_true
      (ne_of_lt (hbefore entry hentry _ List.mem_cons_self)),
    List.filter_eq_self.mpr fun entry hentry => decide_eq_true (ne_of_gt (hafter entry hentry))]
  exact List.perm_middle

theorem mem_of_lookup {m : KeyMap K V} {key : K} {value : V} (h : m.lookup key = some value) :
    (key, value) ∈ m.entries := by
  obtain ⟨entry, hfind, rfl⟩ := Option.map_eq_some_iff.mp h
  have hkey : entry.1 = key := of_decide_eq_true (List.find?_some hfind :)
  exact hkey ▸ List.mem_of_find?_eq_some hfind

theorem lookup_of_mem {m : KeyMap K V} {key : K} {value : V} (h : (key, value) ∈ m.entries) :
    m.lookup key = some value := by
  cases hlookup : m.lookup key with
  | none =>
      rw [lookup, Option.map_eq_none_iff, List.find?_eq_none] at hlookup
      exact absurd (decide_eq_true rfl) (hlookup _ h)
  | some other =>
      have hperm := entries_perm h
      rcases List.mem_cons.mp (hperm.mem_iff.mp (mem_of_lookup hlookup)) with heq | hmem
      · exact congrArg some (Prod.mk.inj heq).2
      · simp [erase] at hmem

/-- An insertion replaces the entry under its key. -/
theorem insert_perm (m : KeyMap K V) (key : K) (value : V) :
    (m.insert key value).entries.Perm ((key, value) :: (m.erase key).entries) := by
  have hmem : (m.insert key value).lookup key = some value := by rw [lookup_insert, if_pos rfl]
  exact erase_insert m key value ▸ entries_perm (mem_of_lookup hmem)

theorem values_insert_perm (m : KeyMap K V) (key : K) (value : V) :
    (m.insert key value).values.Perm (value :: (m.erase key).values) :=
  (m.insert_perm key value).map _

theorem values_perm {m : KeyMap K V} {key : K} {value : V} (h : m.lookup key = some value) :
    m.values.Perm (value :: (m.erase key).values) :=
  (entries_perm (mem_of_lookup h)).map _

theorem values_erase_sublist (m : KeyMap K V) (key : K) :
    (m.erase key).values.Sublist m.values :=
  List.filter_sublist.map _

theorem mem_values_of_lookup {m : KeyMap K V} {key : K} {value : V}
    (h : m.lookup key = some value) : value ∈ m.values :=
  List.mem_map.mpr ⟨_, mem_of_lookup h, rfl⟩

theorem nodup_keys (m : KeyMap K V) : (m.entries.map (·.1)).Nodup :=
  List.pairwise_map.mpr (m.sorted.imp fun hlt => ne_of_lt hlt)

end KeyMap

end Lib
