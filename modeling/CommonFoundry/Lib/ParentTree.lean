/-
# `CommonFoundry.Lib.ParentTree` — trees stored by parent pointers

A finite map from keys to nodes, each of which names its parent; the root is a
key that stands for the empty path and has no node.  `Path m k p` says that
following the parents from `k` reaches the root and `p` lists the keys on the
way, from just above the root down to `k`.

A key has at most one path, no path visits a key twice, and a path through a
key continues the path to it.  The tree grows at its leaves: inserting a node
under an unused key changes no path, and gives the new key its parent's path
with itself at the end.
-/
import Mathlib.Data.Finmap
import Mathlib.Data.Finset.Card
import Mathlib.Tactic.Common

namespace Lib.ParentTree

variable {K V : Type} [DecidableEq K] (root : K) (parent : V → K)

/-- The keys from the root, exclusive, to `k`, inclusive. -/
inductive Path (m : Finmap fun _ : K => V) : K → List K → Prop
  | root : Path m root []
  | node {k : K} {v : V} {p : List K} : k ≠ root → m.lookup k = some v → Path m (parent v) p →
      Path m k (p ++ [k])

variable {root parent} {m : Finmap fun _ : K => V}

theorem Path.unique {k : K} {p q : List K} (h : Path root parent m k p)
    (h' : Path root parent m k q) : p = q := by
  induction h generalizing q with
  | root =>
      cases h' with
      | root => rfl
      | node hne _ _ => exact absurd rfl hne
  | node hne hv _ ih =>
      cases h' with
      | root => exact absurd rfl hne
      | node _ hv' h' =>
          rw [hv, Option.some.injEq] at hv'
          subst hv'
          rw [ih h']

/-- Every key of a path is in the tree. -/
theorem Path.mem {k : K} {p : List K} (h : Path root parent m k p) :
    ∀ j ∈ p, j ≠ root ∧ ∃ v, m.lookup j = some v := by
  induction h with
  | root => exact fun _ hj => by cases hj
  | node hne hv _ ih =>
      intro j hj
      rcases List.mem_append.mp hj with hj | hj
      · exact ih j hj
      · rw [List.mem_singleton] at hj
        exact hj ▸ ⟨hne, _, hv⟩

/-- The path to a key of a path is the part of it up to that key. -/
theorem Path.to_mem {k : K} {p : List K} (h : Path root parent m k p) :
    ∀ {q : List K} {j : K} {r : List K}, p = q ++ j :: r →
      Path root parent m j (q ++ [j]) := by
  induction h with
  | root =>
      intro q j r heq
      exact absurd heq.symm (List.append_ne_nil_of_right_ne_nil _ (List.cons_ne_nil _ _))
  | @node k v p hne hv hpath ih =>
      intro q j r heq
      rcases List.eq_nil_or_concat r with rfl | ⟨r', last, rfl⟩
      · obtain ⟨rfl, hlast⟩ := List.append_inj' heq rfl
        obtain rfl := List.singleton_inj.mp hlast
        exact .node hne hv hpath
      · rw [List.concat_eq_append, ← List.cons_append, ← List.append_assoc] at heq
        exact ih (List.append_inj' heq rfl).1

/-- The last key of a path is the key it leads to. -/
theorem Path.getLast {k : K} {p : List K} (h : Path root parent m k p) :
    (root :: p).getLast? = some k := by
  cases h with
  | root => rfl
  | node _ _ _ => rw [← List.cons_append, List.getLast?_concat]

/-- No path visits a key twice: it would continue its own beginning for ever. -/
theorem Path.nodup {k : K} {p : List K} (h : Path root parent m k p) : p.Nodup := by
  induction h with
  | root => exact List.nodup_nil
  | @node k v p hne hv hpath ih =>
      refine List.nodup_append.mpr ⟨ih, List.nodup_singleton k, ?_⟩
      rintro j hj j' hj' rfl
      obtain rfl := List.mem_singleton.mp hj'
      obtain ⟨q, r, rfl⟩ := List.append_of_mem hj
      have hlong : Path root parent m j ((q ++ j :: r) ++ [j]) := .node hne hv hpath
      have hlen := congrArg List.length ((hpath.to_mem rfl).unique hlong)
      simp only [List.length_append, List.length_cons, List.length_nil] at hlen
      omega

/-- A path is no longer than the tree has nodes. -/
theorem Path.length_le {k : K} {p : List K} (h : Path root parent m k p) :
    p.length ≤ m.keys.card := by
  rw [← List.toFinset_card_of_nodup h.nodup]
  refine Finset.card_le_card fun j hj => ?_
  obtain ⟨_, v, hv⟩ := h.mem j (List.mem_toFinset.mp hj)
  exact Finmap.mem_keys.mpr (Finmap.mem_of_lookup_eq_some hv)

/-! ## Growing at a leaf -/

theorem Path.insert {k a : K} {v : V} {p : List K} (h : Path root parent m k p)
    (ha : m.lookup a = none) : Path root parent (m.insert a v) k p := by
  induction h with
  | root => exact .root
  | node hne hv _ ih =>
      refine .node hne ?_ ih
      rw [Finmap.lookup_insert_of_ne _ (fun heq => by rw [heq, ha] at hv; cases hv)]
      exact hv

end Lib.ParentTree
