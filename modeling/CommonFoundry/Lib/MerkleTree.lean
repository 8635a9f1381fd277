/-
# `CommonFoundry.Lib.MerkleTree` — hash trees that pair a lonely node with itself

A level of a tree is a list of hashes.  The next level has a node for every two
neighbours, and where the number is odd the last hash is paired with itself.  So
different lists can have the same root: `[a, b, c]` and `[a, b, c, c]` have.

They cannot when no hash occurs twice among the leaves.  Then none occurs twice on
any level (`nodup_level`), and a level without repetition is determined by its
pairs (`pairs_inj`).  If, moreover, no node is a leaf, then trees of different
heights have different roots, and a root has one list of leaves (`leaves_unique`).

Nothing is assumed of the hash outside of the pairs that the two trees hash.
-/
import Mathlib.Data.List.Nodup
import Mathlib.Data.Set.Function
import Mathlib.Logic.Function.Iterate

namespace Lib.MerkleTree

variable {H : Type}

/-- The pairs that are hashed for the next level. -/
def pairs : List H → List (H × H)
  | [] => []
  | [last] => [(last, last)]
  | left :: right :: rest => (left, right) :: pairs rest

/-- The next level. -/
def level (node : H × H → H) (hashes : List H) : List H := (pairs hashes).map node

/-! ## One level -/

theorem fst_mem_of_mem_pairs {hashes : List H} {p : H × H} (h : p ∈ pairs hashes) :
    p.1 ∈ hashes := by
  fun_induction pairs hashes with
  | case1 => cases h
  | case2 last =>
      rw [List.mem_singleton.mp h]
      exact List.mem_cons_self
  | case3 left right rest ih =>
      rcases List.mem_cons.mp h with rfl | h
      · exact List.mem_cons_self
      · exact List.mem_cons_of_mem _ (List.mem_cons_of_mem _ (ih h))

theorem pairs_ne_nil {hashes : List H} (h : hashes ≠ []) : pairs hashes ≠ [] := by
  fun_cases pairs hashes with
  | case1 => exact absurd rfl h
  | case2 => exact List.cons_ne_nil _ _
  | case3 => exact List.cons_ne_nil _ _

/-- Where no hash occurs twice, no pair does. -/
theorem nodup_pairs {hashes : List H} (h : hashes.Nodup) : (pairs hashes).Nodup := by
  fun_induction pairs hashes with
  | case1 => exact List.nodup_nil
  | case2 last => exact List.nodup_singleton _
  | case3 left right rest ih =>
      obtain ⟨hleft, hrest⟩ := List.nodup_cons.mp h
      refine List.nodup_cons.mpr ⟨?_, ih (List.nodup_cons.mp hrest).2⟩
      intro hmem
      exact hleft (List.mem_cons_of_mem _ (fst_mem_of_mem_pairs hmem))

/-- Where no hash occurs twice, the pairs are those of one list: the lonely hash of
one list cannot be the last two of the other. -/
theorem pairs_inj {hashes hashes' : List H} (h : hashes.Nodup) (h' : hashes'.Nodup)
    (heq : pairs hashes = pairs hashes') : hashes = hashes' := by
  fun_induction pairs hashes generalizing hashes' with
  | case1 =>
      by_contra hne
      exact pairs_ne_nil (Ne.symm hne) heq.symm
  | case2 last =>
      fun_cases pairs hashes' with
      | case1 => cases heq
      | case2 last' => rw [(Prod.mk.inj (List.singleton_inj.mp heq)).1]
      | case3 left right rest =>
          obtain ⟨hpair, _⟩ := List.cons.inj heq
          obtain ⟨hleft, hright⟩ := Prod.mk.inj hpair
          refine absurd ?_ (List.nodup_cons.mp h').1
          rw [← hleft, hright]
          exact List.mem_cons_self
  | case3 left right rest ih =>
      fun_cases pairs hashes' with
      | case1 => cases heq
      | case2 last' =>
          obtain ⟨hpair, _⟩ := List.cons.inj heq
          obtain ⟨hleft, hright⟩ := Prod.mk.inj hpair
          refine absurd ?_ (List.nodup_cons.mp h).1
          rw [hleft, ← hright]
          exact List.mem_cons_self
      | case3 left' right' rest' =>
          obtain ⟨hpair, hrest⟩ := List.cons.inj heq
          obtain ⟨rfl, rfl⟩ := Prod.mk.inj hpair
          rw [ih (List.nodup_cons.mp (List.nodup_cons.mp h).2).2
            (List.nodup_cons.mp (List.nodup_cons.mp h').2).2 hrest]

section

variable {node : H × H → H} {S : Set (H × H)} {hashes hashes' : List H}

theorem level_ne_nil (h : hashes ≠ []) : level node hashes ≠ [] := by
  rw [level, ne_eq, List.map_eq_nil_iff]
  exact pairs_ne_nil h

theorem nodup_level (hinj : S.InjOn node) (hpairs : ∀ p ∈ pairs hashes, p ∈ S)
    (h : hashes.Nodup) : (level node hashes).Nodup :=
  (List.nodup_map_iff_inj_on (nodup_pairs h)).mpr
    fun p hp q hq heq => hinj (hpairs p hp) (hpairs q hq) heq

/-- A function that is injective on what two lists hold tells them apart. -/
theorem map_inj_on {α β : Type} {f : α → β} {s : Set α} (hinj : s.InjOn f) :
    ∀ {as bs : List α}, (∀ a ∈ as, a ∈ s) → (∀ b ∈ bs, b ∈ s) → as.map f = bs.map f → as = bs
  | [], [], _, _, _ => rfl
  | [], _ :: _, _, _, h => by cases h
  | _ :: _, [], _, _, h => by cases h
  | a :: as, b :: bs, ha, hb, h => by
      obtain ⟨hhead, htail⟩ := List.cons.inj h
      have hab := hinj (ha a List.mem_cons_self) (hb b List.mem_cons_self) hhead
      have hrest := map_inj_on hinj (fun x hx => ha x (List.mem_cons_of_mem _ hx))
        (fun x hx => hb x (List.mem_cons_of_mem _ hx)) htail
      rw [hab, hrest]

theorem level_inj (hinj : S.InjOn node) (hpairs : ∀ p ∈ pairs hashes, p ∈ S)
    (hpairs' : ∀ p ∈ pairs hashes', p ∈ S) (h : hashes.Nodup) (h' : hashes'.Nodup)
    (heq : level node hashes = level node hashes') : hashes = hashes' :=
  pairs_inj h h' (map_inj_on hinj hpairs hpairs' heq)

/-! ## Trees -/

/-- The pairs that are hashed below the level `height`. -/
def Hashes (node : H × H → H) (S : Set (H × H)) (height : Nat) (leaves : List H) : Prop :=
  ∀ k < height, ∀ p ∈ pairs ((level node)^[k] leaves), p ∈ S

theorem Hashes.lower {height : Nat} {leaves : List H} (h : Hashes node S (height + 1) leaves) :
    Hashes node S height leaves := fun k hk => h k (Nat.lt_succ_of_lt hk)

variable {leaves leaves' : List H} {height height' : Nat}

theorem nodup_iterate (hinj : S.InjOn node) (hhashes : Hashes node S height leaves)
    (h : leaves.Nodup) : ((level node)^[height] leaves).Nodup := by
  induction height with
  | zero => exact h
  | succ height ih =>
      rw [Function.iterate_succ_apply']
      exact nodup_level hinj (hhashes height (Nat.lt_succ_self _)) (ih hhashes.lower)

/-- Two trees that meet on some level are one tree from there down to the leaves of the
lower one. -/
theorem iterate_inj (hinj : S.InjOn node) (hhashes : Hashes node S height leaves)
    (hhashes' : Hashes node S (height + height') leaves') (h : leaves.Nodup) (h' : leaves'.Nodup)
    (heq : (level node)^[height] leaves = (level node)^[height + height'] leaves') :
    leaves = (level node)^[height'] leaves' := by
  induction height with
  | zero => rwa [Nat.zero_add] at heq
  | succ height ih =>
      rw [Nat.succ_add] at heq hhashes'
      rw [Function.iterate_succ_apply', Function.iterate_succ_apply'] at heq
      exact ih hhashes.lower hhashes'.lower
        (level_inj hinj (hhashes height (Nat.lt_succ_self _))
          (hhashes' _ (Nat.lt_succ_self _)) (nodup_iterate hinj hhashes.lower h)
          (nodup_iterate hinj hhashes'.lower h') heq)

/-- The leaves of a lower tree are not nodes of a higher one. -/
theorem leaves_of_le (hinj : S.InjOn node) (hhashes : Hashes node S height leaves)
    (hhashes' : Hashes node S (height + height') leaves') (h : leaves.Nodup) (h' : leaves'.Nodup)
    (hleaf : ∀ leaf ∈ leaves, ∀ p ∈ S, node p ≠ leaf) (hne : leaves ≠ [])
    (heq : (level node)^[height] leaves = (level node)^[height + height'] leaves') :
    leaves = leaves' := by
  have hmeet := iterate_inj hinj hhashes hhashes' h h' heq
  cases height' with
  | zero => exact hmeet
  | succ gap =>
      -- the first leaf would be a node of the higher tree
      obtain ⟨leaf, hmem⟩ := List.exists_mem_of_ne_nil _ hne
      have hnode := hmem
      rw [hmeet, Function.iterate_succ_apply'] at hnode
      obtain ⟨p, hp, heq⟩ := List.mem_map.mp hnode
      exact absurd heq (hleaf leaf hmem p (hhashes' gap (by omega) p hp))

/-- A root has one list of leaves. -/
theorem leaves_unique (hinj : S.InjOn node) (hhashes : Hashes node S height leaves)
    (hhashes' : Hashes node S height' leaves') (h : leaves.Nodup) (h' : leaves'.Nodup)
    (hleaf : ∀ leaf ∈ leaves ++ leaves', ∀ p ∈ S, node p ≠ leaf) (hne : leaves ≠ [])
    (hne' : leaves' ≠ [])
    (heq : (level node)^[height] leaves = (level node)^[height'] leaves') :
    leaves = leaves' := by
  rcases Nat.le_total height height' with hle | hle
  · obtain ⟨gap, rfl⟩ := Nat.exists_eq_add_of_le hle
    exact leaves_of_le hinj hhashes hhashes' h h'
      (fun leaf hleaf' => hleaf leaf (List.mem_append_left _ hleaf')) hne heq
  · obtain ⟨gap, rfl⟩ := Nat.exists_eq_add_of_le hle
    exact (leaves_of_le hinj hhashes' hhashes h' h
      (fun leaf hleaf' => hleaf leaf (List.mem_append_right _ hleaf')) hne' heq.symm).symm

end

end Lib.MerkleTree
