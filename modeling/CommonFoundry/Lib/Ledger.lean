/-
# `CommonFoundry.Lib.Ledger` — a ledger of one-time entries with labelled locks

A ledger holds entries under keys.  One step consumes entries that are present,
each once, and creates entries under keys that are absent.  Some entries carry a
label: while an entry with a label is held the label is *active*, and once it
has been consumed the label is *retired* for good, so a label names at most one
entry ever.

Three things hold of every run of steps, whatever the entries are:

  * `Run.lookup_iff`: what is held at the end is what was held at the start and
    never consumed, or was created by some step and not consumed by a later one;
  * `Run.registered`: the two label sets stay in step with the entries;
  * `Step.weight_add`: a step changes the total weight by what it creates less
    what it consumes.
-/
import Mathlib.Data.Finset.Dedup
import Mathlib.Data.Finset.SDiff
import Mathlib.Data.List.Nodup
import CommonFoundry.Lib.Weight

namespace Lib.Ledger

variable {K V C : Type} [DecidableEq K] [DecidableEq C]

/-- What one step consumes and creates. -/
structure Entry (K V : Type) where
  consumed : List K
  created : List (K × V)

/-! ## Consuming and creating -/

def consume (m : Finmap fun _ : K => V) (ks : List K) : Finmap fun _ : K => V :=
  ks.foldl (fun m k => m.erase k) m

def create (m : Finmap fun _ : K => V) (kvs : List (K × V)) : Finmap fun _ : K => V :=
  kvs.foldl (fun m kv => m.insert kv.1 kv.2) m

/-- Each key is absent when its turn to be created comes. -/
def Fresh (m : Finmap fun _ : K => V) : List (K × V) → Prop
  | [] => True
  | kv :: rest => m.lookup kv.1 = none ∧ Fresh (m.insert kv.1 kv.2) rest

theorem lookup_consume (ks : List K) :
    ∀ (m : Finmap fun _ : K => V) (k : K),
      (consume m ks).lookup k = if k ∈ ks then none else m.lookup k := by
  induction ks with
  | nil => intro m k; rfl
  | cons a ks ih =>
      intro m k
      show (consume (m.erase a) ks).lookup k = _
      rw [ih]
      by_cases hk : k = a
      · subst hk
        simp only [Finmap.lookup_erase, ite_self, List.mem_cons_self, if_true]
      · simp only [List.mem_cons, hk, false_or, Finmap.lookup_erase_ne hk]

theorem lookup_create {kvs : List (K × V)} :
    ∀ {m : Finmap fun _ : K => V}, Fresh m kvs → ∀ (k : K) (v : V),
      (create m kvs).lookup k = some v ↔ m.lookup k = some v ∨ (k, v) ∈ kvs := by
  induction kvs with
  | nil => intro m _ k v; simp [create]
  | cons kv kvs ih =>
      intro m h k v
      obtain ⟨habsent, hfresh⟩ := h
      show (create (m.insert kv.1 kv.2) kvs).lookup k = some v ↔ _
      rw [ih hfresh, List.mem_cons]
      by_cases hk : k = kv.1
      · subst hk
        rw [Finmap.lookup_insert, habsent, Prod.ext_iff]
        simp [eq_comm]
      · rw [Finmap.lookup_insert_of_ne _ hk, Prod.ext_iff]
        simp [hk]

/-- Keys are absent in turn when they are distinct and absent at the start. -/
theorem fresh_iff {kvs : List (K × V)} : ∀ {m : Finmap fun _ : K => V},
    Fresh m kvs ↔ (kvs.map Prod.fst).Nodup ∧ ∀ kv ∈ kvs, m.lookup kv.1 = none := by
  induction kvs with
  | nil => exact ⟨fun _ => ⟨List.nodup_nil, fun _ hmem => (by cases hmem)⟩, fun _ => trivial⟩
  | cons kv kvs ih =>
      intro m
      rw [Fresh, ih, List.map_cons, List.nodup_cons, List.forall_mem_cons]
      constructor
      · rintro ⟨habsent, hnodup, hrest⟩
        have hnew : kv.1 ∉ kvs.map Prod.fst := by
          intro hmem
          obtain ⟨other, hother, heq⟩ := List.mem_map.mp hmem
          have hnone := hrest other hother
          rw [heq, Finmap.lookup_insert] at hnone
          cases hnone
        refine ⟨⟨hnew, hnodup⟩, habsent, fun other hother => ?_⟩
        have hne : other.1 ≠ kv.1 := ne_of_mem_of_not_mem (List.mem_map_of_mem hother) hnew
        rw [← hrest other hother, Finmap.lookup_insert_of_ne _ hne]
      · rintro ⟨⟨hnew, hnodup⟩, habsent, hrest⟩
        refine ⟨habsent, hnodup, fun other hother => ?_⟩
        have hne : other.1 ≠ kv.1 := ne_of_mem_of_not_mem (List.mem_map_of_mem hother) hnew
        rw [Finmap.lookup_insert_of_ne _ hne]
        exact hrest other hother

theorem lookup_create_of_not_mem {kvs : List (K × V)} {k : K} (hk : k ∉ kvs.map Prod.fst) :
    ∀ m : Finmap fun _ : K => V, (create m kvs).lookup k = m.lookup k := by
  induction kvs with
  | nil => exact fun _ => rfl
  | cons kv kvs ih =>
      intro m
      rw [List.map_cons, List.mem_cons, not_or] at hk
      show (create (m.insert kv.1 kv.2) kvs).lookup k = _
      rw [ih hk.2, Finmap.lookup_insert_of_ne _ hk.1]

/-- Two lists of keys that share none can be created in either order. -/
theorem create_comm {m : Finmap fun _ : K => V} {first second : List (K × V)}
    (hfirst : Fresh m first) (hsecond : Fresh m second)
    (hkeys : ∀ k ∈ second.map Prod.fst, k ∉ first.map Prod.fst) :
    Fresh (create m first) second ∧
      create (create m first) second = create (create m second) first := by
  have hthen : ∀ {a b : List (K × V)}, Fresh m b →
      (∀ k ∈ b.map Prod.fst, k ∉ a.map Prod.fst) → Fresh (create m a) b := by
    intro a b hb hdisjoint
    rw [fresh_iff] at hb ⊢
    refine ⟨hb.1, fun kv hkv => ?_⟩
    rw [lookup_create_of_not_mem (hdisjoint _ (List.mem_map_of_mem hkv))]
    exact hb.2 kv hkv
  have hsecond' := hthen hsecond hkeys
  have hfirst' := hthen hfirst fun k hk hk' => hkeys k hk' hk
  refine ⟨hsecond', Finmap.ext_lookup fun k => Option.ext fun v => ?_⟩
  rw [lookup_create hsecond', lookup_create hfirst, lookup_create hfirst', lookup_create hsecond,
    or_assoc, or_assoc]
  exact or_congr_right or_comm

/-- Keys that are created but not consumed can be created before or after. -/
theorem consume_create {m : Finmap fun _ : K => V} {ks : List K} {kvs : List (K × V)}
    (hfresh : Fresh m kvs) (hkeys : ∀ k ∈ kvs.map Prod.fst, k ∉ ks) :
    Fresh (consume m ks) kvs ∧ consume (create m kvs) ks = create (consume m ks) kvs := by
  have hfresh' : Fresh (consume m ks) kvs := by
    rw [fresh_iff] at hfresh ⊢
    refine ⟨hfresh.1, fun kv hkv => ?_⟩
    rw [lookup_consume, if_neg (hkeys _ (List.mem_map_of_mem hkv))]
    exact hfresh.2 kv hkv
  refine ⟨hfresh', Finmap.ext_lookup fun k => ?_⟩
  by_cases hk : k ∈ ks
  · have hout : k ∉ kvs.map Prod.fst := fun hmem => hkeys k hmem hk
    rw [lookup_create_of_not_mem hout, lookup_consume, lookup_consume, if_pos hk, if_pos hk]
  · refine Option.ext fun v => ?_
    rw [lookup_create hfresh', lookup_consume, lookup_consume, if_neg hk, if_neg hk,
      lookup_create hfresh]

/-- The weight held under a list of keys. -/
def held (w : V → Nat) (m : Finmap fun _ : K => V) (ks : List K) : Nat :=
  (ks.map fun k => (m.lookup k).elim 0 w).sum

theorem held_erase {w : V → Nat} {m : Finmap fun _ : K => V} {a : K} {ks : List K}
    (ha : a ∉ ks) : held w (m.erase a) ks = held w m ks := by
  unfold held
  congr 1
  refine List.map_congr_left fun k hk => ?_
  rw [Finmap.lookup_erase_ne (ne_of_mem_of_not_mem hk ha)]

theorem weight_consume {w : V → Nat} {ks : List K} :
    ∀ {m : Finmap fun _ : K => V}, ks.Nodup → (∀ k ∈ ks, ∃ v, m.lookup k = some v) →
      held w m ks + weight w (consume m ks) = weight w m := by
  induction ks with
  | nil => intro m _ _; simp [held, consume]
  | cons a ks ih =>
      intro m hnd hpresent
      obtain ⟨ha, hnd⟩ := List.nodup_cons.mp hnd
      obtain ⟨v, hv⟩ := hpresent a List.mem_cons_self
      have hrest : ∀ k ∈ ks, ∃ v, (m.erase a).lookup k = some v := by
        intro k hk
        rw [Finmap.lookup_erase_ne (ne_of_mem_of_not_mem hk ha)]
        exact hpresent k (List.mem_cons_of_mem _ hk)
      have ih' := ih hnd hrest
      rw [held_erase ha] at ih'
      show (List.map _ (a :: ks)).sum + weight w (consume (m.erase a) ks) = _
      rw [List.map_cons, List.sum_cons, hv, Option.elim_some, ← weight_erase hv, ← ih', held]
      omega

theorem weight_create {w : V → Nat} {kvs : List (K × V)} :
    ∀ {m : Finmap fun _ : K => V}, Fresh m kvs →
      weight w (create m kvs) = weight w m + (kvs.map fun kv => w kv.2).sum := by
  induction kvs with
  | nil => intro m _; rfl
  | cons kv kvs ih =>
      intro m h
      obtain ⟨habsent, hfresh⟩ := h
      show weight w (create (m.insert kv.1 kv.2) kvs) = _
      rw [ih hfresh, weight_insert habsent, List.map_cons, List.sum_cons]
      omega

/-! ## Steps -/

/-- The entries, the active labels and the retired ones. -/
structure State (K V C : Type) where
  entries : Finmap fun _ : K => V
  active : Finset C
  retired : Finset C

variable (label : V → Option C)

/-- The labels of the created entries. -/
def Entry.opens (e : Entry K V) : List C := e.created.filterMap fun kv => label kv.2

/-- The labels of the consumed entries. -/
def Entry.closes (s : State K V C) (e : Entry K V) : List C :=
  e.consumed.filterMap fun k => (s.entries.lookup k).bind label

/-- One step of the ledger. -/
structure Step (s : State K V C) (e : Entry K V) (s' : State K V C) : Prop where
  nodup : e.consumed.Nodup
  present : ∀ k ∈ e.consumed, ∃ v, s.entries.lookup k = some v
  fresh : Fresh (consume s.entries e.consumed) e.created
  opens_nodup : (e.opens label).Nodup
  opens_fresh : ∀ c ∈ e.opens label, c ∉ s.active ∧ c ∉ s.retired
  entries_eq : s'.entries = create (consume s.entries e.consumed) e.created
  active_eq : s'.active = (s.active \ (e.closes label s).toFinset) ∪ (e.opens label).toFinset
  retired_eq : s'.retired = s.retired ∪ (e.closes label s).toFinset

/-- Steps one after another. -/
inductive Run : State K V C → List (Entry K V) → State K V C → Prop
  | nil (s : State K V C) : Run s [] s
  | cons {s t s' : State K V C} {e : Entry K V} {es : List (Entry K V)} :
      Step label s e t → Run t es s' → Run s (e :: es) s'

/-- The labels are in step with the entries: active labels are those of the held
entries, one entry each, and no label is both active and retired. -/
structure Registered (s : State K V C) : Prop where
  active_iff : ∀ c, c ∈ s.active ↔ ∃ k v, s.entries.lookup k = some v ∧ label v = some c
  unique : ∀ {k k' v v' c}, s.entries.lookup k = some v → s.entries.lookup k' = some v' →
    label v = some c → label v' = some c → k = k'
  disjoint : Disjoint s.active s.retired

variable {label} {s s' : State K V C} {e : Entry K V}

omit [DecidableEq K] [DecidableEq C] in
theorem mem_opens {c : C} : c ∈ e.opens label ↔ ∃ k v, (k, v) ∈ e.created ∧ label v = some c := by
  simp [Entry.opens, List.mem_filterMap]

omit [DecidableEq C] in
theorem mem_closes {c : C} :
    c ∈ e.closes label s ↔
      ∃ k ∈ e.consumed, ∃ v, s.entries.lookup k = some v ∧ label v = some c := by
  simp [Entry.closes, List.mem_filterMap, Option.bind_eq_some_iff]

/-- What is held after a step. -/
theorem Step.lookup_iff (h : Step label s e s') (k : K) (v : V) :
    s'.entries.lookup k = some v ↔
      (s.entries.lookup k = some v ∧ k ∉ e.consumed) ∨ (k, v) ∈ e.created := by
  rw [h.entries_eq, lookup_create h.fresh, lookup_consume]
  by_cases hk : k ∈ e.consumed <;> simp [hk]

/-- What a step lets go of is the difference between what it consumed and what
it created. -/
theorem Step.weight_add {w : V → Nat} (h : Step label s e s') :
    weight w s'.entries + held w s.entries e.consumed =
      weight w s.entries + (e.created.map fun kv => w kv.2).sum := by
  have hconsume := weight_consume (w := w) h.nodup h.present
  have hcreate := weight_create (w := w) h.fresh
  rw [h.entries_eq]
  omega

/-- What a later step creates could have been created before this one, which finds what
it consumes all the same. -/
theorem Step.create_first {later : List (K × V)} (h : Step label s e s')
    (hlater : Fresh s.entries later)
    (hkeys : ∀ k ∈ later.map Prod.fst, k ∉ e.created.map Prod.fst) :
    (∀ k ∈ e.consumed, (create s.entries later).lookup k = s.entries.lookup k) ∧
      Fresh (consume (create s.entries later) e.consumed) e.created ∧
      Fresh s'.entries later ∧
      create (consume (create s.entries later) e.consumed) e.created =
        create s'.entries later := by
  have hunspent : ∀ k ∈ later.map Prod.fst, k ∉ e.consumed := by
    intro k hk hmem
    obtain ⟨kv, hkv, rfl⟩ := List.mem_map.mp hk
    obtain ⟨v, hv⟩ := h.present _ hmem
    rw [(fresh_iff.mp hlater).2 kv hkv] at hv
    cases hv
  obtain ⟨hfresh, hconsume⟩ := consume_create hlater hunspent
  obtain ⟨hafter, hcreate⟩ := create_comm h.fresh hfresh hkeys
  obtain ⟨hbefore, _⟩ := create_comm hfresh h.fresh fun k hk hk' => hkeys k hk' hk
  rw [h.entries_eq, hconsume, hcreate]
  exact ⟨fun k hk => lookup_create_of_not_mem (fun hmem => hunspent k hmem hk) _, hbefore, hafter,
    rfl⟩

theorem Step.mem_active (h : Step label s e s') (c : C) :
    c ∈ s'.active ↔ (c ∈ s.active ∧ c ∉ e.closes label s) ∨ c ∈ e.opens label := by
  rw [h.active_eq, Finset.mem_union, Finset.mem_sdiff, List.mem_toFinset, List.mem_toFinset]

theorem Step.mem_retired (h : Step label s e s') (c : C) :
    c ∈ s'.retired ↔ c ∈ s.retired ∨ c ∈ e.closes label s := by
  rw [h.retired_eq, Finset.mem_union, List.mem_toFinset]

omit [DecidableEq K] [DecidableEq C] in
/-- Two created entries with one label are one entry. -/
theorem opens_unique {kvs : List (K × V)} (hnd : (kvs.filterMap fun kv => label kv.2).Nodup)
    {p q : K × V} {c : C} (hp : p ∈ kvs) (hq : q ∈ kvs) (hpc : label p.2 = some c)
    (hqc : label q.2 = some c) : p = q := by
  induction kvs with
  | nil => cases hp
  | cons kv kvs ih =>
      have hmem : ∀ r ∈ kvs, label r.2 = some c → c ∈ kvs.filterMap fun kv => label kv.2 :=
        fun r hr hrc => List.mem_filterMap.mpr ⟨r, hr, hrc⟩
      cases hl : label kv.2 with
      | none =>
          rw [List.filterMap_cons_none (f := fun kv : K × V => label kv.2) hl] at hnd
          rcases List.mem_cons.mp hp with rfl | hp
          · rw [hl] at hpc; cases hpc
          · rcases List.mem_cons.mp hq with rfl | hq
            · rw [hl] at hqc; cases hqc
            · exact ih hnd hp hq
      | some d =>
          rw [List.filterMap_cons_some (f := fun kv : K × V => label kv.2) hl,
            List.nodup_cons] at hnd
          rcases List.mem_cons.mp hp with rfl | hp'
          · rcases List.mem_cons.mp hq with rfl | hq
            · rfl
            · rw [hl] at hpc; cases hpc
              exact absurd (hmem q hq hqc) hnd.1
          · rcases List.mem_cons.mp hq with rfl | hq
            · rw [hl] at hqc; cases hqc
              exact absurd (hmem p hp' hpc) hnd.1
            · exact ih hnd.2 hp' hq

theorem Step.registered (h : Step label s e s') (hs : Registered label s) :
    Registered label s' := by
  have hold : ∀ {k v c}, s.entries.lookup k = some v → label v = some c → c ∈ s.active :=
    fun hk hc => (hs.active_iff _).mpr ⟨_, _, hk, hc⟩
  constructor
  · intro c
    rw [h.mem_active]
    constructor
    · rintro (⟨hactive, hopen⟩ | hopens)
      · obtain ⟨k, v, hk, hv⟩ := (hs.active_iff c).mp hactive
        have hkept : k ∉ e.consumed := fun hmem => hopen (mem_closes.mpr ⟨k, hmem, v, hk, hv⟩)
        exact ⟨k, v, (h.lookup_iff k v).mpr (.inl ⟨hk, hkept⟩), hv⟩
      · obtain ⟨k, v, hmem, hv⟩ := mem_opens.mp hopens
        exact ⟨k, v, (h.lookup_iff k v).mpr (.inr hmem), hv⟩
    · rintro ⟨k, v, hk, hv⟩
      rcases (h.lookup_iff k v).mp hk with ⟨hk, hkept⟩ | hmem
      · refine .inl ⟨hold hk hv, fun hcloses => ?_⟩
        obtain ⟨k', hk', v', hv', hc'⟩ := mem_closes.mp hcloses
        exact hkept (hs.unique hk hv' hv hc' ▸ hk')
      · exact .inr (mem_opens.mpr ⟨k, v, hmem, hv⟩)
  · intro k k' v v' c hk hk' hv hv'
    rcases (h.lookup_iff k v).mp hk with ⟨hk, -⟩ | hmem
    · rcases (h.lookup_iff k' v').mp hk' with ⟨hk', -⟩ | hmem'
      · exact hs.unique hk hk' hv hv'
      · exact absurd (hold hk hv) (h.opens_fresh c (mem_opens.mpr ⟨k', v', hmem', hv'⟩)).1
    · rcases (h.lookup_iff k' v').mp hk' with ⟨hk', -⟩ | hmem'
      · exact absurd (hold hk' hv') (h.opens_fresh c (mem_opens.mpr ⟨k, v, hmem, hv⟩)).1
      · exact congrArg Prod.fst (opens_unique h.opens_nodup hmem hmem' hv hv')
  · rw [Finset.disjoint_left]
    intro c hactive hretired
    rcases (h.mem_active c).mp hactive with ⟨hactive, hkept⟩ | hopens
    · rcases (h.mem_retired c).mp hretired with hretired | hcloses
      · exact Finset.disjoint_left.mp hs.disjoint hactive hretired
      · exact hkept hcloses
    · rcases (h.mem_retired c).mp hretired with hretired | hcloses
      · exact (h.opens_fresh c hopens).2 hretired
      · obtain ⟨k, _, v, hk, hv⟩ := mem_closes.mp hcloses
        exact (h.opens_fresh c hopens).1 (hold hk hv)

/-! ## Runs -/

variable {es : List (Entry K V)}

theorem Run.append {t : State K V C} {es' : List (Entry K V)} (h : Run label s es t)
    (h' : Run label t es' s') : Run label s (es ++ es') s' := by
  induction h with
  | nil s => exact h'
  | cons hstep _ ih => exact .cons hstep (ih h')

theorem Run.singleton (h : Step label s e s') : Run label s [e] s' := .cons h (.nil s')

theorem Run.registered (h : Run label s es s') (hs : Registered label s) :
    Registered label s' := by
  induction h with
  | nil s => exact hs
  | cons hstep _ ih => exact ih (hstep.registered hs)

/-- What is held after a run: entries held before that no step consumed, and
entries a step created that no later step consumed. -/
theorem Run.lookup_iff (h : Run label s es s') (k : K) (v : V) :
    s'.entries.lookup k = some v ↔
      (s.entries.lookup k = some v ∧ ∀ e ∈ es, k ∉ e.consumed) ∨
        ∃ pre e post, es = pre ++ e :: post ∧ (k, v) ∈ e.created ∧
          ∀ e' ∈ post, k ∉ e'.consumed := by
  induction h with
  | nil s => simp
  | @cons s t s' e es hstep _ ih =>
      rw [ih, hstep.lookup_iff]
      constructor
      · rintro (⟨⟨hk, hkept⟩ | hcreated, hrest⟩ | ⟨pre, e', post, rfl, hcreated, hpost⟩)
        · refine .inl ⟨hk, fun e' he' => ?_⟩
          rcases List.mem_cons.mp he' with rfl | he'
          · exact hkept
          · exact hrest e' he'
        · exact .inr ⟨[], e, es, rfl, hcreated, hrest⟩
        · exact .inr ⟨e :: pre, e', post, rfl, hcreated, hpost⟩
      · rintro (⟨hk, hrest⟩ | ⟨pre, e', post, hsplit, hcreated, hpost⟩)
        · exact .inl ⟨.inl ⟨hk, hrest e List.mem_cons_self⟩, fun e' he' =>
            hrest e' (List.mem_cons_of_mem _ he')⟩
        · cases pre with
          | nil =>
              obtain ⟨rfl, rfl⟩ := List.cons.inj hsplit
              exact .inl ⟨.inr hcreated, hpost⟩
          | cons a pre =>
              obtain ⟨rfl, rfl⟩ := List.cons.inj hsplit
              exact .inr ⟨pre, e', post, rfl, hcreated, hpost⟩

/-- What no step consumes is still held. -/
theorem Run.kept (h : Run label s es s') {k : K} {v : V} (hk : s.entries.lookup k = some v)
    (hes : ∀ e ∈ es, k ∉ e.consumed) : s'.entries.lookup k = some v :=
  (h.lookup_iff k v).mpr (.inl ⟨hk, hes⟩)

/-- What was absent and no step creates is still absent. -/
theorem Run.absent (h : Run label s es s') {k : K} (hk : s.entries.lookup k = none)
    (hes : ∀ e ∈ es, ∀ v, (k, v) ∉ e.created) : s'.entries.lookup k = none := by
  rw [Option.eq_none_iff_forall_ne_some]
  intro v hv
  rcases (h.lookup_iff k v).mp hv with ⟨hk', -⟩ | ⟨pre, e, post, rfl, hcreated, -⟩
  · rw [hk] at hk'
    cases hk'
  · exact hes e (List.mem_append_right _ List.mem_cons_self) v hcreated

theorem Run.retired_mono (h : Run label s es s') : s.retired ⊆ s'.retired := by
  induction h with
  | nil s => exact Finset.Subset.refl _
  | cons hstep _ ih =>
      exact fun c hc => ih ((hstep.mem_retired c).mpr (.inl hc))

/-- A label that is active or retired stays one or the other. -/
theorem Step.known_mono (h : Step label s e s') {c : C}
    (hc : c ∈ s.active ∨ c ∈ s.retired) : c ∈ s'.active ∨ c ∈ s'.retired := by
  rcases hc with hactive | hretired
  · by_cases hcloses : c ∈ e.closes label s
    · exact .inr ((h.mem_retired c).mpr (.inr hcloses))
    · exact .inl ((h.mem_active c).mpr (.inl ⟨hactive, hcloses⟩))
  · exact .inr ((h.mem_retired c).mpr (.inl hretired))

/-- No step of a run opens a label that was known at its start, and no two
openings of a run share a label. -/
theorem Run.opens_fresh (h : Run label s es s') (hs : Registered label s) :
    (es.flatMap (Entry.opens label)).Nodup ∧
      ∀ c ∈ es.flatMap (Entry.opens label), c ∉ s.active ∧ c ∉ s.retired := by
  induction h with
  | nil s => exact ⟨List.nodup_nil, fun c hc => by cases hc⟩
  | @cons s t s' e es hstep _ ih =>
      obtain ⟨hnd, hfresh⟩ := ih (hstep.registered hs)
      have hlater : ∀ c ∈ es.flatMap (Entry.opens label), c ∉ e.opens label := by
        intro c hc hopens
        exact (hfresh c hc).1 ((hstep.mem_active c).mpr (.inr hopens))
      rw [List.flatMap_cons]
      refine ⟨List.nodup_append.mpr ⟨hstep.opens_nodup, hnd, ?_⟩, fun c hc => ?_⟩
      · rintro c hopens c' hc' rfl
        exact hlater c hc' hopens
      · rcases List.mem_append.mp hc with hopens | hc
        · exact hstep.opens_fresh c hopens
        · have hunknown : ¬(c ∈ t.active ∨ c ∈ t.retired) := fun hknown =>
            hknown.elim (hfresh c hc).1 (hfresh c hc).2
          exact ⟨fun hactive => hunknown (hstep.known_mono (.inl hactive)),
            fun hretired => hunknown (hstep.known_mono (.inr hretired))⟩

/-- A label that is unknown before a step is unknown after it, unless the step opens it. -/
theorem Step.unknown (h : Step label s e s') (hs : Registered label s) {c : C}
    (hc : c ∉ s.active ∧ c ∉ s.retired) (hopens : c ∉ e.opens label) :
    c ∉ s'.active ∧ c ∉ s'.retired := by
  constructor
  · intro hactive
    rcases (h.mem_active c).mp hactive with ⟨hactive, -⟩ | hmem
    · exact hc.1 hactive
    · exact hopens hmem
  · intro hretired
    rcases (h.mem_retired c).mp hretired with hretired | hcloses
    · exact hc.2 hretired
    · obtain ⟨k, -, v, hk, hv⟩ := mem_closes.mp hcloses
      exact hc.1 ((hs.active_iff c).mpr ⟨k, v, hk, hv⟩)

theorem Run.unknown (h : Run label s es s') (hs : Registered label s) {c : C}
    (hc : c ∉ s.active ∧ c ∉ s.retired) (hopens : c ∉ es.flatMap (Entry.opens label)) :
    c ∉ s'.active ∧ c ∉ s'.retired := by
  induction h with
  | nil s => exact hc
  | cons hstep _ ih =>
      rw [List.flatMap_cons, List.mem_append, not_or] at hopens
      exact ih (hstep.registered hs) (hstep.unknown hs hc hopens.1) hopens.2

end Lib.Ledger
