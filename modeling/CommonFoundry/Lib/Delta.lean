/-
# `CommonFoundry.Lib.Delta` — staged changes over a store

A store `M` answers a key with a value (`Store.get`) and can be updated in
place (`Store.set`).  A *delta* stages updates beside a store that is not
touched: for each key whose answer would change it remembers the answer of the
base store and the staged one.  Reading goes through the delta first; staging
the base answer again forgets the key; applying the delta performs the staged
updates; and a delta can be matched against a store, to see whether the answers
it was staged over are still the current ones.

The point is `apply_stage`: staging and then applying is applying and then
updating in place.  So a computation that stages its updates, run to its end,
leaves behind exactly what the same computation would have left in place.

Two stores are given at the end: finite maps, where a value is an option
(`none` for an absent key), and finite sets, where it is a Boolean.  A delta is
itself a finite map, and the updates it stages are performed in *some* order
of its keys; `applyEntries_perm` is the proof that the order is not observable.
-/
import Mathlib.Data.Finmap
import Mathlib.Data.Finset.Insert
import Mathlib.Tactic.Common

namespace Lib

/-- A store: a value for every key, an update of one key, and nothing else. -/
class Store (M : Type) (K V : outParam Type) [DecidableEq K] where
  get : M → K → V
  set : M → K → V → M
  get_set : ∀ m k v k', get (set m k v) k' = if k' = k then v else get m k'
  ext_get : ∀ {m m' : M}, (∀ k, get m k = get m' k) → m = m'

/-- What is staged for one key: the base answer and the new one. -/
structure Change (V : Type) where
  previous : V
  next : V
  deriving DecidableEq

/-- Staged changes, by key. -/
abbrev Delta (K V : Type) := Finmap fun _ : K => Change V

namespace Delta

variable {M K V : Type} [DecidableEq K] [Store M K V]

/-- The answer for `k`, the staged one if there is one. -/
def get (base : M) (δ : Delta K V) (k : K) : V :=
  match δ.lookup k with
  | some change => change.next
  | none => Store.get base k

/-- Stage `next` for `k`; forget `k` when that is what the base answers. -/
def stage [DecidableEq V] (base : M) (δ : Delta K V) (k : K) (next : V) : Delta K V :=
  let previous := Store.get base k
  let change := (δ.lookup k).getD { previous, next := previous }
  if change.previous = next then δ.erase k else δ.insert k { change with next }

/-- The base answers in `δ` are those of `base`. -/
def Matches (base : M) (δ : Delta K V) : Prop :=
  ∀ entry ∈ δ.entries, Store.get base entry.1 = entry.2.previous

instance [DecidableEq V] (base : M) (δ : Delta K V) : Decidable (δ.Matches base) :=
  inferInstanceAs (Decidable (∀ entry ∈ δ.entries, _))

/-- Perform the staged updates, in the order of the list. -/
def applyEntries (base : M) (entries : List (Σ _ : K, Change V)) : M :=
  entries.foldl (fun m entry => Store.set m entry.1 entry.2.next) base

theorem get_applyEntries {entries : List (Σ _ : K, Change V)} (hnd : entries.NodupKeys)
    (base : M) (k : K) :
    Store.get (applyEntries base entries) k =
      match entries.dlookup k with
      | some change => change.next
      | none => Store.get base k := by
  induction entries generalizing base with
  | nil => rfl
  | cons entry entries ih =>
      obtain ⟨a, change⟩ := entry
      have hnd' : entries.NodupKeys := (List.nodupKeys_cons.mp hnd).2
      have ha : a ∉ entries.keys := (List.nodupKeys_cons.mp hnd).1
      show Store.get (applyEntries (Store.set base a change.next) entries) k = _
      rw [ih hnd']
      by_cases hk : k = a
      · subst hk
        rw [List.dlookup_cons_eq, List.dlookup_eq_none.mpr ha]
        show Store.get (Store.set base k change.next) k = change.next
        rw [Store.get_set, if_pos rfl]
      · rw [List.dlookup_cons_ne _ _ hk]
        cases entries.dlookup k with
        | some c => rfl
        | none =>
            show Store.get (Store.set base a change.next) k = Store.get base k
            rw [Store.get_set, if_neg hk]

/-- The order in which the updates are performed is not observable. -/
theorem applyEntries_perm (base : M) {l₁ l₂ : List (Σ _ : K, Change V)}
    (hnd₁ : l₁.NodupKeys) (hp : l₁.Perm l₂) : applyEntries base l₁ = applyEntries base l₂ := by
  have hnd₂ : l₂.NodupKeys := (List.perm_nodupKeys hp).mp hnd₁
  refine Store.ext_get fun k => ?_
  rw [get_applyEntries hnd₁, get_applyEntries hnd₂, List.perm_dlookup k hnd₁ hp]

/-- Perform the staged updates on `base`. -/
def apply (base : M) (δ : Delta K V) : M :=
  δ.liftOn (fun l => applyEntries base l.entries)
    fun l₁ _ hp => applyEntries_perm base l₁.nodupKeys hp

@[simp] theorem get_apply (base : M) (δ : Delta K V) (k : K) :
    Store.get (δ.apply base) k = δ.get base k := by
  refine Finmap.induction_on δ fun l => ?_
  show Store.get (applyEntries base l.entries) k = _
  rw [get_applyEntries l.nodupKeys, get, Finmap.lookup_toFinmap]
  rfl

@[simp] theorem get_empty (base : M) (k : K) : get base (∅ : Delta K V) k = Store.get base k := rfl

@[simp] theorem apply_empty (base : M) : apply base (∅ : Delta K V) = base :=
  Store.ext_get fun k => by rw [get_apply, get_empty]

/-! ## Deltas that were staged over `base`

`StagedOver base δ` is what `stage` keeps: every base answer in `δ` is the one
`base` gives, and no key is in `δ` whose answer would not change. -/

/-- `δ` holds exactly changes of `base`. -/
def StagedOver (base : M) (δ : Delta K V) : Prop :=
  ∀ k change, δ.lookup k = some change →
    change.previous = Store.get base k ∧ change.next ≠ Store.get base k

theorem stagedOver_empty (base : M) : StagedOver base (∅ : Delta K V) := by
  intro k change h
  rw [Finmap.lookup_empty] at h
  cases h

section Stage

variable [DecidableEq V] {base : M} {δ : Delta K V}

/-- Over a staged delta, staging compares with the base answer itself. -/
theorem stage_eq (h : StagedOver base δ) (k : K) (next : V) :
    stage base δ k next =
      if Store.get base k = next then δ.erase k
      else δ.insert k { previous := Store.get base k, next } := by
  unfold stage
  cases hk : δ.lookup k with
  | none => rfl
  | some change =>
      have hprev := (h k change hk).1
      simp only [Option.getD_some, hprev]

theorem get_stage (h : StagedOver base δ) (k : K) (next : V) (k' : K) :
    get base (stage base δ k next) k' = if k' = k then next else get base δ k' := by
  rw [stage_eq h]
  by_cases hk : k' = k
  · subst hk
    rw [if_pos rfl]
    split
    · next heq => rw [get, Finmap.lookup_erase]; exact heq
    · rw [get, Finmap.lookup_insert]
  · rw [if_neg hk]
    split
    · rw [get, Finmap.lookup_erase_ne hk, get]
    · rw [get, Finmap.lookup_insert_of_ne _ hk, get]

theorem stagedOver_stage (h : StagedOver base δ) (k : K) (next : V) :
    StagedOver base (stage base δ k next) := by
  intro k' change hk'
  rw [stage_eq h] at hk'
  by_cases hk : k' = k
  · subst hk
    split at hk'
    · rw [Finmap.lookup_erase] at hk'; cases hk'
    · next hne =>
        rw [Finmap.lookup_insert, Option.some.injEq] at hk'
        subst hk'
        exact ⟨rfl, fun heq => hne heq.symm⟩
  · split at hk'
    · rw [Finmap.lookup_erase_ne hk] at hk'; exact h k' change hk'
    · rw [Finmap.lookup_insert_of_ne _ hk] at hk'; exact h k' change hk'

/-- Staging and applying is applying and updating in place. -/
theorem apply_stage (h : StagedOver base δ) (k : K) (next : V) :
    apply base (stage base δ k next) = Store.set (apply base δ) k next := by
  refine Store.ext_get fun k' => ?_
  rw [get_apply, get_stage h, Store.get_set, get_apply]

end Stage

theorem matches_of_stagedOver {base : M} {δ : Delta K V} (h : StagedOver base δ) :
    δ.Matches base := by
  intro entry hentry
  exact (h entry.1 entry.2 (Finmap.mem_lookup_iff.mpr hentry)).1.symm

/-- A key is in a staged delta exactly when its answer changes. -/
theorem mem_iff_of_stagedOver {base : M} {δ : Delta K V} (h : StagedOver base δ) (k : K) :
    k ∈ δ ↔ Store.get (δ.apply base) k ≠ Store.get base k := by
  rw [get_apply, get]
  cases hk : δ.lookup k with
  | none => exact ⟨fun hmem => absurd hmem (Finmap.lookup_eq_none.mp hk), fun hne => absurd rfl hne⟩
  | some change =>
      refine ⟨fun _ => (h k change hk).2, fun _ => ?_⟩
      exact Finmap.mem_iff.mpr ⟨change, hk⟩

end Delta

/-! ## The two stores -/

/-- A finite map; setting a key to `none` removes it. -/
instance {K V : Type} [DecidableEq K] : Store (Finmap fun _ : K => V) K (Option V) where
  get m k := m.lookup k
  set m k v :=
    match v with
    | some v => m.insert k v
    | none => m.erase k
  get_set m k v k' := by
    by_cases hk : k' = k
    · subst hk
      cases v with
      | none => simp only [Finmap.lookup_erase, ↓reduceIte]
      | some v => simp only [Finmap.lookup_insert, ↓reduceIte]
    · cases v with
      | none => simp only [Finmap.lookup_erase_ne hk, if_neg hk]
      | some v => simp only [Finmap.lookup_insert_of_ne _ hk, if_neg hk]
  ext_get h := Finmap.ext_lookup h

/-- A finite set; setting a key to `false` removes it. -/
instance {K : Type} [DecidableEq K] : Store (Finset K) K Bool where
  get s k := decide (k ∈ s)
  set s k v := if v then insert k s else s.erase k
  get_set s k v k' := by
    by_cases hk : k' = k
    · subst hk
      cases v <;> simp
    · cases v <;> simp [hk]
  ext_get h := Finset.ext fun k => by simpa using h k

end Lib
