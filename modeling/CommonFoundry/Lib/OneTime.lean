/-
# `CommonFoundry.Lib.OneTime` — ledgers whose keys are created once

A ledger refuses to create a key that it holds.  It does not know the keys that were
consumed, so by itself it could create one of those again.

Suppose that an entry determines its keys so well that whoever creates one of them
again also consumes again what was consumed for it (`Recreates`).  Then, on a ledger
that was empty at first, no key is ever created twice: what would have to be consumed
again is gone, and can only come back under a key that is created twice.  The
induction carries both halves at once (`OneTime`).
-/
import CommonFoundry.Lib.Ledger

namespace Lib.Ledger

variable {K V C : Type} [DecidableEq K]

/-- The keys an entry creates. -/
def Entry.keys (e : Entry K V) : List K := e.created.map Prod.fst

/-- An entry that creates a key of an earlier one consumes what that one consumed, and
that is not nothing. -/
def Recreates (e e' : Entry K V) : Prop :=
  ∀ k ∈ e.keys, k ∈ e'.keys → e.consumed = e'.consumed ∧ e'.consumed ≠ []

/-- After these entries: every key was created once and consumed once, and what was
consumed is gone. -/
structure OneTime (es : List (Entry K V)) (s : State K V C) : Prop where
  created : (es.flatMap Entry.keys).Nodup
  consumed : (es.flatMap Entry.consumed).Nodup
  gone : ∀ k ∈ es.flatMap Entry.consumed, s.entries.lookup k = none
  known : ∀ k ∈ es.flatMap Entry.consumed, k ∈ es.flatMap Entry.keys
  held : ∀ k v, s.entries.lookup k = some v → k ∈ es.flatMap Entry.keys

namespace OneTime

variable {es : List (Entry K V)} {e : Entry K V} {s s' : State K V C}

theorem empty (h : ∀ k, s.entries.lookup k = none) : OneTime [] s where
  created := List.nodup_nil
  consumed := List.nodup_nil
  gone _ hk := absurd hk (List.not_mem_nil)
  known _ hk := absurd hk (List.not_mem_nil)
  held k v hv := by
    rw [h k] at hv
    cases hv

/-- Whoever finds present what it consumes creates keys that are new. -/
theorem new (h : OneTime es s) (hpresent : ∀ k ∈ e.consumed, ∃ v, s.entries.lookup k = some v)
    (hes : ∀ e' ∈ es, Recreates e' e) : ∀ k ∈ e.keys, k ∉ es.flatMap Entry.keys := by
  intro k hk hmem
  obtain ⟨e', he', hk'⟩ := List.mem_flatMap.mp hmem
  obtain ⟨hsame, hsome⟩ := hes e' he' k hk' hk
  obtain ⟨again, hagain⟩ := List.exists_mem_of_ne_nil _ hsome
  -- it was consumed before, so it is not there to be consumed now
  have hgone := h.gone again (List.mem_flatMap.mpr ⟨e', he', hsame ▸ hagain⟩)
  obtain ⟨v, hv⟩ := hpresent again hagain
  rw [hgone] at hv
  cases hv

theorem absent (h : OneTime es s) (hpresent : ∀ k ∈ e.consumed, ∃ v, s.entries.lookup k = some v)
    (hes : ∀ e' ∈ es, Recreates e' e) : ∀ k ∈ e.keys, s.entries.lookup k = none := by
  intro k hk
  rw [Option.eq_none_iff_forall_ne_some]
  exact fun v hv => h.new hpresent hes k hk (h.held k v hv)

section

variable [DecidableEq C] {label : V → Option C}

theorem step (h : OneTime es s) (hstep : Step label s e s') (hes : ∀ e' ∈ es, Recreates e' e) :
    OneTime (es ++ [e]) s' := by
  have hnew := h.new hstep.present hes
  have hfound : ∀ k ∈ e.consumed, k ∈ es.flatMap Entry.keys := by
    intro k hk
    obtain ⟨v, hv⟩ := hstep.present k hk
    exact h.held k v hv
  refine ⟨?_, ?_, ?_, ?_, ?_⟩
  · rw [List.flatMap_append, List.flatMap_singleton]
    refine List.nodup_append.mpr ⟨h.created, (fresh_iff.mp hstep.fresh).1, ?_⟩
    rintro k hk k' hk' rfl
    exact hnew k hk' hk
  · rw [List.flatMap_append, List.flatMap_singleton]
    refine List.nodup_append.mpr ⟨h.consumed, hstep.nodup, ?_⟩
    rintro k hk k' hk' rfl
    obtain ⟨v, hv⟩ := hstep.present k hk'
    rw [h.gone k hk] at hv
    cases hv
  · intro k hk
    rw [Option.eq_none_iff_forall_ne_some]
    intro v hv
    rw [List.flatMap_append, List.flatMap_singleton] at hk
    rcases (hstep.lookup_iff k v).mp hv with ⟨hkept, hfree⟩ | hcreated
    · rcases List.mem_append.mp hk with hk | hk
      · rw [h.gone k hk] at hkept
        cases hkept
      · exact hfree hk
    · -- it would be created a second time
      have hkey : k ∈ e.keys := List.mem_map_of_mem (f := Prod.fst) hcreated
      rcases List.mem_append.mp hk with hk | hk
      · exact hnew k hkey (h.known k hk)
      · exact hnew k hkey (hfound k hk)
  · intro k hk
    rw [List.flatMap_append, List.flatMap_singleton] at hk ⊢
    rcases List.mem_append.mp hk with hk | hk
    · exact List.mem_append_left _ (h.known k hk)
    · exact List.mem_append_left _ (hfound k hk)
  · intro k v hv
    rw [List.flatMap_append, List.flatMap_singleton]
    rcases (hstep.lookup_iff k v).mp hv with ⟨hkept, -⟩ | hcreated
    · exact List.mem_append_left _ (h.held k v hkept)
    · exact List.mem_append_right _ (List.mem_map_of_mem (f := Prod.fst) hcreated)

/-- A run keeps it, where no two entries could create one key from different things. -/
theorem run {es' : List (Entry K V)} (h : OneTime es s) (hrun : Run label s es' s')
    (hbefore : ∀ e ∈ es, ∀ e' ∈ es', Recreates e e') (hes' : es'.Pairwise Recreates) :
    OneTime (es ++ es') s' := by
  induction hrun generalizing es with
  | nil s => rwa [List.append_nil]
  | @cons s t s' e rest hstep _ ih =>
      obtain ⟨hfirst, hrest⟩ := List.pairwise_cons.mp hes'
      rw [← List.singleton_append, ← List.append_assoc]
      refine ih (h.step hstep fun e' he' => hbefore e' he' e List.mem_cons_self) ?_ hrest
      intro e' he' later hlater
      rcases List.mem_append.mp he' with he' | he'
      · exact hbefore e' he' later (List.mem_cons_of_mem _ hlater)
      · rw [List.mem_singleton.mp he']
        exact hfirst later hlater

end

end OneTime

end Lib.Ledger
