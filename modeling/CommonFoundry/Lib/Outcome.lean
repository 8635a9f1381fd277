/-
# `CommonFoundry.Lib.Outcome` — what a fallible call gives back

A call of a systems program ends in one of three ways: with a value, with an
error it *returns*, or by aborting (an arithmetic overflow in a checked build,
an index out of range).  The first two are data of the program; the third is
not, and a development that wants to say "never aborts" needs it in the type.

`Outcome ε α` is `Except` over `Fault ε`, so `do` notation is sequencing with
early return, and the lemmas below are the ones every inversion uses: from
`do … = .ok b` they peel off one statement at a time, with no unfolding.

The loop rules at the end are for `List.foldlM` and `List.forM`: what one iteration
keeps, a whole loop keeps, and a loop over `l₁ ++ l₂` is one loop after the other.
-/
import Mathlib.Data.List.Forall2
import Mathlib.Logic.Basic
import Mathlib.Tactic.Common

namespace Lib

/-- Why a call gave no value: it returned an error, or it aborted. -/
inductive Fault (ε : Type) where
  | err (e : ε)
  | panic
  deriving DecidableEq, Repr

/-- The result of a call that may return an error of type `ε` or abort. -/
abbrev Outcome (ε α : Type) := Except (Fault ε) α

namespace Outcome

variable {ε ε' α β σ : Type}

/-- Return the error `e`. -/
def fail (e : ε) : Outcome ε α := .error (.err e)

/-- Go on only if `p` holds; otherwise return `e`. -/
def require (p : Prop) [Decidable p] (e : ε) : Outcome ε Unit :=
  if p then .ok () else fail e

/-- The value of an option, or the error `e` when there is none. -/
def okOr (o : Option α) (e : ε) : Outcome ε α :=
  match o with
  | some a => .ok a
  | none => fail e

/-- Translate the returned error; an abort stays one. -/
def mapErr (f : ε → ε') : Outcome ε α → Outcome ε' α
  | .ok a => .ok a
  | .error (.err e) => .error (.err (f e))
  | .error .panic => .error .panic

/-! ## Inversion, one statement at a time -/

theorem pure_eq_ok {a b : α} : (pure a : Outcome ε α) = .ok b ↔ a = b := by
  show (Except.ok a : Outcome ε α) = .ok b ↔ a = b
  exact ⟨fun h => by cases h; rfl, fun h => by rw [h]⟩

theorem bind_eq_ok {x : Outcome ε α} {f : α → Outcome ε β} {b : β} :
    (x >>= f) = .ok b ↔ ∃ a, x = .ok a ∧ f a = .ok b := by
  cases x with
  | ok a => exact ⟨fun h => ⟨a, rfl, h⟩, fun ⟨_, ha, h⟩ => by cases ha; exact h⟩
  | error e => exact ⟨fun h => (by cases h), fun ⟨_, ha, _⟩ => (by cases ha)⟩

@[simp] theorem ok_bind {a : α} {f : α → Outcome ε β} :
    ((.ok a : Outcome ε α) >>= f) = f a := rfl

@[simp] theorem error_bind {e : Fault ε} {f : α → Outcome ε β} :
    ((.error e : Outcome ε α) >>= f) = .error e := rfl

@[simp] theorem fail_bind {e : ε} {f : α → Outcome ε β} :
    ((fail e : Outcome ε α) >>= f) = fail e := rfl

@[simp] theorem fail_ne_ok {e : ε} {a : α} : (fail e : Outcome ε α) ≠ .ok a :=
  fun h => by cases h

theorem require_eq_ok {p : Prop} [Decidable p] {e : ε} {u : Unit} :
    require p e = .ok u ↔ p := by
  unfold require
  split
  · next hp => exact ⟨fun _ => hp, fun _ => rfl⟩
  · next hp => exact ⟨fun h => absurd h fail_ne_ok, fun h => absurd h hp⟩

@[simp] theorem require_pos {p : Prop} [Decidable p] {e : ε} (h : p) :
    require p e = .ok () := if_pos h

@[simp] theorem require_neg {p : Prop} [Decidable p] {e : ε} (h : ¬p) :
    require p e = fail e := if_neg h

theorem okOr_eq_ok {o : Option α} {e : ε} {a : α} : okOr o e = .ok a ↔ o = some a := by
  cases o with
  | none => exact ⟨fun h => absurd h fail_ne_ok, fun h => by cases h⟩
  | some b => exact ⟨fun h => by cases h; rfl, fun h => by cases h; rfl⟩

@[simp] theorem okOr_some {a : α} {e : ε} : okOr (some a) e = .ok a := rfl

@[simp] theorem okOr_none {e : ε} : okOr (none : Option α) e = fail e := rfl

theorem mapErr_eq_ok {f : ε → ε'} {x : Outcome ε α} {a : α} :
    mapErr f x = .ok a ↔ x = .ok a := by
  cases x with
  | ok b => exact ⟨fun h => by cases h; rfl, fun h => by cases h; rfl⟩
  | error e => cases e <;> exact ⟨fun h => (by cases h), fun h => (by cases h)⟩

@[simp] theorem mapErr_ok {f : ε → ε'} {a : α} :
    mapErr f (.ok a : Outcome ε α) = .ok a := rfl

/-! ## Calls that never abort -/

/-- The call gives a value or returns an error. -/
def NoPanic (x : Outcome ε α) : Prop := x ≠ .error .panic

theorem NoPanic.ok {a : α} : NoPanic (.ok a : Outcome ε α) := fun h => by cases h

theorem NoPanic.fail {e : ε} : NoPanic (fail e : Outcome ε α) := fun h => by cases h

theorem NoPanic.bind {x : Outcome ε α} {f : α → Outcome ε β} (hx : NoPanic x)
    (hf : ∀ a, x = .ok a → NoPanic (f a)) : NoPanic (x >>= f) := by
  cases x with
  | ok a => exact hf a rfl
  | error fault => exact fun h => hx (by cases h; rfl)

theorem NoPanic.require {p : Prop} [Decidable p] {e : ε} : NoPanic (require p e) := by
  unfold Outcome.require
  split
  · exact .ok
  · exact .fail

theorem NoPanic.okOr {o : Option α} {e : ε} : NoPanic (okOr o e) := by
  cases o with
  | none => exact .fail
  | some a => exact .ok

/-! ## Loops -/

/-- A loop of checks passes when every one of them does. -/
theorem forM_eq_ok_iff {f : α → Outcome ε Unit} {l : List α} {u : Unit} :
    l.forM f = .ok u ↔ ∀ a ∈ l, f a = .ok () := by
  induction l with
  | nil => exact ⟨fun _ _ hmem => (by cases hmem), fun _ => rfl⟩
  | cons b l ih =>
      rw [show (b :: l).forM f = (f b >>= fun _ => l.forM f) from rfl, bind_eq_ok,
        List.forall_mem_cons]
      exact ⟨fun ⟨_, hb, hl⟩ => ⟨hb, ih.mp hl⟩, fun ⟨hb, hl⟩ => ⟨(), hb, ih.mpr hl⟩⟩

theorem foldlM_append_eq_ok {step : σ → α → Outcome ε σ} {l₁ l₂ : List α} {s u : σ} :
    (l₁ ++ l₂).foldlM step s = .ok u ↔
      ∃ t, l₁.foldlM step s = .ok t ∧ l₂.foldlM step t = .ok u := by
  rw [List.foldlM_append, bind_eq_ok]

theorem foldlM_cons_eq_ok {step : σ → α → Outcome ε σ} {a : α} {l : List α} {s u : σ} :
    (a :: l).foldlM step s = .ok u ↔
      ∃ t, step s a = .ok t ∧ l.foldlM step t = .ok u := by
  rw [List.foldlM_cons, bind_eq_ok]

/-- A loop whose every turn succeeds is the plain fold. -/
theorem foldlM_eq_ok {step : σ → α → Outcome ε σ} {f : σ → α → σ} {l : List α} {s : σ}
    (h : ∀ a ∈ l, ∀ s, step s a = .ok (f s a)) : l.foldlM step s = .ok (l.foldl f s) := by
  induction l generalizing s with
  | nil => rfl
  | cons a l ih =>
      rw [List.foldlM_cons, h a List.mem_cons_self, List.foldl_cons]
      exact ih fun b hb => h b (List.mem_cons_of_mem _ hb)

theorem mapM_eq_ok {f : α → Outcome ε β} {l : List α} {l' : List β} :
    l.mapM f = .ok l' ↔ List.Forall₂ (fun a b => f a = .ok b) l l' := by
  induction l generalizing l' with
  | nil =>
      rw [List.mapM_nil, pure_eq_ok, List.forall₂_nil_left_iff, eq_comm]
  | cons a l ih =>
      rw [List.mapM_cons, bind_eq_ok, List.forall₂_cons_left_iff]
      constructor
      · rintro ⟨b, hb, h⟩
        obtain ⟨bs, hbs, h⟩ := bind_eq_ok.mp h
        exact ⟨b, bs, hb, ih.mp hbs, (pure_eq_ok.mp h).symm⟩
      · rintro ⟨b, bs, hb, hbs, rfl⟩
        exact ⟨b, hb, bind_eq_ok.mpr ⟨bs, ih.mpr hbs, rfl⟩⟩

/-- What a loop over a range collected, entry by entry. -/
theorem mapM_range_eq_ok {f : Nat → Outcome ε β} {n : Nat} {l : List β} :
    (List.range n).mapM f = .ok l ↔ l.length = n ∧ ∀ i b, l[i]? = some b → f i = .ok b := by
  rw [mapM_eq_ok, List.forall₂_iff_get]
  constructor
  · rintro ⟨hlength, h⟩
    refine ⟨by rw [← hlength, List.length_range], fun i b hb => ?_⟩
    obtain ⟨hi, rfl⟩ := List.getElem?_eq_some_iff.mp hb
    have hstep := h i (by omega) hi
    simpa using hstep
  · rintro ⟨hlength, h⟩
    refine ⟨by rw [hlength, List.length_range], fun i hi hi' => ?_⟩
    have hstep := h i l[i] (List.getElem?_eq_getElem hi')
    simpa using hstep

/-- A loop over a range collects what each turn promises. -/
theorem exists_mapM_range {f : Nat → Outcome ε β} {Q : Nat → β → Prop} {n : Nat}
    (h : ∀ i < n, ∃ b, f i = .ok b ∧ Q i b) :
    ∃ l, (List.range n).mapM f = .ok l ∧ l.length = n ∧ ∀ i b, l[i]? = some b → Q i b := by
  choose g hg hQ using h
  have hentry : ∀ i b, (List.ofFn fun i : Fin n => g i i.2)[i]? = some b →
      ∃ hi : i < n, g i hi = b := by
    intro i b hb
    obtain ⟨hi, hb⟩ := List.getElem?_eq_some_iff.mp hb
    rw [List.length_ofFn] at hi
    exact ⟨hi, by rw [← hb, List.getElem_ofFn]⟩
  refine ⟨List.ofFn fun i : Fin n => g i i.2, mapM_range_eq_ok.mpr ⟨List.length_ofFn, ?_⟩,
    List.length_ofFn, ?_⟩
  · intro i b hb
    obtain ⟨hi, rfl⟩ := hentry i b hb
    exact hg i hi
  · intro i b hb
    obtain ⟨hi, rfl⟩ := hentry i b hb
    exact hQ i hi

/-! ## Errors that a call does not return -/

/-- The call does not return the error `e`. -/
def Avoids (e : ε) (x : Outcome ε α) : Prop := x ≠ .error (.err e)

theorem Avoids.ok {e : ε} {a : α} : Avoids e (.ok a : Outcome ε α) := fun h => by cases h

theorem Avoids.fail {e e' : ε} (hne : e' ≠ e) : Avoids e (fail e' : Outcome ε α) := by
  intro h
  cases h
  exact hne rfl

theorem Avoids.bind {e : ε} {x : Outcome ε α} {f : α → Outcome ε β} (hx : Avoids e x)
    (hf : ∀ a, x = .ok a → Avoids e (f a)) : Avoids e (x >>= f) := by
  cases x with
  | ok a => exact hf a rfl
  | error fault => exact fun h => hx (by cases h; rfl)

theorem Avoids.require {p : Prop} [Decidable p] {e e' : ε} (hne : e' ≠ e) :
    Avoids e (require p e') := by
  unfold Outcome.require
  split
  · exact .ok
  · exact .fail hne

theorem Avoids.okOr {o : Option α} {e e' : ε} (hne : e' ≠ e) : Avoids e (okOr o e') := by
  cases o with
  | none => exact .fail hne
  | some a => exact .ok

theorem Avoids.mapErr {f : ε' → ε} {e : ε} {x : Outcome ε' α} (hne : ∀ e', f e' ≠ e) :
    Avoids e (mapErr f x) := by
  cases x with
  | ok a => exact .ok
  | error fault =>
      cases fault with
      | err e' => exact .fail (hne e')
      | panic => exact fun h => by cases h

theorem Avoids.foldlM {e : ε} {step : σ → α → Outcome ε σ} {l : List α} {s : σ}
    (h : ∀ s, ∀ a ∈ l, Avoids e (step s a)) : Avoids e (l.foldlM step s) := by
  induction l generalizing s with
  | nil => exact .ok
  | cons a l ih =>
      rw [List.foldlM_cons]
      exact (h s a List.mem_cons_self).bind fun t _ =>
        ih fun s b hb => h s b (List.mem_cons_of_mem _ hb)

theorem Avoids.forM {e : ε} {f : α → Outcome ε PUnit} {l : List α}
    (h : ∀ a ∈ l, Avoids e (f a)) : Avoids e (l.forM f) := by
  induction l with
  | nil => exact .ok
  | cons a l ih =>
      exact (h a List.mem_cons_self).bind fun _ _ => ih fun b hb => h b (List.mem_cons_of_mem _ hb)

end Outcome

end Lib
