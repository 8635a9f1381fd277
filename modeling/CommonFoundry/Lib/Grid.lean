/-
# `CommonFoundry.Lib.Grid` — two nested loops over the cells of a grid

`cells` lists the cells of a grid, row after row, and a loop over them collects one value
for each.  Cell `i` of the list is in row `i / width` and column `i % width`, so what was
collected is known entry by entry (`mapM_cells_eq_ok`).  Where a second loop checks what
the first one makes, it passes on the lists that the first one made, and on no other
(`mapM_cells_iff`).
-/
import CommonFoundry.Lib.Outcome

namespace Lib

open Outcome

/-- `values[i]`, which aborts out of range. -/
def itemAt {ε α : Type} (values : List α) (i : Nat) : Outcome ε α :=
  match values[i]? with
  | some value => .ok value
  | none => .error .panic

@[simp] theorem itemAt_of_lt {ε α : Type} {values : List α} {i : Nat} (h : i < values.length) :
    (itemAt values i : Outcome ε α) = .ok values[i] := by
  rw [itemAt, List.getElem?_eq_getElem h]

theorem itemAt_eq_ok {ε α : Type} {values : List α} {i : Nat} {value : α} :
    (itemAt values i : Outcome ε α) = .ok value ↔ values[i]? = some value := by
  rw [itemAt]
  cases values[i]? with
  | none => exact ⟨nofun, nofun⟩
  | some found => rw [Except.ok.injEq, Option.some.injEq]

/-- A list is the image of another when its entries are. -/
theorem eq_map_iff {α β : Type} {f : α → β} {l : List α} {l' : List β}
    (hlength : l'.length = l.length) :
    l' = l.map f ↔ ∀ (i : Nat) a, l[i]? = some a → l'[i]? = some (f a) := by
  constructor
  · rintro rfl i a ha
    rw [List.getElem?_map, ha, Option.map_some]
  · intro h
    refine List.ext_getElem (by rw [hlength, List.length_map]) fun i hi hi' => ?_
    have hentry := h i l[i] (List.getElem?_eq_getElem (by omega))
    rw [List.getElem?_eq_getElem hi, Option.some.injEq] at hentry
    rw [hentry, List.getElem_map]

/-- `for row in 0..rows { for col in 0..width { … } }`. -/
def cells (rows width : Nat) : List (Nat × Nat) :=
  (List.range rows).flatMap fun row => (List.range width).map fun col => (row, col)

theorem cells_eq (rows width : Nat) :
    cells rows width = (List.range (rows * width)).map fun i => (i / width, i % width) := by
  induction rows with
  | zero => rw [cells, Nat.zero_mul]; rfl
  | succ rows ih =>
      rw [cells] at ih
      rw [cells, List.range_succ, List.flatMap_append, ih, List.flatMap_singleton, Nat.succ_mul,
        List.range_add, List.map_append, List.map_map]
      congr 1
      refine List.map_congr_left fun col hcol => ?_
      have hlt := List.mem_range.mp hcol
      have hdiv : (rows * width + col) / width = rows := by
        rw [Nat.mul_comm, Nat.mul_add_div (by omega), Nat.div_eq_of_lt hlt, Nat.add_zero]
      have hmod : (rows * width + col) % width = col := by
        rw [Nat.mul_comm, Nat.mul_add_mod, Nat.mod_eq_of_lt hlt]
      rw [Function.comp_apply, hdiv, hmod]

section

variable {ε α : Type} {f : Nat × Nat → Outcome ε α} {rows width : Nat}

/-- What a loop over the cells collected, entry by entry. -/
theorem mapM_cells_eq_ok {l : List α} :
    (cells rows width).mapM f = .ok l ↔
      l.length = rows * width ∧ ∀ i a, l[i]? = some a → f (i / width, i % width) = .ok a := by
  rw [cells_eq, List.mapM_map]
  exact mapM_range_eq_ok

/-- A cell of a grid is where its number says. -/
theorem div_mod_lt {i : Nat} (hi : i < rows * width) :
    i / width < rows ∧ i % width < width ∧ i / width * width + i % width = i := by
  have hwidth : 0 < width := Nat.pos_of_mul_pos_left (Nat.lt_of_le_of_lt (Nat.zero_le i) hi)
  exact ⟨Nat.div_lt_of_lt_mul (by rwa [Nat.mul_comm] at hi), Nat.mod_lt _ hwidth,
    by rw [Nat.mul_comm]; exact Nat.div_add_mod i width⟩

/-- A loop over the cells collects what each turn promises. -/
theorem exists_mapM_cells {Q : α → Prop}
    (h : ∀ row col, row < rows → col < width → ∃ a, f (row, col) = .ok a ∧ Q a) :
    ∃ l, (cells rows width).mapM f = .ok l ∧ l.length = rows * width ∧ ∀ a ∈ l, Q a := by
  have hcell : ∀ i < rows * width, ∃ a, f (i / width, i % width) = .ok a ∧ Q a := by
    intro i hi
    obtain ⟨hrow, hcol, _⟩ := div_mod_lt hi
    exact h _ _ hrow hcol
  obtain ⟨l, hl, hlength, hQ⟩ := exists_mapM_range hcell
  refine ⟨l, ?_, hlength, fun a ha => ?_⟩
  · rw [cells_eq, List.mapM_map]
    exact hl
  · obtain ⟨i, hi⟩ := List.mem_iff_getElem?.mp ha
    exact hQ i a hi

/-- A loop whose every turn checks what another loop makes. -/
theorem mapM_cells_iff {β : Type} {check : Nat × Nat → Outcome ε β} (out : α → β)
    (Agrees : Nat → α → Prop) {made : List α} {l : List β}
    (h : ∀ row col, row < rows → col < width → ∀ b, check (row, col) = .ok b ↔
      ∃ a, f (row, col) = .ok a ∧ Agrees (row * width + col) a ∧ out a = b)
    (hmade : (cells rows width).mapM f = .ok made) :
    (cells rows width).mapM check = .ok l ↔
      l = made.map out ∧ ∀ i a, made[i]? = some a → Agrees i a := by
  obtain ⟨hlength, hentries⟩ := mapM_cells_eq_ok.mp hmade
  have hcheck : ∀ i a, made[i]? = some a → ∀ b,
      check (i / width, i % width) = .ok b ↔ Agrees i a ∧ out a = b := by
    intro i a ha b
    obtain ⟨hi, _⟩ := List.getElem?_eq_some_iff.mp ha
    obtain ⟨hrow, hcol, hindex⟩ := div_mod_lt (hlength ▸ hi)
    rw [h _ _ hrow hcol, hindex, hentries i a ha]
    exact ⟨fun ⟨_, ha', hagrees⟩ => by cases ha'; exact hagrees, fun hagrees => ⟨a, rfl, hagrees⟩⟩
  rw [mapM_cells_eq_ok]
  constructor
  · rintro ⟨hl, hentry⟩
    have hboth : ∀ i a, made[i]? = some a → Agrees i a ∧ l[i]? = some (out a) := by
      intro i a ha
      obtain ⟨hi, _⟩ := List.getElem?_eq_some_iff.mp ha
      have hget := List.getElem?_eq_getElem (show i < l.length by omega)
      obtain ⟨hagrees, hout⟩ := (hcheck i a ha _).mp (hentry i _ hget)
      exact ⟨hagrees, by rw [hget, hout]⟩
    exact ⟨(eq_map_iff (hl.trans hlength.symm)).mpr fun i a ha => (hboth i a ha).2,
      fun i a ha => (hboth i a ha).1⟩
  · rintro ⟨rfl, hagrees⟩
    refine ⟨by rw [List.length_map, hlength], fun i b hb => ?_⟩
    rw [List.getElem?_map, Option.map_eq_some_iff] at hb
    obtain ⟨a, ha, rfl⟩ := hb
    exact (hcheck i a ha _).mpr ⟨hagrees i a ha, rfl⟩

end

/-- A loop that fills a part of a list, in order. -/
theorem exists_foldlM_set {ε α : Type} {f : Nat → Outcome ε α} {Q : Nat → α → Prop} {offset n : Nat}
    {l : List α} (hlength : offset + n ≤ l.length) (h : ∀ i < n, ∃ a, f i = .ok a ∧ Q i a) :
    ∃ l', (List.range n).foldlM (fun l i => do
        let a ← f i
        pure (l.set (offset + i) a)) l = .ok l' ∧
      l'.length = l.length ∧ (∀ i < n, ∃ a, l'[offset + i]? = some a ∧ Q i a) ∧
      ∀ j, j < offset → l'[j]? = l[j]? := by
  induction n with
  | zero => exact ⟨l, rfl, rfl, fun i hi => absurd hi (Nat.not_lt_zero i), fun _ _ => rfl⟩
  | succ n ih =>
      obtain ⟨before, hbefore, hsame, hentries, hkept⟩ := ih (by omega) fun i hi => h i (by omega)
      obtain ⟨a, ha, hQ⟩ := h n (Nat.lt_succ_self n)
      refine ⟨before.set (offset + n) a, ?_, by rw [List.length_set, hsame], fun i hi => ?_,
        fun j hj => ?_⟩
      · rw [List.range_succ, foldlM_append_eq_ok]
        refine ⟨before, hbefore, ?_⟩
        rw [List.foldlM_cons, ha]
        rfl
      · rcases Nat.lt_succ_iff_lt_or_eq.mp hi with hi | rfl
        · obtain ⟨b, hb, hQ⟩ := hentries i hi
          exact ⟨b, by rw [List.getElem?_set_ne (by omega), hb], hQ⟩
        · exact ⟨a, List.getElem?_set_self (by omega), hQ⟩
      · rw [List.getElem?_set_ne (by omega), hkept j hj]

end Lib
