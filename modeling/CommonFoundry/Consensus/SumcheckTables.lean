/-
# `CommonFoundry.Consensus.SumcheckTables` — the tables as multilinear functions

What each helper of the sumcheck computes, in the terms of `Lib.Multilinear`: a list
of elements is the table of its values (`values`).

| | |
| :-- | :-- |
| `foldPairs` | fixes the first coordinate (`values_foldPairs`) |
| `equality_weights` | the weights, at the same indices (`values_equalityWeights`) |
| `evaluate_mle` | the extension at the point (`evaluateMle_eq_ok`) |
| `quadratic_round`, `evaluate_quadratic` | one round (`quadraticRound_eq_ok`) |

So the index order of the weights, the fold order of the tables and the
interpolation are checked against one statement each.
-/
import CommonFoundry.Consensus.Sumcheck
import CommonFoundry.Lib.Multilinear

namespace CommonFoundry.Consensus

open Lib Lib.Multilinear

/-- The residues of a list, as a table. -/
def values (l : List Goldilocks) (i : Nat) : ZMod goldilocksModulus :=
  (l.getD i Goldilocks.zero).toField

/-- The residues of a point. -/
def residues (point : List Goldilocks) : List (ZMod goldilocksModulus) :=
  point.map Goldilocks.toField

@[simp] theorem length_residues (point : List Goldilocks) :
    (residues point).length = point.length := List.length_map _

@[simp] theorem values_cons_zero (x : Goldilocks) (l : List Goldilocks) :
    values (x :: l) 0 = x.toField := rfl

@[simp] theorem values_cons_succ (x : Goldilocks) (l : List Goldilocks) (i : Nat) :
    values (x :: l) (i + 1) = values l i := rfl

/-! ## Indices and loops -/

theorem index_eq_ok {l : List Goldilocks} {i : Nat} (h : i < l.length) :
    index l i = .ok (l.getD i Goldilocks.zero) := by
  rw [index, List.getD_eq_getElem?_getD, List.getElem?_eq_getElem h, Option.getD_some]

theorem debugAssert_pos {P : Platform} {p : Prop} [Decidable p] (h : p) :
    debugAssert P p = .ok () := by
  rw [debugAssert, if_neg]
  exact fun hp => hp.2 h

/-- A loop that adds up products. -/
theorem toField_foldl_add (x y : Nat → Goldilocks) (start : Goldilocks) : ∀ n,
    ((List.range n).foldl (fun sum i => sum.add ((x i).mul (y i))) start).toField
      = start.toField + ∑ i ∈ Finset.range n, (x i).toField * (y i).toField
  | 0 => by simp
  | n + 1 => by
      rw [List.range_succ, List.foldl_append, List.foldl_cons, List.foldl_nil,
        Goldilocks.toField_add, toField_foldl_add x y start n, Goldilocks.toField_mul,
        Finset.sum_range_succ, add_assoc]

/-- A loop that adds up indexed entries against weights. -/
theorem weightedLoop_eq_ok (position : Nat → Nat) {table weights : List Goldilocks} {n : Nat}
    (htable : ∀ i < n, position i < table.length) (hweights : weights.length = n) :
    ∃ v, (List.range n).foldlM
        (fun sum i => do
          let x ← index table (position i)
          let weight ← index weights i
          pure (sum.add (x.mul weight)))
        Goldilocks.zero = .ok v ∧
      v.toField = ∑ i ∈ Finset.range n, values table (position i) * values weights i := by
  refine ⟨(List.range n).foldl (fun sum i => sum.add ((table.getD (position i) Goldilocks.zero).mul
    (weights.getD i Goldilocks.zero))) Goldilocks.zero, ?_, ?_⟩
  · apply Outcome.foldlM_eq_ok
    intro i hmem sum
    have hi : i < n := List.mem_range.mp hmem
    rw [index_eq_ok (htable i hi), index_eq_ok (by rw [hweights]; exact hi)]
    rfl
  · rw [toField_foldl_add, Goldilocks.toField_zero, zero_add]
    rfl

/-! ## Folding -/

theorem length_foldPairs (challenge : Goldilocks) (table : List Goldilocks) :
    (foldPairs challenge table).length = table.length / 2 := by
  fun_induction foldPairs challenge table with
  | case1 => rfl
  | case2 last => simp
  | case3 low high rest ih =>
      rw [List.length_cons, ih, List.length_cons, List.length_cons]
      omega

theorem values_foldPairs (challenge : Goldilocks) {table : List Goldilocks}
    (heven : table.length % 2 = 0) :
    values (foldPairs challenge table) = fix (values table) challenge.toField := by
  fun_induction foldPairs challenge table with
  | case1 =>
      funext i
      simp [fix, values]
  | case2 last => simp at heven
  | case3 low high rest ih =>
      rw [List.length_cons, List.length_cons] at heven
      have ih := ih (by omega)
      funext i
      cases i with
      | zero => simp [fix]
      | succ i =>
          have hlow : 2 * (i + 1) = 2 * i + 1 + 1 := by omega
          rw [values_cons_succ, ih, fix, fix, hlow, values_cons_succ, values_cons_succ,
            values_cons_succ, values_cons_succ]

/-- Every coordinate of a point fixed, the first one first. -/
def foldAll (table : List Goldilocks) (point : List Goldilocks) : List Goldilocks :=
  point.foldl (fun table challenge => foldPairs challenge table) table

theorem foldAll_append (table point : List Goldilocks) (challenge : Goldilocks) :
    foldAll table (point ++ [challenge]) = foldPairs challenge (foldAll table point) := by
  rw [foldAll, List.foldl_append, List.foldl_cons, List.foldl_nil, foldAll]

theorem length_foldAll {n : Nat} : ∀ {point table : List Goldilocks},
    table.length = 2 ^ (n + point.length) → (foldAll table point).length = 2 ^ n
  | [], table, h => h
  | challenge :: point, table, h => by
      show (foldAll (foldPairs challenge table) point).length = 2 ^ n
      apply length_foldAll
      rw [length_foldPairs, h, List.length_cons, ← Nat.add_assoc, Nat.pow_succ]
      omega

/-- What is left after every coordinate is the extension's value. -/
theorem values_foldAll : ∀ {point table : List Goldilocks}, table.length = 2 ^ point.length →
    values (foldAll table point) 0 = extension (values table) (residues point)
  | [], table, _ => (extension_nil (values table)).symm
  | challenge :: point, table, h => by
      rw [List.length_cons, Nat.pow_succ] at h
      have hrest : (foldPairs challenge table).length = 2 ^ point.length := by
        rw [length_foldPairs, h]
        omega
      have ih : values (foldAll (foldPairs challenge table) point) 0
          = extension (values (foldPairs challenge table)) (residues point) :=
        values_foldAll hrest
      rw [foldAll, List.foldl_cons, ← foldAll, ih, values_foldPairs challenge (by omega),
        ← extension_cons, residues, residues, List.map_cons]

theorem fold_eq_ok {P : Platform} {table : List Goldilocks} {challenge : Goldilocks}
    (heven : table.length % 2 = 0) :
    fold P table challenge = .ok (foldPairs challenge table) := by
  rw [fold, debugAssert_pos heven]
  rfl

theorem foldlM_fold_eq_ok {P : Platform} : ∀ {point table : List Goldilocks},
    table.length = 2 ^ point.length → point.foldlM (fold P) table = .ok (foldAll table point)
  | [], _, _ => rfl
  | challenge :: point, table, h => by
      rw [List.length_cons, Nat.pow_succ] at h
      have hrest : (foldPairs challenge table).length = 2 ^ point.length := by
        rw [length_foldPairs, h]
        omega
      rw [List.foldlM_cons, fold_eq_ok (by omega)]
      exact foldlM_fold_eq_ok hrest

/-- `evaluate_mle` is the extension's value. -/
theorem evaluateMle_eq_ok {P : Platform} {evaluations point : List Goldilocks}
    (h : evaluations.length = 2 ^ point.length) :
    ∃ v, evaluateMle P evaluations point = .ok v ∧
      v.toField = extension (values evaluations) (residues point) := by
  have hlength : (foldAll evaluations point).length = 2 ^ 0 :=
    length_foldAll (by rw [h, Nat.zero_add])
  refine ⟨(foldAll evaluations point).getD 0 Goldilocks.zero, ?_, values_foldAll h⟩
  rw [evaluateMle, debugAssert_pos h, foldlM_fold_eq_ok h]
  exact index_eq_ok (by rw [hlength]; exact Nat.one_pos)

theorem evaluateMle_eq_ok_of_toField {P : Platform} {evaluations point : List Goldilocks}
    {v : Goldilocks} (h : evaluations.length = 2 ^ point.length)
    (hv : extension (values evaluations) (residues point) = v.toField) :
    evaluateMle P evaluations point = .ok v := by
  obtain ⟨v', hv', hfield⟩ := evaluateMle_eq_ok (P := P) h
  rw [hv', Goldilocks.toField_injective (hfield.trans hv)]

/-! ## Weights -/

theorem equalityWeights_append (point : List Goldilocks) (challenge : Goldilocks) :
    equalityWeights (point ++ [challenge])
      = (equalityWeights point).map (fun value => value.mul (Goldilocks.one.sub challenge)) ++
          (equalityWeights point).map fun value => value.mul challenge := by
  rw [equalityWeights, List.foldl_append, List.foldl_cons, List.foldl_nil, equalityWeights]

theorem length_equalityWeights (point : List Goldilocks) :
    (equalityWeights point).length = 2 ^ point.length := by
  induction point using List.reverseRecOn with
  | nil => rfl
  | append_singleton point challenge ih =>
      rw [equalityWeights_append, List.length_append, List.length_map, List.length_map, ih,
        List.length_append, List.length_singleton, Nat.pow_succ]
      omega

theorem values_map_mul (l : List Goldilocks) (factor : Goldilocks) (i : Nat) :
    values (l.map fun value => value.mul factor) i = values l i * factor.toField := by
  rw [values, values, List.getD_eq_getElem?_getD, List.getD_eq_getElem?_getD, List.getElem?_map]
  cases l[i]? with
  | none => simp
  | some value => simp

theorem values_append_left {l l' : List Goldilocks} {i : Nat} (h : i < l.length) :
    values (l ++ l') i = values l i := by
  rw [values, values, List.getD_eq_getElem?_getD, List.getD_eq_getElem?_getD,
    List.getElem?_append_left h]

theorem values_append_right {l l' : List Goldilocks} {i : Nat} (h : l.length ≤ i) :
    values (l ++ l') i = values l' (i - l.length) := by
  rw [values, values, List.getD_eq_getElem?_getD, List.getD_eq_getElem?_getD,
    List.getElem?_append_right h]

/-- The list of weights has the index order of the folds: lowest bit first. -/
theorem values_equalityWeights (point : List Goldilocks) {i : Nat} (hi : i < 2 ^ point.length) :
    values (equalityWeights point) i = basis (residues point) i := by
  induction point using List.reverseRecOn generalizing i with
  | nil =>
      have hzero : i = 0 := by simpa using hi
      subst hzero
      simp [equalityWeights, basis, residues]
  | append_singleton point challenge ih =>
      have hlength : ((equalityWeights point).map
          fun value => value.mul (Goldilocks.one.sub challenge)).length = 2 ^ point.length := by
        rw [List.length_map, length_equalityWeights]
      rw [List.length_append, List.length_singleton, Nat.pow_succ] at hi
      rw [equalityWeights_append, residues, List.map_append, ← residues, basis_append,
        length_residues]
      by_cases hlow : i < 2 ^ point.length
      · rw [values_append_left (by rw [hlength]; exact hlow), values_map_mul, ih hlow,
          Nat.mod_eq_of_lt hlow, Nat.div_eq_of_lt hlow, List.map_cons, List.map_nil,
          basis_singleton_zero, Goldilocks.toField_sub, Goldilocks.toField_one]
      · obtain ⟨j, rfl⟩ := Nat.exists_eq_add_of_le (Nat.le_of_not_lt hlow)
        have hj : j < 2 ^ point.length := by omega
        have hdiv : (2 ^ point.length + j) / 2 ^ point.length = 1 := by
          rw [Nat.add_div_left _ (Nat.two_pow_pos _), Nat.div_eq_of_lt hj]
        rw [values_append_right (by rw [hlength]; exact Nat.le_of_not_lt hlow), hlength,
          Nat.add_sub_cancel_left, values_map_mul, ih hj, Nat.add_mod_left, Nat.mod_eq_of_lt hj,
          hdiv, List.map_cons, List.map_nil, basis_singleton_one]

/-! ## One round -/

/-- The sum of the products of two tables. -/
def productSum (a b : List Goldilocks) : ZMod goldilocksModulus :=
  ∑ i ∈ Finset.range a.length, values a i * values b i

theorem exists_pair_of_length {l : List Goldilocks} {n : Nat} (h : l.length = 2 * (n + 1)) :
    ∃ low high rest, l = low :: high :: rest ∧ rest.length = 2 * n := by
  obtain ⟨low, l, rfl⟩ := List.exists_cons_of_length_pos (by omega : 0 < l.length)
  rw [List.length_cons] at h
  obtain ⟨high, rest, rfl⟩ := List.exists_cons_of_length_pos (by omega : 0 < l.length)
  rw [List.length_cons] at h
  exact ⟨low, high, rest, rfl, by omega⟩

theorem quadraticLoop_spec {n : Nat} : ∀ {a b : List Goldilocks} (start : RoundMessage),
    a.length = 2 * n → b.length = 2 * n →
    (quadraticLoop start a b).atZero.toField
        = start.atZero.toField + atZero (values a) (values b) n ∧
      (quadraticLoop start a b).atOne.toField
        = start.atOne.toField + atOne (values a) (values b) n ∧
      (quadraticLoop start a b).atTwo.toField
        = start.atTwo.toField + atTwo (values a) (values b) n := by
  induction n with
  | zero =>
      intro a b start ha hb
      rw [List.length_eq_zero_iff.mp ha, List.length_eq_zero_iff.mp hb]
      simp [quadraticLoop, atZero, atOne, atTwo]
  | succ n ih =>
      intro a b start ha hb
      obtain ⟨aLow, aHigh, a, rfl, ha'⟩ := exists_pair_of_length ha
      obtain ⟨bLow, bHigh, b, rfl, hb'⟩ := exists_pair_of_length hb
      rw [quadraticLoop]
      have hstep := @ih a b
        { atZero := start.atZero.add (aLow.mul bLow)
          atOne := start.atOne.add (aHigh.mul bHigh)
          atTwo := start.atTwo.add ((aHigh.double.sub aLow).mul (bHigh.double.sub bLow)) }
        ha' hb'
      obtain ⟨hzero, hone, htwo⟩ := hstep
      have hnext : ∀ i, 2 * (i + 1) = 2 * i + 1 + 1 := fun i => by omega
      refine ⟨?_, ?_, ?_⟩
      · rw [hzero, atZero, atZero, Finset.sum_range_succ']
        simp only [hnext, values_cons_succ, Nat.mul_zero, values_cons_zero,
          Goldilocks.toField_add, Goldilocks.toField_mul]
        ring
      · rw [hone, atOne, atOne, Finset.sum_range_succ']
        simp only [hnext, values_cons_succ, Nat.mul_zero, Nat.zero_add, values_cons_zero,
          Goldilocks.toField_add, Goldilocks.toField_mul]
        ring
      · rw [htwo, atTwo, atTwo, Finset.sum_range_succ']
        simp only [hnext, values_cons_succ, Nat.mul_zero, Nat.zero_add, values_cons_zero,
          Goldilocks.toField_add, Goldilocks.toField_mul, Goldilocks.toField_sub,
          Goldilocks.toField_double]
        ring

theorem toField_evaluateQuadratic (message : RoundMessage) (challenge : Goldilocks) :
    (evaluateQuadratic message challenge).toField
      = interpolate Goldilocks.invTwo.toField message.atZero.toField message.atOne.toField
          message.atTwo.toField challenge.toField := by
  simp [evaluateQuadratic, interpolate]

/-- One honest round: the message passes the check against the sum of the products,
and evaluates to the sum of the products of the folded tables. -/
theorem quadraticRound_eq_ok {P : Platform} {a b : List Goldilocks} {n : Nat}
    (ha : a.length = 2 * n) (hb : b.length = 2 * n) :
    ∃ message, quadraticRound P a b = .ok message ∧
      message.atZero.toField + message.atOne.toField = productSum a b ∧
      ∀ challenge, (evaluateQuadratic message challenge).toField
        = productSum (foldPairs challenge a) (foldPairs challenge b) := by
  have hspec := quadraticLoop_spec ⟨Goldilocks.zero, Goldilocks.zero, Goldilocks.zero⟩ ha hb
  simp only [Goldilocks.toField_zero, zero_add] at hspec
  obtain ⟨hzero, hone, htwo⟩ := hspec
  refine ⟨quadraticLoop ⟨Goldilocks.zero, Goldilocks.zero, Goldilocks.zero⟩ a b, ?_, ?_, ?_⟩
  · rw [quadraticRound, debugAssert_pos (ha.trans hb.symm),
      debugAssert_pos (by rw [ha]; exact Nat.mul_mod_right 2 n)]
    rfl
  · rw [hzero, hone, ends_sum, productSum, ha]
  · intro challenge
    have hhalf : 2 * n / 2 = n := by omega
    rw [toField_evaluateQuadratic, hzero, hone, htwo,
      interpolate_ends Goldilocks.toField_invTwo, productSum, length_foldPairs, ha, hhalf,
      values_foldPairs _ (by rw [ha]; exact Nat.mul_mod_right 2 n),
      values_foldPairs _ (by rw [hb]; exact Nat.mul_mod_right 2 n)]

end CommonFoundry.Consensus
