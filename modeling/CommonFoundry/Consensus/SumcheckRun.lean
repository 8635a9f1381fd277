/-
# `CommonFoundry.Consensus.SumcheckRun` — the verifier on the prover's proof

On an admitted statement the prover never fails, and the verifier accepts its proof
exactly if the evaluation of `c` is the sum that the rounds are about
(`prove_then_verify`).

The argument goes round by round (`rounds_agree`).  After each round

* both transcripts are the same, so both draw the same challenge;
* the prover's tables are the first ones folded at the challenges so far;
* the claim is the sum of the products of the prover's tables.

A claim other than the first sum fails in the first round, or, where there is no
round, at the terminal product: a message has one sum (`claim_unique`).
-/
import CommonFoundry.Consensus.SumcheckTables

namespace CommonFoundry.Consensus

open Lib Lib.Multilinear

/-! ## Admitted statements -/

/-- What `validate_shape` admits. -/
structure Admitted (a b c : List Int64) (rows inner cols : Nat) : Prop where
  rows_pow : 2 ^ rows.log2 = rows
  inner_pow : 2 ^ inner.log2 = inner
  cols_pow : 2 ^ cols.log2 = cols
  a_length : a.length = rows * inner
  b_length : b.length = inner * cols
  c_length : c.length = rows * cols
  rows_le : rows ≤ maxToyMatrixElements
  inner_le : inner ≤ maxToyMatrixElements
  cols_le : cols ≤ maxToyMatrixElements

theorem checkedMul_eq_some {x y z : Nat} :
    checkedMul x y = some z ↔ x * y < 2 ^ 64 ∧ z = x * y := by
  unfold checkedMul
  split
  case isTrue h => exact ⟨fun hz => ⟨h, by cases hz; rfl⟩, fun hz => by rw [hz.2]⟩
  case isFalse h => exact ⟨fun hz => (by cases hz), fun hz => absurd hz.1 h⟩

theorem validateShape_eq_ok {a b : List Int64} {c : Option (List Int64)} {rows inner cols : Nat} :
    validateShape a b c rows inner cols = .ok () ↔
      (rows ≠ 0 ∧ inner ≠ 0 ∧ cols ≠ 0 ∧
        isPowerOfTwo rows = true ∧ isPowerOfTwo inner = true ∧ isPowerOfTwo cols = true) ∧
      (rows * inner < 2 ^ 64 ∧ inner * cols < 2 ^ 64 ∧ rows * cols < 2 ^ 64) ∧
      (a.length = rows * inner ∧ b.length = inner * cols ∧
        ∀ values ∈ c, values.length = rows * cols) ∧
      rows * inner ≤ maxToyMatrixElements ∧ inner * cols ≤ maxToyMatrixElements ∧
        rows * cols ≤ maxToyMatrixElements := by
  rw [validateShape]
  simp only [Outcome.bind_eq_ok, Outcome.require_eq_ok, Outcome.okOr_eq_ok, checkedMul_eq_some,
    exists_const]
  constructor
  · rintro ⟨hpow, la, ⟨ha, rfl⟩, lb, ⟨hb, rfl⟩, lc, ⟨hc, rfl⟩, hlength, hmax⟩
    exact ⟨hpow, ⟨ha, hb, hc⟩, hlength, hmax⟩
  · rintro ⟨hpow, ⟨ha, hb, hc⟩, hlength, hmax⟩
    exact ⟨hpow, _, ⟨ha, rfl⟩, _, ⟨hb, rfl⟩, _, ⟨hc, rfl⟩, hlength, hmax⟩

/-- Where the shape is admitted without a third matrix, it is with any of its size. -/
theorem validateShape_some {a b c : List Int64} {rows inner cols : Nat}
    (h : validateShape a b none rows inner cols = .ok ()) (hc : c.length = rows * cols) :
    validateShape a b (some c) rows inner cols = .ok () := by
  obtain ⟨hpow, hmul, ⟨ha, hb, _⟩, hmax⟩ := validateShape_eq_ok.mp h
  refine validateShape_eq_ok.mpr ⟨hpow, hmul, ⟨ha, hb, ?_⟩, hmax⟩
  intro values hmem
  cases hmem
  exact hc

theorem admitted_of_validateShape {a b c : List Int64} {rows inner cols : Nat}
    (h : validateShape a b (some c) rows inner cols = .ok ()) :
    Admitted a b c rows inner cols := by
  obtain ⟨⟨hrows, hinner, _, hrowsPow, hinnerPow, hcolsPow⟩, _, ⟨ha, hb, hc⟩, haMax, hbMax, _⟩ :=
    validateShape_eq_ok.mp h
  exact {
    rows_pow := by simpa [isPowerOfTwo] using hrowsPow
    inner_pow := by simpa [isPowerOfTwo] using hinnerPow
    cols_pow := by simpa [isPowerOfTwo] using hcolsPow
    a_length := ha
    b_length := hb
    c_length := hc c rfl
    rows_le := Nat.le_trans (Nat.le_mul_of_pos_right rows (Nat.pos_of_ne_zero hinner)) haMax
    inner_le := Nat.le_trans (Nat.le_mul_of_pos_left inner (Nat.pos_of_ne_zero hrows)) haMax
    cols_le := Nat.le_trans (Nat.le_mul_of_pos_left cols (Nat.pos_of_ne_zero hinner)) hbMax }

@[simp] theorem length_fieldValues (l : List Int64) : (fieldValues l).length = l.length :=
  List.length_map _

theorem values_fieldValues (l : List Int64) (i : Nat) :
    values (fieldValues l) i = ((l.getD i 0).toInt : ZMod goldilocksModulus) := by
  rw [values, fieldValues, List.getD_eq_getElem?_getD, List.getD_eq_getElem?_getD,
    List.getElem?_map]
  cases l[i]? with
  | none => simp
  | some x => simp [Goldilocks.toField_fromSigned]

/-! ## Points -/

theorem length_challengeVector (H : TranscriptHash) (transcript : Transcript) (name : List UInt8)
    (count : Nat) : (challengeVector H transcript name count).1.length = count := by
  rw [challengeVector]
  induction count with
  | zero => rfl
  | succ count ih =>
      rw [List.range_succ, List.foldl_append, List.foldl_cons, List.foldl_nil,
        List.length_append, ih, List.length_singleton]

/-! ## The partial tables -/

theorem position_lt {rows inner row common : Nat} (hrow : row < rows) (hcommon : common < inner) :
    row * inner + common < rows * inner := by
  calc row * inner + common < row * inner + inner := Nat.add_lt_add_left hcommon _
    _ = (row + 1) * inner := (Nat.succ_mul row inner).symm
    _ ≤ rows * inner := Nat.mul_le_mul_right inner hrow

/-- One turn of the loop over `common`. -/
theorem partialValues_eq_ok {a b rowWeights colWeights : List Goldilocks}
    {rows inner cols common : Nat} (ha : a.length = rows * inner) (hb : b.length = inner * cols)
    (hrow : rowWeights.length = rows) (hcol : colWeights.length = cols) (hcommon : common < inner) :
    ∃ p, partialValues a b rowWeights colWeights rows inner cols common = .ok p ∧
      p.1.toField = ∑ row ∈ Finset.range rows,
        values a (row * inner + common) * values rowWeights row ∧
      p.2.toField = ∑ col ∈ Finset.range cols,
        values b (common * cols + col) * values colWeights col := by
  obtain ⟨x, hx, hxField⟩ := weightedLoop_eq_ok (fun row => row * inner + common)
    (fun row hlt => by rw [ha]; exact position_lt hlt hcommon) hrow
  obtain ⟨y, hy, hyField⟩ := weightedLoop_eq_ok (fun col => common * cols + col)
    (fun col hlt => by rw [hb]; exact position_lt hcommon hlt) hcol
  refine ⟨(x, y), ?_, hxField, hyField⟩
  exact Outcome.bind_eq_ok.mpr ⟨x, hx, Outcome.bind_eq_ok.mpr ⟨y, hy, rfl⟩⟩

/-- The tables that the prover starts the rounds with: column `common` of `a` against
the row weights, and row `common` of `b` against the column weights. -/
structure PartialTables (a b rowPoint colPoint : List Goldilocks) (rows inner cols : Nat)
    (aPartial bPartial : List Goldilocks) : Prop where
  a_length : aPartial.length = inner
  b_length : bPartial.length = inner
  a_values : ∀ common < inner, values aPartial common
    = ∑ row ∈ Finset.range rows, values a (row * inner + common) * basis (residues rowPoint) row
  b_values : ∀ common < inner, values bPartial common
    = ∑ col ∈ Finset.range cols, values b (common * cols + col) * basis (residues colPoint) col

theorem values_map_of_getElem {β : Type} {l : List β} {f : β → Goldilocks} {i : Nat} {x : β}
    (h : l[i]? = some x) : values (l.map f) i = (f x).toField := by
  rw [values, List.getD_eq_getElem?_getD, List.getElem?_map, h, Option.map_some, Option.getD_some]

theorem exists_partials {a b rowPoint colPoint : List Goldilocks} {rows inner cols : Nat}
    (ha : a.length = rows * inner) (hb : b.length = inner * cols)
    (hrow : 2 ^ rowPoint.length = rows) (hcol : 2 ^ colPoint.length = cols) :
    ∃ partials, (List.range inner).mapM
        (partialValues a b (equalityWeights rowPoint) (equalityWeights colPoint) rows inner cols)
          = .ok partials ∧
      PartialTables a b rowPoint colPoint rows inner cols
        (partials.map Prod.fst) (partials.map Prod.snd) := by
  obtain ⟨partials, hpartials, hlength, hentry⟩ := Outcome.exists_mapM_range fun common hcommon =>
    partialValues_eq_ok ha hb ((length_equalityWeights rowPoint).trans hrow)
      ((length_equalityWeights colPoint).trans hcol) hcommon
  have hget : ∀ common < inner, ∃ p, partials[common]? = some p := by
    intro common hcommon
    exact ⟨_, List.getElem?_eq_getElem (by rw [hlength]; exact hcommon)⟩
  refine ⟨partials, hpartials, by rw [List.length_map, hlength], by rw [List.length_map, hlength],
    ?_, ?_⟩
  · intro common hcommon
    obtain ⟨p, hp⟩ := hget common hcommon
    rw [values_map_of_getElem hp, (hentry common p hp).1]
    apply Finset.sum_congr rfl
    intro row hmem
    rw [values_equalityWeights rowPoint (by rw [hrow]; exact Finset.mem_range.mp hmem)]
  · intro common hcommon
    obtain ⟨p, hp⟩ := hget common hcommon
    rw [values_map_of_getElem hp, (hentry common p hp).2]
    apply Finset.sum_congr rfl
    intro col hmem
    rw [values_equalityWeights colPoint (by rw [hcol]; exact Finset.mem_range.mp hmem)]

/-- The columns of `a` against the row weights. -/
def foldedRows (a rowPoint : List Goldilocks) (rows inner common : Nat) : ZMod goldilocksModulus :=
  ∑ row ∈ Finset.range rows, values a (row * inner + common) * basis (residues rowPoint) row

/-- The rows of `b` against the column weights. -/
def foldedCols (b colPoint : List Goldilocks) (cols common : Nat) : ZMod goldilocksModulus :=
  ∑ col ∈ Finset.range cols, values b (common * cols + col) * basis (residues colPoint) col

/-- The opening of `a` that the verifier computes is one of the folded rows. -/
theorem extension_foldedRows (a : List Goldilocks) {rowPoint point : List Goldilocks}
    {rows inner : Nat} (hrow : 2 ^ rowPoint.length = rows) (hpoint : 2 ^ point.length = inner) :
    extension (values a) (residues (point ++ rowPoint))
      = extension (foldedRows a rowPoint rows inner) (residues point) := by
  rw [residues, List.map_append, extension_append', extension]
  apply Finset.sum_congr rfl
  intro common _
  rw [← residues, ← residues, length_residues, length_residues, hpoint, hrow, foldedRows]
  congr 1
  apply Finset.sum_congr rfl
  intro row _
  rw [mul_comm inner row, mul_comm]

/-- The opening of `b` that the verifier computes is one of the folded columns. -/
theorem extension_foldedCols (b : List Goldilocks) {colPoint : List Goldilocks}
    (point : List Goldilocks) {cols : Nat} (hcol : 2 ^ colPoint.length = cols) :
    extension (values b) (residues (colPoint ++ point))
      = extension (foldedCols b colPoint cols) (residues point) := by
  rw [residues, List.map_append, extension_append, extension]
  apply Finset.sum_congr rfl
  intro common _
  rw [← residues, ← residues, length_residues, hcol, foldedCols]
  congr 1
  apply Finset.sum_congr rfl
  intro col _
  rw [mul_comm cols common, mul_comm]

/-- The prover's last value of `a` is the opening that the verifier computes. -/
theorem PartialTables.a_opening {a b rowPoint colPoint aPartial bPartial point : List Goldilocks}
    {rows inner cols : Nat}
    (h : PartialTables a b rowPoint colPoint rows inner cols aPartial bPartial)
    (hrow : 2 ^ rowPoint.length = rows) (hpoint : 2 ^ point.length = inner) :
    extension (values a) (residues (point ++ rowPoint))
      = extension (values aPartial) (residues point) := by
  rw [extension_foldedRows a hrow hpoint]
  apply extension_congr
  intro common hcommon
  rw [length_residues, hpoint] at hcommon
  exact (h.a_values common hcommon).symm

/-- The prover's last value of `b` is the opening that the verifier computes. -/
theorem PartialTables.b_opening {a b rowPoint colPoint aPartial bPartial point : List Goldilocks}
    {rows inner cols : Nat}
    (h : PartialTables a b rowPoint colPoint rows inner cols aPartial bPartial)
    (hcol : 2 ^ colPoint.length = cols) (hpoint : 2 ^ point.length = inner) :
    extension (values b) (residues (colPoint ++ point))
      = extension (values bPartial) (residues point) := by
  rw [extension_foldedCols b point hcol]
  apply extension_congr
  intro common hcommon
  rw [length_residues, hpoint] at hcommon
  exact (h.b_values common hcommon).symm

/-! ## The rounds -/

/-- What holds between the prover and the verifier after `k` rounds. -/
structure RoundsAgree (a b : List Goldilocks) (k : Nat) (prover : ProverState)
    (verifier : VerifierState) : Prop where
  rounds : prover.rounds.length = k
  point : verifier.commonPoint.length = k
  transcript : verifier.transcript = prover.transcript
  aPartial : prover.aPartial = foldAll a verifier.commonPoint
  bPartial : prover.bPartial = foldAll b verifier.commonPoint
  claim : verifier.claim.toField = productSum prover.aPartial prover.bPartial

theorem verifierRound_eq_ok {H : TranscriptHash} {state : VerifierState} {message : RoundMessage}
    {i : Nat} (h : message.atZero.toField + message.atOne.toField = state.claim.toField) :
    verifierRound H state ((message.atZero.value, message.atOne.value, message.atTwo.value), i)
      = .ok {
          transcript := (roundChallenge H state.transcript i message).2
          claim := evaluateQuadratic message (roundChallenge H state.transcript i message).1
          commonPoint :=
            state.commonPoint ++ [(roundChallenge H state.transcript i message).1] } := by
  have hclaim : message.atZero.add message.atOne = state.claim := by
    apply Goldilocks.toField_injective
    rw [Goldilocks.toField_add, h]
  rw [verifierRound]
  simp only [Goldilocks.canonical_value, Outcome.ok_bind, Outcome.require_pos hclaim]
  rfl

/-- One round keeps the agreement. -/
theorem RoundsAgree.step {P : Platform} {H : TranscriptHash} {a b : List Goldilocks} {k n : Nat}
    {prover : ProverState} {verifier : VerifierState} (h : RoundsAgree a b k prover verifier)
    (ha : a.length = 2 ^ (n + 1 + k)) (hb : b.length = 2 ^ (n + 1 + k)) :
    ∃ prover' verifier' round, proverRound P H prover k = .ok prover' ∧
      prover'.rounds = prover.rounds ++ [round] ∧
      verifierRound H verifier (round, k) = .ok verifier' ∧
      RoundsAgree a b (k + 1) prover' verifier' := by
  have haLength : prover.aPartial.length = 2 * 2 ^ n := by
    rw [h.aPartial, length_foldAll (by rw [ha, h.point]), Nat.pow_succ']
  have hbLength : prover.bPartial.length = 2 * 2 ^ n := by
    rw [h.bPartial, length_foldAll (by rw [hb, h.point]), Nat.pow_succ']
  obtain ⟨message, hmessage, hsum, hnext⟩ := quadraticRound_eq_ok (P := P) haLength hbLength
  have hverifier := verifierRound_eq_ok (H := H) (i := k) (hsum.trans h.claim.symm)
  refine ⟨{
    transcript := (roundChallenge H prover.transcript k message).2
    aPartial := foldPairs (roundChallenge H prover.transcript k message).1 prover.aPartial
    bPartial := foldPairs (roundChallenge H prover.transcript k message).1 prover.bPartial
    rounds := prover.rounds ++
      [(message.atZero.value, message.atOne.value, message.atTwo.value)] }, _, _, ?_, rfl,
    hverifier, ?_⟩
  · rw [proverRound]
    refine Outcome.bind_eq_ok.mpr ⟨message, hmessage, ?_⟩
    refine Outcome.bind_eq_ok.mpr ⟨_, fold_eq_ok (by rw [haLength]; exact Nat.mul_mod_right 2 _), ?_⟩
    exact Outcome.bind_eq_ok.mpr
      ⟨_, fold_eq_ok (by rw [hbLength]; exact Nat.mul_mod_right 2 _), rfl⟩
  · rw [h.transcript]
    exact {
      rounds := by rw [List.length_append, h.rounds, List.length_singleton]
      point := by rw [List.length_append, h.point, List.length_singleton]
      transcript := rfl
      aPartial := by rw [foldAll_append, h.aPartial]
      bPartial := by rw [foldAll_append, h.bPartial]
      claim := hnext _ }

/-- The prover's rounds, and the verifier's over their messages. -/
theorem rounds_agree (P : Platform) (H : TranscriptHash) {a b : List Goldilocks} {n : Nat}
    (ha : a.length = 2 ^ n) (hb : b.length = 2 ^ n) (transcript : Transcript) {claim : Goldilocks}
    (hclaim : claim.toField = productSum a b) : ∀ k ≤ n,
    ∃ prover verifier,
      (List.range k).foldlM (proverRound P H)
        { transcript := transcript, aPartial := a, bPartial := b, rounds := [] } = .ok prover ∧
      prover.rounds.zipIdx.foldlM (verifierRound H)
        { transcript := transcript, claim := claim, commonPoint := [] } = .ok verifier ∧
      RoundsAgree a b k prover verifier
  | 0, _ => ⟨_, _, rfl, rfl, {
      rounds := rfl, point := rfl, transcript := rfl, aPartial := rfl, bPartial := rfl
      claim := hclaim }⟩
  | k + 1, hk => by
      obtain ⟨prover, verifier, hprover, hverifier, h⟩ :=
        rounds_agree P H ha hb transcript hclaim k (by omega)
      have hn : n = n - (k + 1) + 1 + k := by omega
      obtain ⟨prover', verifier', round, hprover', hrounds, hverifier', h'⟩ :=
        h.step (P := P) (H := H) (n := n - (k + 1)) (by rw [ha, ← hn]) (by rw [hb, ← hn])
      refine ⟨prover', verifier', ?_, ?_, h'⟩
      · rw [List.range_succ]
        exact Outcome.foldlM_append_eq_ok.mpr
          ⟨prover, hprover, Outcome.foldlM_cons_eq_ok.mpr ⟨prover', hprover', rfl⟩⟩
      · rw [hrounds, List.zipIdx_append, Nat.zero_add, h.rounds]
        exact Outcome.foldlM_append_eq_ok.mpr
          ⟨verifier, hverifier, Outcome.foldlM_cons_eq_ok.mpr ⟨verifier', hverifier', rfl⟩⟩

/-- A round's message has one sum, so it passes for one claim alone. -/
theorem verifierRound_claim {H : TranscriptHash} {s s' t t' : VerifierState}
    {encoded : (UInt64 × UInt64 × UInt64) × Nat} (h : verifierRound H s encoded = .ok t)
    (h' : verifierRound H s' encoded = .ok t') : s.claim = s'.claim := by
  simp only [verifierRound, Outcome.bind_eq_ok, Outcome.require_eq_ok, exists_const] at h h'
  obtain ⟨x, hx, y, hy, _, _, hclaim, _⟩ := h
  obtain ⟨x', hx', y', hy', _, _, hclaim', _⟩ := h'
  have hxx : x = x' := Except.ok.inj (hx.symm.trans hx')
  have hyy : y = y' := Except.ok.inj (hy.symm.trans hy')
  rw [← hclaim, ← hclaim', hxx, hyy]

/-- Rounds and a terminal product that pass from two claims pass from one. -/
theorem claim_unique {H : TranscriptHash} {rounds : List (UInt64 × UInt64 × UInt64)}
    {s s' t t' : VerifierState} (h : rounds.zipIdx.foldlM (verifierRound H) s = .ok t)
    (h' : rounds.zipIdx.foldlM (verifierRound H) s' = .ok t') (hclaim : t.claim = t'.claim) :
    s.claim = s'.claim := by
  cases rounds with
  | nil =>
      cases h
      cases h'
      exact hclaim
  | cons round rounds =>
      rw [List.zipIdx_cons] at h h'
      obtain ⟨_, hfirst, _⟩ := Outcome.foldlM_cons_eq_ok.mp h
      obtain ⟨_, hfirst', _⟩ := Outcome.foldlM_cons_eq_ok.mp h'
      exact verifierRound_claim hfirst hfirst'

/-! ## The whole proof -/

/-- The statement as both sides open it. -/
def opened (P : Platform) (H : TranscriptHash) (binding : List UInt8) (a b c : List Int64)
    (rows inner cols : Nat) : Opened :=
  openStatement H binding
    (Commitments.ofMatrices P (fieldValues a) (fieldValues b) (fieldValues c) rows inner cols)
    rows inner cols

/-- The sum that the rounds are about: the product of `a` and `b` at the two points. -/
def productAt (a b : List Int64) (rowPoint colPoint : List Goldilocks) (rows inner cols : Nat) :
    ZMod goldilocksModulus :=
  ∑ common ∈ Finset.range inner,
    (∑ row ∈ Finset.range rows,
      values (fieldValues a) (row * inner + common) * basis (residues rowPoint) row) *
    ∑ col ∈ Finset.range cols,
      values (fieldValues b) (common * cols + col) * basis (residues colPoint) col

theorem PartialTables.productSum_eq {a b : List Int64}
    {rowPoint colPoint aPartial bPartial : List Goldilocks} {rows inner cols : Nat}
    (h : PartialTables (fieldValues a) (fieldValues b) rowPoint colPoint rows inner cols
      aPartial bPartial) :
    productSum aPartial bPartial = productAt a b rowPoint colPoint rows inner cols := by
  rw [productSum, productAt, h.a_length]
  apply Finset.sum_congr rfl
  intro common hmem
  rw [h.a_values common (Finset.mem_range.mp hmem), h.b_values common (Finset.mem_range.mp hmem)]

/-- An element for every residue. -/
theorem exists_toField (x : ZMod goldilocksModulus) : ∃ y : Goldilocks, y.toField = x := by
  have : NeZero goldilocksModulus := ⟨by decide⟩
  exact ⟨Goldilocks.reduce x.val, by rw [Goldilocks.toField_reduce, ZMod.natCast_zmod_val]⟩

/-- After the last round the tables have one entry each. -/
theorem RoundsAgree.finals {a b : List Goldilocks} {n : Nat} {prover : ProverState}
    {verifier : VerifierState} (h : RoundsAgree a b n prover verifier) (ha : a.length = 2 ^ n)
    (hb : b.length = 2 ^ n) :
    ∃ aFinal bFinal, index prover.aPartial 0 = .ok aFinal ∧ index prover.bPartial 0 = .ok bFinal ∧
      aFinal.toField = extension (values a) (residues verifier.commonPoint) ∧
      bFinal.toField = extension (values b) (residues verifier.commonPoint) ∧
      verifier.claim = aFinal.mul bFinal := by
  have haLength : prover.aPartial.length = 1 := by
    rw [h.aPartial, length_foldAll (n := 0) (by rw [ha, h.point, Nat.zero_add])]
    rfl
  have hbLength : prover.bPartial.length = 1 := by
    rw [h.bPartial, length_foldAll (n := 0) (by rw [hb, h.point, Nat.zero_add])]
    rfl
  refine ⟨_, _, index_eq_ok (by rw [haLength]; exact Nat.one_pos),
    index_eq_ok (by rw [hbLength]; exact Nat.one_pos), ?_, ?_, ?_⟩
  · rw [← values_foldAll (by rw [ha, h.point]), ← h.aPartial]
    rfl
  · rw [← values_foldAll (by rw [hb, h.point]), ← h.bPartial]
    rfl
  · apply Goldilocks.toField_injective
    rw [h.claim, productSum, haLength, Finset.sum_range_one, Goldilocks.toField_mul]
    rfl

/-- The prover succeeds on an admitted statement, and its proof is accepted exactly if
`c` has the value of the product at the drawn points. -/
theorem prove_then_verify (P : Platform) (H : TranscriptHash) (binding : List UInt8)
    {a b c : List Int64} {rows inner cols : Nat} {rowPoint colPoint : List Goldilocks}
    (hshape : validateShape a b (some c) rows inner cols = .ok ())
    (hrowPoint : (opened P H binding a b c rows inner cols).rowPoint = rowPoint)
    (hcolPoint : (opened P H binding a b c rows inner cols).colPoint = colPoint) :
    ∃ proof, proveToyMatrixProduct P H binding a b c rows inner cols = .ok proof ∧
      (verifyToyMatrixProduct P H binding a b c rows inner cols proof = .ok () ↔
        extension (values (fieldValues c)) (residues (colPoint ++ rowPoint))
          = productAt a b rowPoint colPoint rows inner cols) := by
  have hadmitted := admitted_of_validateShape hshape
  have hrow : 2 ^ rowPoint.length = rows := by
    rw [← hrowPoint, opened, openStatement, length_challengeVector, hadmitted.rows_pow]
  have hcol : 2 ^ colPoint.length = cols := by
    rw [← hcolPoint, opened, openStatement, length_challengeVector, hadmitted.cols_pow]
  have hc : (fieldValues c).length = 2 ^ (colPoint ++ rowPoint).length := by
    rw [length_fieldValues, hadmitted.c_length, List.length_append, Nat.pow_add, hrow, hcol,
      Nat.mul_comm]
  obtain ⟨cEvaluation, hcEvaluation, hcField⟩ := evaluateMle_eq_ok (P := P) hc
  obtain ⟨partials, hpartials, htables⟩ := exists_partials
    (by rw [length_fieldValues, hadmitted.a_length] : (fieldValues a).length = rows * inner)
    (by rw [length_fieldValues, hadmitted.b_length] : (fieldValues b).length = inner * cols)
    hrow hcol
  have haPartial := htables.a_length.trans hadmitted.inner_pow.symm
  have hbPartial := htables.b_length.trans hadmitted.inner_pow.symm
  obtain ⟨claim, hclaim⟩ := exists_toField
    (productSum (partials.map Prod.fst) (partials.map Prod.snd))
  obtain ⟨prover, verifier, hprover, hverifier, hagree⟩ := rounds_agree P H haPartial hbPartial
    ((opened P H binding a b c rows inner cols).transcript.absorb (label "C-evaluation")
      cEvaluation.encode) hclaim inner.log2 (Nat.le_refl _)
  obtain ⟨aFinal, bFinal, haFinal, hbFinal, haField, hbField, hterminal⟩ :=
    hagree.finals haPartial hbPartial
  have hpoint : 2 ^ verifier.commonPoint.length = inner := by
    rw [hagree.point, hadmitted.inner_pow]
  have haOpening : evaluateMle P (fieldValues a) (verifier.commonPoint ++ rowPoint)
      = .ok aFinal := by
    apply evaluateMle_eq_ok_of_toField
    · rw [length_fieldValues, hadmitted.a_length, List.length_append, Nat.pow_add, hpoint, hrow,
        Nat.mul_comm]
    · rw [htables.a_opening hrow hpoint, haField]
  have hbOpening : evaluateMle P (fieldValues b) (colPoint ++ verifier.commonPoint)
      = .ok bFinal := by
    apply evaluateMle_eq_ok_of_toField
    · rw [length_fieldValues, hadmitted.b_length, List.length_append, Nat.pow_add, hpoint, hcol,
        Nat.mul_comm]
    · rw [htables.b_opening hcol hpoint, hbField]
  rw [← hcField, ← htables.productSum_eq, ← hclaim]
  subst hrowPoint hcolPoint
  refine ⟨{
    protocolVersion := sumcheckProtocolVersion
    aCommitment := matrixCommitment P (label "A") rows inner (fieldValues a)
    bCommitment := matrixCommitment P (label "B") inner cols (fieldValues b)
    cCommitment := matrixCommitment P (label "C") rows cols (fieldValues c)
    cEvaluation := cEvaluation.value
    rounds := prover.rounds
    aFinal := aFinal.value
    bFinal := bFinal.value }, ?_, ?_, ?_⟩
  · rw [proveToyMatrixProduct, hshape, Outcome.ok_bind]
    exact Outcome.bind_eq_ok.mpr ⟨cEvaluation, hcEvaluation, Outcome.bind_eq_ok.mpr
      ⟨partials, hpartials, Outcome.bind_eq_ok.mpr ⟨prover, hprover, Outcome.bind_eq_ok.mpr
        ⟨aFinal, haFinal, Outcome.bind_eq_ok.mpr ⟨bFinal, hbFinal, rfl⟩⟩⟩⟩⟩
  · intro haccept
    simp only [verifyToyMatrixProduct, Goldilocks.canonical_value, Outcome.ok_bind,
      Outcome.bind_eq_ok, Outcome.require_eq_ok, exists_const] at haccept
    obtain ⟨_, _, _, _, _, _, _, _, last, hlast, hlastClaim, _⟩ := haccept
    have hfirst := claim_unique hlast hverifier (hlastClaim.trans hterminal.symm)
    rw [show cEvaluation = claim from hfirst]
  · intro heq
    have hsame : cEvaluation = claim := Goldilocks.toField_injective heq
    subst hsame
    rw [verifyToyMatrixProduct, hshape, Outcome.ok_bind]
    refine Outcome.bind_eq_ok.mpr ⟨(), Outcome.require_pos rfl, ?_⟩
    refine Outcome.bind_eq_ok.mpr ⟨(), Outcome.require_pos hagree.rounds, ?_⟩
    refine Outcome.bind_eq_ok.mpr ⟨(), Outcome.require_pos ⟨rfl, rfl, rfl⟩, ?_⟩
    refine Outcome.bind_eq_ok.mpr ⟨cEvaluation, hcEvaluation, ?_⟩
    refine Outcome.bind_eq_ok.mpr ⟨cEvaluation, Goldilocks.canonical_value _, ?_⟩
    refine Outcome.bind_eq_ok.mpr ⟨(), Outcome.require_pos rfl, ?_⟩
    refine Outcome.bind_eq_ok.mpr ⟨verifier, hverifier, ?_⟩
    refine Outcome.bind_eq_ok.mpr ⟨aFinal, Goldilocks.canonical_value _, ?_⟩
    refine Outcome.bind_eq_ok.mpr ⟨bFinal, Goldilocks.canonical_value _, ?_⟩
    refine Outcome.bind_eq_ok.mpr ⟨(), Outcome.require_pos hterminal, ?_⟩
    refine Outcome.bind_eq_ok.mpr ⟨aFinal, haOpening, ?_⟩
    refine Outcome.bind_eq_ok.mpr ⟨bFinal, hbOpening, ?_⟩
    exact Outcome.require_pos ⟨rfl, rfl⟩

end CommonFoundry.Consensus
