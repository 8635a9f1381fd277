/-
# `CommonFoundry.Consensus.SumcheckCompleteness` — when the proof of a product verifies

The reference product is computed in `i128` with a plain `+=`, and each sum is then
narrowed to `i64`.  A sum that leaves `i128` wraps in a build without overflow
checks, and may come back into the range of `i64`: `ArithmeticOverflow` is then not
reported, and the product is a wrong one.

So with `c` the reference product of `a` and `b`, the verifier accepts the prover's
proof under every transcript hash exactly if no exact entry of the product leaves
`i128` (`sumcheck_completeness`).

Completeness is `prove_then_verify` with both sides expanded into sums over the
entries (`extension_product`, `productAt_eq`).  For the other direction the
transcript is programmed: a hash whose challenges are the bits of a row and a column
(`TranscriptHash.ofSequence`) compares that one entry.  A wrapped entry differs from
the exact one by a multiple of `2 ^ 128` that is too small to vanish in the field.
-/
import CommonFoundry.Consensus.SumcheckRun
import CommonFoundry.Consensus.ChainRun
import Mathlib.Algebra.Order.BigOperators.Ring.Finset
import Mathlib.RingTheory.Coprime.Lemmas

namespace CommonFoundry.Consensus

open Lib Lib.Multilinear

/-! ## The reference product -/

/-- An entry of the product, as an integer. -/
def exactEntry (a b : List Int64) (inner cols row col : Nat) : Int :=
  ∑ common ∈ Finset.range inner,
    (a.getD (row * inner + common) 0).toInt * (b.getD (common * cols + col) 0).toInt

theorem getD_of_index {l : List Int64} {i : Nat} {x : Int64} (h : index l i = .ok x) :
    l.getD i 0 = x := by
  rw [index] at h
  rw [List.getD_eq_getElem?_getD]
  cases hx : l[i]? with
  | none =>
      rw [hx] at h
      cases h
  | some y =>
      rw [hx] at h
      cases h
      rfl

theorem bmod_of_fits {n : Int} (h : FitsI128 n) : n.bmod (2 ^ 128) = n := by
  obtain ⟨hlow, hhigh⟩ := h
  apply Int.bmod_eq_of_le
  · norm_num
    omega
  · norm_num
    omega

theorem plainAdd128_eq_ok {P : Platform} {x y z : Int} (h : plainAdd128 P x y = .ok z) :
    z = (x + y).bmod (2 ^ 128) := by
  rw [plainAdd128] at h
  split at h
  case isTrue hfits =>
      cases h
      exact (bmod_of_fits hfits).symm
  case isFalse hfits =>
      split at h
      · cases h
      · cases h
        rfl

/-- The accumulator is the exact sum, reduced to an `i128`. -/
theorem referenceLoop_eq_ok {P : Platform} {a b : List Int64} {inner cols row col : Nat} :
    ∀ {n : Nat} {accumulator : Int},
    (List.range n).foldlM
      (fun accumulator common => do
        let x ← index a (row * inner + common)
        let y ← index b (common * cols + col)
        plainAdd128 P accumulator (x.toInt * y.toInt)) 0 = .ok accumulator →
    accumulator = (∑ common ∈ Finset.range n, (a.getD (row * inner + common) 0).toInt *
      (b.getD (common * cols + col) 0).toInt).bmod (2 ^ 128)
  | 0, accumulator, h => by
      cases h
      rfl
  | n + 1, accumulator, h => by
      rw [List.range_succ] at h
      obtain ⟨before, hbefore, hstep⟩ := Outcome.foldlM_append_eq_ok.mp h
      obtain ⟨after, hturn, hafter⟩ := Outcome.foldlM_cons_eq_ok.mp hstep
      obtain ⟨x, hx, hturn⟩ := Outcome.bind_eq_ok.mp hturn
      obtain ⟨y, hy, hturn⟩ := Outcome.bind_eq_ok.mp hturn
      cases hafter
      rw [plainAdd128_eq_ok hturn, referenceLoop_eq_ok hbefore, Finset.sum_range_succ,
        getD_of_index hx, getD_of_index hy, Int.bmod_add_bmod]

theorem tryI64_eq_ok {n : Int} {x : Int64} (h : tryI64 n = .ok x) : x.toInt = n := by
  rw [tryI64] at h
  split at h
  case isTrue hn =>
      cases h
      exact Int64.toInt_ofInt_of_le hn.1 hn.2
  case isFalse => exact absurd h Outcome.fail_ne_ok

/-- An entry of a table that is kept as a list of rows. -/
theorem getElem?_flatten_rows {α : Type} {n : Nat} : ∀ {l : List (List α)} {i j : Nat},
    (∀ row ∈ l, row.length = n) → j < n → l.flatten[i * n + j]? = l[i]?.bind fun row => row[j]?
  | [], i, j, _, _ => by simp
  | row :: l, 0, j, h, hj => by
      have hrow : row.length = n := h row List.mem_cons_self
      rw [List.flatten_cons, Nat.zero_mul, Nat.zero_add,
        List.getElem?_append_left (by rw [hrow]; exact hj)]
      rfl
  | row :: l, i + 1, j, h, hj => by
      have hrow : row.length = n := h row List.mem_cons_self
      have hindex : (i + 1) * n + j = n + (i * n + j) := by
        rw [Nat.succ_mul]
        omega
      rw [List.flatten_cons, hindex, List.getElem?_append_right (by omega), hrow,
        Nat.add_sub_cancel_left,
        getElem?_flatten_rows (fun row hmem => h row (List.mem_cons_of_mem _ hmem)) hj,
        List.getElem?_cons_succ]

theorem length_flatten_rows {α : Type} {n : Nat} : ∀ {l : List (List α)},
    (∀ row ∈ l, row.length = n) → l.flatten.length = l.length * n
  | [], _ => by simp
  | row :: l, h => by
      have hrow : row.length = n := h row List.mem_cons_self
      rw [List.flatten_cons, List.length_append, hrow,
        length_flatten_rows fun row hmem => h row (List.mem_cons_of_mem _ hmem), List.length_cons,
        Nat.succ_mul, Nat.add_comm]

/-- What `reference_matrix_product` returns: every entry, reduced to an `i128`. -/
theorem referenceMatrixProduct_spec {P : Platform} {a b c : List Int64} {rows inner cols : Nat}
    (h : referenceMatrixProduct P a b rows inner cols = .ok c) :
    validateShape a b none rows inner cols = .ok () ∧ c.length = rows * cols ∧
      ∀ row < rows, ∀ col < cols, (c.getD (row * cols + col) 0).toInt
        = (exactEntry a b inner cols row col).bmod (2 ^ 128) := by
  obtain ⟨_, hshape, h⟩ := Outcome.bind_eq_ok.mp h
  obtain ⟨product, hproduct, h⟩ := Outcome.bind_eq_ok.mp h
  cases h
  obtain ⟨hlength, hrows⟩ := Outcome.mapM_range_eq_ok.mp hproduct
  have hcols : ∀ row ∈ product, row.length = cols := by
    intro row hmem
    obtain ⟨i, hi⟩ := List.mem_iff_getElem?.mp hmem
    exact (Outcome.mapM_range_eq_ok.mp (hrows i row hi)).1
  refine ⟨hshape, by rw [length_flatten_rows hcols, hlength], ?_⟩
  intro row hrow col hcol
  have hentries := List.getElem?_eq_getElem (by rw [hlength]; exact hrow : row < product.length)
  obtain ⟨hlengthRow, hentry⟩ := Outcome.mapM_range_eq_ok.mp (hrows row _ hentries)
  have hx := List.getElem?_eq_getElem (by rw [hlengthRow]; exact hcol : col < product[row].length)
  obtain ⟨accumulator, haccumulator, hnarrow⟩ := Outcome.bind_eq_ok.mp (hentry col _ hx)
  rw [List.getD_eq_getElem?_getD, getElem?_flatten_rows hcols hcol, hentries, Option.bind_some,
    hx, Option.getD_some, tryI64_eq_ok hnarrow, exactEntry]
  exact referenceLoop_eq_ok haccumulator

/-! ## Both sides as sums over the entries -/

/-- The opening of `c`, entry by entry. -/
theorem extension_product (c : List Int64) {rowPoint colPoint : List Goldilocks}
    {rows cols : Nat} (hrow : 2 ^ rowPoint.length = rows) (hcol : 2 ^ colPoint.length = cols) :
    extension (values (fieldValues c)) (residues (colPoint ++ rowPoint))
      = ∑ row ∈ Finset.range rows, basis (residues rowPoint) row *
          ∑ col ∈ Finset.range cols, basis (residues colPoint) col *
            ((c.getD (row * cols + col) 0).toInt : ZMod goldilocksModulus) := by
  rw [residues, List.map_append, extension_append, ← residues, ← residues, length_residues,
    length_residues, hrow, hcol]
  simp only [values_fieldValues, Nat.mul_comm cols]

/-- The sum that the rounds are about, entry by entry. -/
theorem productAt_eq (a b : List Int64) (rowPoint colPoint : List Goldilocks)
    (rows inner cols : Nat) :
    productAt a b rowPoint colPoint rows inner cols
      = ∑ row ∈ Finset.range rows, basis (residues rowPoint) row *
          ∑ col ∈ Finset.range cols, basis (residues colPoint) col *
            (exactEntry a b inner cols row col : ZMod goldilocksModulus) := by
  simp only [productAt, values_fieldValues, exactEntry, Int.cast_sum, Int.cast_mul]
  exact sum_mul_weighted
    (fun row common => ((a.getD (row * inner + common) 0).toInt : ZMod goldilocksModulus))
    (fun common col => ((b.getD (common * cols + col) 0).toInt : ZMod goldilocksModulus)) _ _ _ _ _

/-! ## A programmed transcript -/

/-- The counter in what a candidate was hashed from: the eight bytes before the
attempt. -/
def counterOf (bytes : List UInt8) : Nat := ofLe ((bytes.drop (bytes.length - 16)).take 8)

theorem counterOf_challengeInput {transcript : Transcript} (name : List UInt8) (attempt : Nat)
    (h : transcript.challengeCounter < 2 ^ 64) :
    counterOf (transcript.challengeInput name ++ toLe 8 attempt) = transcript.challengeCounter := by
  have hdrop : ∀ l : List UInt8, ((l ++ toLe 8 transcript.challengeCounter) ++ toLe 8 attempt).drop
      (((l ++ toLe 8 transcript.challengeCounter) ++ toLe 8 attempt).length - 16)
      = toLe 8 transcript.challengeCounter ++ toLe 8 attempt := by
    intro l
    have hlength : ((l ++ toLe 8 transcript.challengeCounter) ++ toLe 8 attempt).length - 16
        = l.length := by
      simp only [List.length_append, length_toLe]
      omega
    rw [hlength, List.append_assoc, List.drop_left]
  have htake : (toLe 8 transcript.challengeCounter ++ toLe 8 attempt).take 8
      = toLe 8 transcript.challengeCounter := List.take_left' (length_toLe 8 _)
  rw [counterOf, Transcript.challengeInput, hdrop, htake, ofLe_toLe]
  exact Nat.mod_eq_of_lt h

/-- The digest with a number in its first eight bytes. -/
def wordDigest (x : Goldilocks) : Bytes32 :=
  ⟨x.encode ++ List.replicate 24 0, by
    rw [List.length_append, Goldilocks.encode, length_leBytes64, List.length_replicate]⟩

theorem ofLe_wordDigest (x : Goldilocks) : ofLe ((wordDigest x).1.take 8) = x.value.toNat := by
  have hlength : x.encode.length = 8 := length_leBytes64 x.value
  have hdigest : (wordDigest x).1 = x.encode ++ List.replicate 24 0 := rfl
  rw [hdigest, List.take_left' hlength]
  exact ofLe_leBytes64 x.value

/-- The transcript hash whose challenges are a given sequence. -/
def TranscriptHash.ofSequence (f : Nat → Goldilocks) : TranscriptHash where
  digest bytes := wordDigest (f (counterOf bytes))
  canonical hasher := ⟨0, by decide, by rw [candidate, ofLe_wordDigest]; exact Goldilocks.lt_modulus _⟩

theorem challenge_ofSequence {f : Nat → Goldilocks} {transcript : Transcript}
    (name : List UInt8) (h : transcript.challengeCounter < 2 ^ 64) :
    (transcript.challenge (.ofSequence f) name).1 = f transcript.challengeCounter := by
  apply Goldilocks.toField_injective
  rw [Transcript.challenge, Transcript.drawn, Goldilocks.toField_ofLt, candidate,
    TranscriptHash.ofSequence, ofLe_wordDigest, counterOf_challengeInput name _ h,
    Goldilocks.toField]

/-- A drawn vector is the next part of the sequence. -/
theorem challengeVector_ofSequence (f : Nat → Goldilocks) (transcript : Transcript)
    (name : List UInt8) : ∀ count : Nat, transcript.challengeCounter + count ≤ 2 ^ 64 →
    (challengeVector (.ofSequence f) transcript name count).1
        = (List.range count).map (fun k => f (transcript.challengeCounter + k)) ∧
      (challengeVector (.ofSequence f) transcript name count).2.challengeCounter
        = transcript.challengeCounter + count
  | 0, _ => ⟨rfl, rfl⟩
  | count + 1, h => by
      obtain ⟨hvalues, hcounter⟩ :=
        challengeVector_ofSequence f transcript name count (by omega)
      rw [challengeVector] at hvalues hcounter
      rw [challengeVector, List.range_succ, List.foldl_append, List.foldl_cons, List.foldl_nil,
        List.map_append, List.map_cons, List.map_nil]
      dsimp only
      constructor
      · rw [hvalues, challenge_ofSequence _
          (by rw [Transcript.challengeCounter_absorb, hcounter]; omega),
          Transcript.challengeCounter_absorb, hcounter]
      · rw [Transcript.challengeCounter_challenge, Transcript.challengeCounter_absorb, hcounter,
          Nat.add_assoc]

/-- A coordinate of a corner. -/
def bitElement : Bool → Goldilocks
  | true => Goldilocks.one
  | false => Goldilocks.zero

theorem toField_bitElement (b : Bool) :
    (bitElement b).toField = if b = true then 1 else 0 := by
  cases b with
  | true => exact Goldilocks.toField_one
  | false => exact Goldilocks.toField_zero

/-- The challenges that select an entry: the bits of its row, then those of its column. -/
def entryBits (rows row col : Nat) (k : Nat) : Goldilocks :=
  bitElement (if k < rows.log2 then row.testBit k else col.testBit (k - rows.log2))

/-- Under the programmed transcript the statement is opened at an entry's corners. -/
theorem opened_entryBits (P : Platform) (binding : List UInt8) (a b c : List Int64)
    (rows inner cols row col : Nat) (hcount : rows.log2 + cols.log2 ≤ 2 ^ 64) :
    residues (opened P (.ofSequence (entryBits rows row col)) binding a b c rows inner cols).rowPoint
        = corner rows.log2 row ∧
      residues (opened P (.ofSequence (entryBits rows row col)) binding a b c rows inner cols).colPoint
        = corner cols.log2 col := by
  obtain ⟨start, hstart⟩ : ∃ start, absorbStatement binding
      (Commitments.ofMatrices P (fieldValues a) (fieldValues b) (fieldValues c) rows inner cols)
      rows inner cols = start := ⟨_, rfl⟩
  have hzero : start.challengeCounter = 0 := by rw [← hstart, challengeCounter_absorbStatement]
  obtain ⟨hrowVector, hcounter⟩ := challengeVector_ofSequence (entryBits rows row col) start
    (label "row-point") rows.log2 (by omega)
  obtain ⟨hcolVector, _⟩ := challengeVector_ofSequence (entryBits rows row col)
    (challengeVector (.ofSequence (entryBits rows row col)) start (label "row-point") rows.log2).2
    (label "col-point") cols.log2 (by omega)
  rw [opened, openStatement, hstart]
  dsimp only
  constructor
  · rw [hrowVector, hzero, residues, List.map_map, corner]
    apply List.map_congr_left
    intro k hmem
    have hk : k < rows.log2 := List.mem_range.mp hmem
    rw [Function.comp_apply, entryBits, Nat.zero_add, if_pos hk, toField_bitElement]
  · rw [hcolVector, hcounter, hzero, residues, List.map_map, corner]
    apply List.map_congr_left
    intro k _
    rw [Function.comp_apply, entryBits, Nat.zero_add, if_neg (by omega), Nat.add_sub_cancel_left,
      toField_bitElement]

/-! ## What one entry decides -/

/-- Every entry of an admitted product is less than `2 ^ 139`. -/
theorem exactEntry_bound (a b : List Int64) {inner : Nat} (cols row col : Nat)
    (hinner : inner ≤ maxToyMatrixElements) :
    -2 ^ 138 ≤ exactEntry a b inner cols row col ∧ exactEntry a b inner cols row col ≤ 2 ^ 138 := by
  have hterm : ∀ x y : Int64, |x.toInt * y.toInt| ≤ 2 ^ 126 := by
    intro x y
    have hx : |x.toInt| ≤ 2 ^ 63 :=
      abs_le.mpr ⟨x.le_toInt, Int.le_of_lt x.toInt_lt⟩
    have hy : |y.toInt| ≤ 2 ^ 63 :=
      abs_le.mpr ⟨y.le_toInt, Int.le_of_lt y.toInt_lt⟩
    calc |x.toInt * y.toInt| = |x.toInt| * |y.toInt| := abs_mul _ _
      _ ≤ 2 ^ 63 * 2 ^ 63 := mul_le_mul hx hy (abs_nonneg _) (by norm_num)
      _ = 2 ^ 126 := by norm_num
  apply abs_le.mp
  calc |exactEntry a b inner cols row col|
      ≤ ∑ common ∈ Finset.range inner,
          |(a.getD (row * inner + common) 0).toInt * (b.getD (common * cols + col) 0).toInt| :=
        Finset.abs_sum_le_sum_abs _ _
    _ ≤ ∑ _common ∈ Finset.range inner, 2 ^ 126 :=
        Finset.sum_le_sum fun common _ => hterm _ _
    _ = inner * 2 ^ 126 := by rw [Finset.sum_const, Finset.card_range, nsmul_eq_mul]
    _ ≤ maxToyMatrixElements * 2 ^ 126 :=
        mul_le_mul_of_nonneg_right (Int.ofNat_le.mpr hinner) (by norm_num)
    _ = 2 ^ 138 := by rw [maxToyMatrixElements]; norm_num

/-- A sum of that size and its `i128` remainder are the same residue only if the sum is
an `i128`. -/
theorem fits_of_residue_eq {n : Int} (hlow : -2 ^ 138 ≤ n) (hhigh : n ≤ 2 ^ 138)
    (h : ((n.bmod (2 ^ 128) : Int) : ZMod goldilocksModulus) = (n : ZMod goldilocksModulus)) :
    FitsI128 n := by
  have hsplit : n.bmod (2 ^ 128) + (2 ^ 128 : Nat) * n.bdiv (2 ^ 128) = n := Int.bmod_add_bdiv n _
  have hlow' := Int.le_bmod (x := n) (m := 2 ^ 128) (by norm_num)
  have hhigh' := Int.bmod_lt (x := n) (m := 2 ^ 128) (by norm_num)
  norm_num at hlow' hhigh' hsplit
  have hdvd : (goldilocksModulus : Int) ∣ n - n.bmod (2 ^ 128) :=
    (ZMod.intCast_eq_intCast_iff_dvd_sub _ _ _).mp h
  have hmul : n - n.bmod (2 ^ 128) = 2 ^ 128 * n.bdiv (2 ^ 128) := by
    norm_num
    omega
  have hcoprime : IsCoprime (goldilocksModulus : Int) (2 ^ 128) := by
    apply IsCoprime.pow_right
    rw [Int.isCoprime_iff_gcd_eq_one]
    rfl
  rw [hmul] at hdvd
  obtain ⟨quotient, hquotient⟩ := hcoprime.dvd_of_dvd_mul_left hdvd
  rw [goldilocksModulus] at hquotient
  norm_num at hquotient
  have hzero : n.bdiv 340282366920938463463374607431768211456 = 0 := by omega
  rw [hzero] at hsplit
  constructor <;> norm_num <;> omega

/-! ## Completeness, and where it ends -/

/-- Under every transcript hash, the prover succeeds and the verifier accepts. -/
def AcceptsOwnProof (P : Platform) (binding : List UInt8) (a b c : List Int64)
    (rows inner cols : Nat) : Prop :=
  ∀ H : TranscriptHash, ∃ proof,
    proveToyMatrixProduct P H binding a b c rows inner cols = .ok proof ∧
      verifyToyMatrixProduct P H binding a b c rows inner cols proof = .ok ()

/-- Where every entry is exact, the proof is accepted. -/
theorem acceptsOwnProof_of_entries {P : Platform} (binding : List UInt8) {a b c : List Int64}
    {rows inner cols : Nat} (hshape : validateShape a b (some c) rows inner cols = .ok ())
    (hentries : ∀ row < rows, ∀ col < cols,
      (c.getD (row * cols + col) 0).toInt = exactEntry a b inner cols row col) :
    AcceptsOwnProof P binding a b c rows inner cols := by
  intro H
  obtain ⟨proof, hproof, hiff⟩ := prove_then_verify P H binding hshape rfl rfl
  refine ⟨proof, hproof, hiff.mpr ?_⟩
  have hadmitted := admitted_of_validateShape hshape
  rw [productAt_eq, extension_product c
    (by rw [opened, openStatement, length_challengeVector, hadmitted.rows_pow])
    (by rw [opened, openStatement, length_challengeVector, hadmitted.cols_pow])]
  apply Finset.sum_congr rfl
  intro row hrow
  congr 1
  apply Finset.sum_congr rfl
  intro col hcol
  rw [hentries row (Finset.mem_range.mp hrow) col (Finset.mem_range.mp hcol)]

/-- Where the proof is accepted under the hash programmed for an entry, the entry is
right in the field. -/
theorem entry_of_acceptsOwnProof {P : Platform} (binding : List UInt8) {a b c : List Int64}
    {rows inner cols : Nat} (hshape : validateShape a b (some c) rows inner cols = .ok ())
    (h : AcceptsOwnProof P binding a b c rows inner cols) {row col : Nat} (hrow : row < rows)
    (hcol : col < cols) :
    ((c.getD (row * cols + col) 0).toInt : ZMod goldilocksModulus)
      = (exactEntry a b inner cols row col : ZMod goldilocksModulus) := by
  have hadmitted := admitted_of_validateShape hshape
  obtain ⟨proof, hproof, haccept⟩ := h (.ofSequence (entryBits rows row col))
  obtain ⟨proof', hproof', hiff⟩ :=
    prove_then_verify P (.ofSequence (entryBits rows row col)) binding hshape rfl rfl
  cases hproof.symm.trans hproof'
  have heq := hiff.mp haccept
  have hcount : rows.log2 + cols.log2 ≤ 2 ^ 64 := by
    have hrows := Nat.le_trans (Nat.log2_le_self rows) hadmitted.rows_le
    have hcols := Nat.le_trans (Nat.log2_le_self cols) hadmitted.cols_le
    rw [maxToyMatrixElements] at hrows hcols
    omega
  obtain ⟨hrowPoint, hcolPoint⟩ := opened_entryBits P binding a b c rows inner cols row col hcount
  rw [productAt_eq, extension_product c
    (by rw [opened, openStatement, length_challengeVector, hadmitted.rows_pow])
    (by rw [opened, openStatement, length_challengeVector, hadmitted.cols_pow]),
    hrowPoint, hcolPoint] at heq
  have hsum : ∀ t : Nat → Nat → ZMod goldilocksModulus,
      ∑ i ∈ Finset.range rows, basis (corner rows.log2 row) i *
        ∑ j ∈ Finset.range cols, basis (corner cols.log2 col) j * t i j = t row col := by
    intro t
    have hrows : Finset.range rows = Finset.range (2 ^ rows.log2) := by rw [hadmitted.rows_pow]
    have hcols : Finset.range cols = Finset.range (2 ^ cols.log2) := by rw [hadmitted.cols_pow]
    rw [hrows, sum_basis_corner _ (by rw [hadmitted.rows_pow]; exact hrow), hcols,
      sum_basis_corner _ (by rw [hadmitted.cols_pow]; exact hcol)]
  rw [hsum, hsum] at heq
  exact heq

/-- With `c` the reference product, the prover's proof is accepted under every
transcript hash exactly if no exact entry of the product leaves `i128`. -/
theorem sumcheck_completeness (P : Platform) (binding : List UInt8) {a b c : List Int64}
    {rows inner cols : Nat} (hc : referenceMatrixProduct P a b rows inner cols = .ok c) :
    (∀ H : TranscriptHash, ∃ proof,
      proveToyMatrixProduct P H binding a b c rows inner cols = .ok proof ∧
        verifyToyMatrixProduct P H binding a b c rows inner cols proof = .ok ()) ↔
      ∀ row < rows, ∀ col < cols, FitsI128 (exactEntry a b inner cols row col) := by
  obtain ⟨hshapeNone, hlength, hentries⟩ := referenceMatrixProduct_spec hc
  have hshape := validateShape_some hshapeNone hlength
  constructor
  · intro haccept row hrow col hcol
    have hentry := entry_of_acceptsOwnProof binding hshape haccept hrow hcol
    rw [hentries row hrow col hcol] at hentry
    obtain ⟨hlow, hhigh⟩ :=
      exactEntry_bound a b cols row col (admitted_of_validateShape hshape).inner_le
    exact fits_of_residue_eq hlow hhigh hentry
  · intro hfits
    apply acceptsOwnProof_of_entries binding hshape
    intro row hrow col hcol
    rw [hentries row hrow col hcol, bmod_of_fits (hfits row hrow col hcol)]

/-- Four products of the smallest `i64` with itself: `2 ^ 128`, which wraps to `0`. -/
def wrappingRow : List Int64 := List.replicate 4 Int64.minValue

theorem reference_wrappingRow :
    referenceMatrixProduct samplePlatform wrappingRow wrappingRow 1 4 1 = .ok [0] := by
  decide

/-- The product `2 * 3` of two matrices of one entry. -/
theorem sumcheck_completeness_sample :
    (∀ H : TranscriptHash, ∃ proof,
      proveToyMatrixProduct samplePlatform H [7] [2] [3] [6] 1 1 1 = .ok proof ∧
        verifyToyMatrixProduct samplePlatform H [7] [2] [3] [6] 1 1 1 proof = .ok ()) ↔
      ∀ row < 1, ∀ col < 1, FitsI128 (exactEntry [2] [3] 1 1 row col) :=
  sumcheck_completeness samplePlatform [7] (by decide)

/-- A wrapped product is not proved: not every reference product verifies. -/
theorem wrapped_product_is_rejected :
    ¬∀ (P : Platform) (H : TranscriptHash) (binding : List UInt8) (a b c : List Int64)
      (rows inner cols : Nat), referenceMatrixProduct P a b rows inner cols = .ok c →
      ∃ proof, proveToyMatrixProduct P H binding a b c rows inner cols = .ok proof ∧
        verifyToyMatrixProduct P H binding a b c rows inner cols proof = .ok () := by
  intro h
  obtain ⟨hshapeNone, hlength, _⟩ := referenceMatrixProduct_spec reference_wrappingRow
  have hshape := validateShape_some hshapeNone hlength
  have hentry := entry_of_acceptsOwnProof [] hshape
    (fun H => h samplePlatform H [] _ _ _ _ _ _ reference_wrappingRow) Nat.one_pos Nat.one_pos
  have hexact : exactEntry wrappingRow wrappingRow 4 1 0 0 = 2 ^ 128 := by decide
  rw [hexact] at hentry
  have hdvd : (goldilocksModulus : Int) ∣ 2 ^ 128 - 0 :=
    (ZMod.intCast_eq_intCast_iff_dvd_sub _ _ _).mp hentry
  revert hdvd
  decide

end CommonFoundry.Consensus
