/-
# `CommonFoundry.Consensus.SumcheckSoundness` — what an accepted wrong claim needs

The verifier accepts a proof for a claim about `c`.  Say the claim is wrong: the
extension of `c` at the drawn point is not the sum of the products of the folded
operands.  Then some round was lucky (`sumcheck_soundness`): the polynomial that the
proof sent there is not the honest one, and the challenge is one of the at most two
points at which the two agree (`LuckyRound`).

The honest polynomial of a round is that of the operands, folded at the challenges
before it.  The invariant along the rounds is that the running claim is wrong:

* a round's message adds up to the claim, the honest values to the true sum, so with
  a wrong claim the polynomials differ (`sent_ne_honest`);
* the next claim is the sent polynomial at the challenge, the next true sum the honest
  one, so the next claim is wrong unless the round was lucky (`wrong_or_lucky`).

After the last round the verifier evaluates both operands itself, so there the claim is
right.
-/
import CommonFoundry.Consensus.SumcheckCompleteness
import CommonFoundry.Lib.RoundPolynomial

namespace CommonFoundry.Consensus

open Lib Lib.Multilinear Polynomial

/-! ## The polynomials of a round -/

/-- The polynomial through the three values of a message. -/
noncomputable def sentPolynomial (message : RoundMessage) : (ZMod goldilocksModulus)[X] :=
  throughValues Goldilocks.invTwo.toField message.atZero.toField message.atOne.toField
    message.atTwo.toField

/-- The honest polynomial after the challenges so far, with `2 ^ rest` pairs left. -/
noncomputable def honestPolynomial (f g : Nat → ZMod goldilocksModulus) (point : List Goldilocks)
    (rest : Nat) : (ZMod goldilocksModulus)[X] :=
  roundPolynomial (fixAll f (residues point)) (fixAll g (residues point)) (2 ^ rest)

/-- The true sum after the challenges so far, with `2 ^ left` entries left. -/
def trueSum (f g : Nat → ZMod goldilocksModulus) (point : List Goldilocks) (left : Nat) :
    ZMod goldilocksModulus :=
  ∑ i ∈ Finset.range (2 ^ left), fixAll f (residues point) i * fixAll g (residues point) i

theorem two_ne_zero_field : (2 : ZMod goldilocksModulus) ≠ 0 := by
  intro h
  have hone := Goldilocks.toField_invTwo
  rw [h, mul_zero] at hone
  exact zero_ne_one hone

/-- `evaluate_quadratic` is the value of the one polynomial of degree two that has the
three sent values. -/
theorem eval_of_nodes {message : RoundMessage} {p : (ZMod goldilocksModulus)[X]}
    (hp : p.natDegree ≤ 2) (h₀ : p.eval 0 = message.atZero.toField)
    (h₁ : p.eval 1 = message.atOne.toField) (h₂ : p.eval 2 = message.atTwo.toField)
    (challenge : Goldilocks) :
    (evaluateQuadratic message challenge).toField = p.eval challenge.toField := by
  obtain ⟨hzero, hone, htwo⟩ := eval_throughValues_nodes Goldilocks.toField_invTwo
    message.atZero.toField message.atOne.toField message.atTwo.toField
  have hsame : p = sentPolynomial message := by
    apply eq_of_eval_eq hp (natDegree_throughValues_le _ _ _ _) two_ne_zero_field
    · rw [h₀, hzero]
    · rw [h₁, hone]
    · rw [h₂, htwo]
  rw [hsame, sentPolynomial, eval_throughValues, toField_evaluateQuadratic]

theorem eval_sentPolynomial (message : RoundMessage) (challenge : Goldilocks) :
    (sentPolynomial message).eval challenge.toField
      = (evaluateQuadratic message challenge).toField := by
  rw [sentPolynomial, eval_throughValues, toField_evaluateQuadratic]

theorem trueSum_succ (f g : Nat → ZMod goldilocksModulus) (point : List Goldilocks) (rest : Nat) :
    (honestPolynomial f g point rest).eval 0 + (honestPolynomial f g point rest).eval 1
      = trueSum f g point (rest + 1) := by
  rw [honestPolynomial, eval_roundPolynomial_ends, trueSum, Nat.pow_succ']

theorem trueSum_append (f g : Nat → ZMod goldilocksModulus) (point : List Goldilocks)
    (challenge : Goldilocks) (rest : Nat) :
    trueSum f g (point ++ [challenge]) rest
      = (honestPolynomial f g point rest).eval challenge.toField := by
  have hresidues : residues (point ++ [challenge]) = residues point ++ [challenge.toField] := by
    rw [residues, List.map_append, List.map_cons, List.map_nil, residues]
  rw [trueSum, honestPolynomial, eval_roundPolynomial, hresidues, fixAll_append, fixAll_append]

/-! ## One round -/

/-- The verifier's state before a round, and the round's message: the polynomial sent
is not the honest one, and the challenge drawn is a root of their difference, which has
degree at most two and so at most two roots. -/
structure LuckyRound (H : TranscriptHash) (f g : Nat → ZMod goldilocksModulus) (rest : Nat)
    (before : VerifierState) (i : Nat) (message : RoundMessage) : Prop where
  differs : sentPolynomial message ≠ honestPolynomial f g before.commonPoint rest
  degree : (sentPolynomial message - honestPolynomial f g before.commonPoint rest).natDegree ≤ 2
  root : (sentPolynomial message - honestPolynomial f g before.commonPoint rest).IsRoot
    (roundChallenge H before.transcript i message).1.toField
  few : {r | (sentPolynomial message
    - honestPolynomial f g before.commonPoint rest).IsRoot r}.encard ≤ 2

theorem canonical_eq_ok {value : UInt64} {x : Goldilocks}
    (h : Goldilocks.canonical value = .ok x) : x.value = value := by
  rw [Goldilocks.canonical] at h
  split at h
  case isTrue hlt =>
      cases h
      rfl
  case isFalse => exact absurd h Outcome.fail_ne_ok

/-- What an accepted round says. -/
theorem verifierRound_spec {H : TranscriptHash} {state next : VerifierState}
    {encoded : UInt64 × UInt64 × UInt64} {i : Nat}
    (h : verifierRound H state (encoded, i) = .ok next) :
    ∃ message : RoundMessage,
      encoded = (message.atZero.value, message.atOne.value, message.atTwo.value) ∧
      message.atZero.add message.atOne = state.claim ∧
      next.claim = evaluateQuadratic message (roundChallenge H state.transcript i message).1 ∧
      next.commonPoint
        = state.commonPoint ++ [(roundChallenge H state.transcript i message).1] := by
  simp only [verifierRound, Outcome.bind_eq_ok, Outcome.require_eq_ok, exists_const] at h
  obtain ⟨x, hx, y, hy, z, hz, hclaim, hnext⟩ := h
  refine ⟨⟨x, y, z⟩, ?_, hclaim, ?_, ?_⟩
  · rw [canonical_eq_ok hx, canonical_eq_ok hy, canonical_eq_ok hz]
  · cases hnext
    rfl
  · cases hnext
    rfl

/-- Under a wrong claim the polynomial that is sent is not the honest one. -/
theorem sent_ne_honest {f g : Nat → ZMod goldilocksModulus} {point : List Goldilocks} {rest : Nat}
    {message : RoundMessage} {claim : Goldilocks} (hsum : message.atZero.add message.atOne = claim)
    (hwrong : claim.toField ≠ trueSum f g point (rest + 1)) :
    sentPolynomial message ≠ honestPolynomial f g point rest := by
  intro hsame
  apply hwrong
  obtain ⟨hzero, hone, _⟩ := eval_throughValues_nodes Goldilocks.toField_invTwo
    message.atZero.toField message.atOne.toField message.atTwo.toField
  rw [← hsum, Goldilocks.toField_add, ← trueSum_succ, ← hsame, sentPolynomial, hzero, hone]

/-- A round with a wrong claim is lucky, or leaves a wrong claim. -/
theorem wrong_or_lucky {H : TranscriptHash} {f g : Nat → ZMod goldilocksModulus} {rest i : Nat}
    {state next : VerifierState} {message : RoundMessage}
    (hsum : message.atZero.add message.atOne = state.claim)
    (hclaim : next.claim
      = evaluateQuadratic message (roundChallenge H state.transcript i message).1)
    (hpoint : next.commonPoint
      = state.commonPoint ++ [(roundChallenge H state.transcript i message).1])
    (hwrong : state.claim.toField ≠ trueSum f g state.commonPoint (rest + 1)) :
    LuckyRound H f g rest state i message ∨
      next.claim.toField ≠ trueSum f g next.commonPoint rest := by
  have hdiffers := sent_ne_honest hsum hwrong
  have hsent : (sentPolynomial message).natDegree ≤ 2 := natDegree_throughValues_le _ _ _ _
  have hhonest : (honestPolynomial f g state.commonPoint rest).natDegree ≤ 2 :=
    natDegree_roundPolynomial_le _ _ _
  by_cases hnext : next.claim.toField = trueSum f g next.commonPoint rest
  · refine .inl ⟨hdiffers, natDegree_sub_le_of_le hsent hhonest, ?_,
      encard_agree_le hsent hhonest hdiffers⟩
    rw [hpoint, trueSum_append, hclaim, ← eval_sentPolynomial] at hnext
    rw [IsRoot, eval_sub, hnext, sub_self]
  · exact .inr hnext

/-! ## All rounds -/

/-- A lucky round of a run of the verifier over the rounds of a proof. -/
def HasLuckyRound (H : TranscriptHash) (f g : Nat → ZMod goldilocksModulus)
    (rounds : List (UInt64 × UInt64 × UInt64)) (start : VerifierState) : Prop :=
  ∃ i message before,
    rounds[i]? = some (message.atZero.value, message.atOne.value, message.atTwo.value) ∧
    (rounds.take i).zipIdx.foldlM (verifierRound H) start = .ok before ∧
    LuckyRound H f g (rounds.length - (i + 1)) before i message

/-- Along the rounds the claim stays wrong until a round is lucky. -/
theorem rounds_wrong_or_lucky {H : TranscriptHash} {f g : Nat → ZMod goldilocksModulus}
    {rounds : List (UInt64 × UInt64 × UInt64)} {start : VerifierState}
    (hstart : start.commonPoint = [])
    (hwrong : start.claim.toField ≠ trueSum f g [] rounds.length) :
    ∀ k ≤ rounds.length, ∀ state,
      (rounds.take k).zipIdx.foldlM (verifierRound H) start = .ok state →
      HasLuckyRound H f g rounds start ∨
        state.claim.toField ≠ trueSum f g state.commonPoint (rounds.length - k) := by
  intro k
  induction k with
  | zero =>
      intro _ state hstate
      cases hstate
      rw [hstart]
      exact .inr hwrong
  | succ k ih =>
      intro hk state hstate
      have hget : rounds[k]? = some rounds[k] := List.getElem?_eq_getElem hk
      have htake : rounds.take (k + 1) = rounds.take k ++ [rounds[k]] :=
        List.take_succ_eq_append_getElem hk
      rw [htake, List.zipIdx_append, List.length_take, Nat.min_eq_left (by omega)] at hstate
      obtain ⟨before, hbefore, hlast⟩ := Outcome.foldlM_append_eq_ok.mp hstate
      rcases ih (by omega) before hbefore with hlucky | hbeforeWrong
      · exact .inl hlucky
      · obtain ⟨next, hround, hnext⟩ := Outcome.foldlM_cons_eq_ok.mp hlast
        cases hnext
        rw [Nat.zero_add] at hround
        obtain ⟨message, hencoded, hsum, hclaim, hpoint⟩ := verifierRound_spec hround
        have hrest : rounds.length - k = rounds.length - (k + 1) + 1 := by omega
        rw [hrest] at hbeforeWrong
        rcases wrong_or_lucky hsum hclaim hpoint hbeforeWrong with hlucky | hwrong
        · exact .inl ⟨k, message, before, by rw [hget, hencoded], hbefore, hlucky⟩
        · exact .inr hwrong

theorem length_commonPoint {H : TranscriptHash} {rounds : List (UInt64 × UInt64 × UInt64)} :
    ∀ {i : Nat} {start state : VerifierState},
    (rounds.zipIdx i).foldlM (verifierRound H) start = .ok state →
    state.commonPoint.length = start.commonPoint.length + rounds.length := by
  induction rounds with
  | nil =>
      intro i start state h
      cases h
      rfl
  | cons round rounds ih =>
      intro i start state h
      obtain ⟨next, hround, hrest⟩ := Outcome.foldlM_cons_eq_ok.mp h
      obtain ⟨message, _, _, _, hpoint⟩ := verifierRound_spec hround
      rw [ih hrest, hpoint, List.length_append, List.length_singleton, List.length_cons]
      omega

/-! ## Soundness -/

/-- The verifier's state before the first round. -/
def roundsStart (P : Platform) (H : TranscriptHash) (binding : List UInt8) (a b c : List Int64)
    (rows inner cols : Nat) (cEvaluation : Goldilocks) : VerifierState :=
  { transcript := (opened P H binding a b c rows inner cols).transcript.absorb
      (label "C-evaluation") cEvaluation.encode
    claim := cEvaluation
    commonPoint := [] }

/-- What an accepted proof says, past the checks of its shape. -/
theorem verifyToyMatrixProduct_spec {P : Platform} {H : TranscriptHash} {binding : List UInt8}
    {a b c : List Int64} {rows inner cols : Nat} {proof : MatrixProductSumcheckProof}
    (h : verifyToyMatrixProduct P H binding a b c rows inner cols proof = .ok ()) :
    validateShape a b (some c) rows inner cols = .ok () ∧ proof.rounds.length = inner.log2 ∧
      ∃ cEvaluation last aFinal bFinal,
        Goldilocks.canonical proof.cEvaluation = .ok cEvaluation ∧
        evaluateMle P (fieldValues c) ((opened P H binding a b c rows inner cols).colPoint ++
          (opened P H binding a b c rows inner cols).rowPoint) = .ok cEvaluation ∧
        proof.rounds.zipIdx.foldlM (verifierRound H)
          (roundsStart P H binding a b c rows inner cols cEvaluation) = .ok last ∧
        last.claim = aFinal.mul bFinal ∧
        evaluateMle P (fieldValues a) (last.commonPoint ++
          (opened P H binding a b c rows inner cols).rowPoint) = .ok aFinal ∧
        evaluateMle P (fieldValues b) ((opened P H binding a b c rows inner cols).colPoint ++
          last.commonPoint) = .ok bFinal := by
  obtain ⟨_, hshape, h⟩ := Outcome.bind_eq_ok.mp h
  obtain ⟨_, _, h⟩ := Outcome.bind_eq_ok.mp h
  obtain ⟨_, hrounds, h⟩ := Outcome.bind_eq_ok.mp h
  obtain ⟨_, _, h⟩ := Outcome.bind_eq_ok.mp h
  obtain ⟨expected, hexpected, h⟩ := Outcome.bind_eq_ok.mp h
  obtain ⟨cEvaluation, hcanonical, h⟩ := Outcome.bind_eq_ok.mp h
  obtain ⟨_, hopening, h⟩ := Outcome.bind_eq_ok.mp h
  obtain ⟨last, hlast, h⟩ := Outcome.bind_eq_ok.mp h
  obtain ⟨aFinal, _, h⟩ := Outcome.bind_eq_ok.mp h
  obtain ⟨bFinal, _, h⟩ := Outcome.bind_eq_ok.mp h
  obtain ⟨_, hterminal, h⟩ := Outcome.bind_eq_ok.mp h
  obtain ⟨aOpening, haOpening, h⟩ := Outcome.bind_eq_ok.mp h
  obtain ⟨bOpening, hbOpening, hfinal⟩ := Outcome.bind_eq_ok.mp h
  have hsame : cEvaluation = expected := Outcome.require_eq_ok.mp hopening
  obtain ⟨haSame, hbSame⟩ := Outcome.require_eq_ok.mp hfinal
  subst hsame haSame hbSame
  exact ⟨hshape, Outcome.require_eq_ok.mp hrounds, cEvaluation, last, aFinal, bFinal, hcanonical,
    hexpected, hlast, Outcome.require_eq_ok.mp hterminal, haOpening, hbOpening⟩

/-- What `evaluate_mle` returns is the extension's value. -/
theorem toField_of_evaluateMle {P : Platform} {evaluations point : List Goldilocks}
    {v : Goldilocks} (hlength : evaluations.length = 2 ^ point.length)
    (h : evaluateMle P evaluations point = .ok v) :
    v.toField = extension (values evaluations) (residues point) := by
  obtain ⟨v', hv', hfield⟩ := evaluateMle_eq_ok (P := P) hlength
  rw [← hfield, Except.ok.inj (h.symm.trans hv')]

/-- A wrong claim about `c` is accepted only through a lucky round. -/
theorem sumcheck_soundness {P : Platform} {H : TranscriptHash} {binding : List UInt8}
    {a b c : List Int64} {rows inner cols : Nat} {proof : MatrixProductSumcheckProof}
    {rowPoint colPoint : List Goldilocks}
    (haccept : verifyToyMatrixProduct P H binding a b c rows inner cols proof = .ok ())
    (hrowPoint : (opened P H binding a b c rows inner cols).rowPoint = rowPoint)
    (hcolPoint : (opened P H binding a b c rows inner cols).colPoint = colPoint)
    (hwrong : extension (values (fieldValues c)) (residues (colPoint ++ rowPoint))
      ≠ ∑ common ∈ Finset.range inner, foldedRows (fieldValues a) rowPoint rows inner common *
          foldedCols (fieldValues b) colPoint cols common) :
    ∃ cEvaluation, Goldilocks.canonical proof.cEvaluation = .ok cEvaluation ∧
      HasLuckyRound H (foldedRows (fieldValues a) rowPoint rows inner)
        (foldedCols (fieldValues b) colPoint cols) proof.rounds
        (roundsStart P H binding a b c rows inner cols cEvaluation) := by
  obtain ⟨hshape, hrounds, cEvaluation, last, aFinal, bFinal, hcanonical, hcEvaluation, hlast,
    hterminal, haOpening, hbOpening⟩ := verifyToyMatrixProduct_spec haccept
  have hadmitted := admitted_of_validateShape hshape
  rw [hrowPoint, hcolPoint] at hcEvaluation
  rw [hrowPoint] at haOpening
  rw [hcolPoint] at hbOpening
  have hrow : 2 ^ rowPoint.length = rows := by
    rw [← hrowPoint, opened, openStatement, length_challengeVector, hadmitted.rows_pow]
  have hcol : 2 ^ colPoint.length = cols := by
    rw [← hcolPoint, opened, openStatement, length_challengeVector, hadmitted.cols_pow]
  have hcommon : last.commonPoint.length = proof.rounds.length := by
    rw [length_commonPoint hlast, roundsStart, List.length_nil, Nat.zero_add]
  have hpoint : 2 ^ last.commonPoint.length = inner := by
    rw [hcommon, hrounds, hadmitted.inner_pow]
  have hcField := toField_of_evaluateMle (by
    rw [length_fieldValues, hadmitted.c_length, List.length_append, Nat.pow_add, hrow, hcol,
      Nat.mul_comm]) hcEvaluation
  have haField := toField_of_evaluateMle (by
    rw [length_fieldValues, hadmitted.a_length, List.length_append, Nat.pow_add, hpoint, hrow,
      Nat.mul_comm]) haOpening
  have hbField := toField_of_evaluateMle (by
    rw [length_fieldValues, hadmitted.b_length, List.length_append, Nat.pow_add, hpoint, hcol,
      Nat.mul_comm]) hbOpening
  rw [extension_foldedRows _ hrow hpoint, ← fixAll_zero] at haField
  rw [extension_foldedCols _ _ hcol, ← fixAll_zero] at hbField
  refine ⟨cEvaluation, hcanonical, ?_⟩
  have hfirst : (roundsStart P H binding a b c rows inner cols cEvaluation).claim.toField
      ≠ trueSum (foldedRows (fieldValues a) rowPoint rows inner)
          (foldedCols (fieldValues b) colPoint cols) [] proof.rounds.length := by
    rw [roundsStart, trueSum, hrounds, hadmitted.inner_pow, hcField]
    exact hwrong
  rcases rounds_wrong_or_lucky rfl hfirst proof.rounds.length (Nat.le_refl _) last
    (by rw [List.take_length]; exact hlast) with hlucky | hlastWrong
  · exact hlucky
  · -- the openings make the last claim right
    apply absurd _ hlastWrong
    rw [hterminal, Goldilocks.toField_mul, haField, hbField, trueSum, Nat.sub_self, Nat.pow_zero,
      Finset.sum_range_one]

/-- A proof that `[1, 1] * [1, 1]` is `[0]`, for a transcript whose challenge is `1`: the
polynomial that is sent is `2 X - 1`, the honest one is `1`. -/
def luckyProof : MatrixProductSumcheckProof where
  protocolVersion := sumcheckProtocolVersion
  aCommitment := matrixCommitment samplePlatform (label "A") 1 2 (fieldValues [1, 1])
  bCommitment := matrixCommitment samplePlatform (label "B") 2 1 (fieldValues [1, 1])
  cCommitment := matrixCommitment samplePlatform (label "C") 1 1 (fieldValues [0])
  cEvaluation := 0
  rounds := [(18446744069414584320, 1, 3)]
  aFinal := 1
  bFinal := 1

theorem luckyProof_accepted :
    verifyToyMatrixProduct samplePlatform (.ofSequence fun _ => Goldilocks.one) [] [1, 1] [1, 1]
      [0] 1 2 1 luckyProof = .ok () := by
  decide +kernel

theorem luckyProof_wrong :
    extension (values (fieldValues [0])) (residues ([] ++ []))
      ≠ ∑ common ∈ Finset.range 2, foldedRows (fieldValues [1, 1]) [] 1 2 common *
          foldedCols (fieldValues [1, 1]) [] 1 common := by
  have hone : Int64.toInt 1 = 1 := rfl
  have hzero : Int64.toInt 0 = 0 := rfl
  have hsum : ∑ common ∈ Finset.range 2, foldedRows (fieldValues [1, 1]) [] 1 2 common *
      foldedCols (fieldValues [1, 1]) [] 1 common = 2 := by
    simp only [foldedRows, foldedCols, values_fieldValues, Finset.sum_range_succ,
      Finset.sum_range_zero, residues, List.map_nil, basis]
    norm_num [hone]
  intro h
  rw [hsum, List.append_nil, residues, List.map_nil, extension_nil, values_fieldValues] at h
  exact two_ne_zero_field (by rw [← h, List.getD_cons_zero, hzero, Int.cast_zero])

/-- The lucky challenge is found in the first round. -/
theorem sumcheck_soundness_sample :
    ∃ cEvaluation, Goldilocks.canonical 0 = .ok cEvaluation ∧
      HasLuckyRound (.ofSequence fun _ => Goldilocks.one) (foldedRows (fieldValues [1, 1]) [] 1 2)
        (foldedCols (fieldValues [1, 1]) [] 1) [(18446744069414584320, 1, 3)]
        (roundsStart samplePlatform (.ofSequence fun _ => Goldilocks.one) [] [1, 1] [1, 1] [0]
          1 2 1 cEvaluation) :=
  sumcheck_soundness luckyProof_accepted rfl rfl luckyProof_wrong

end CommonFoundry.Consensus
