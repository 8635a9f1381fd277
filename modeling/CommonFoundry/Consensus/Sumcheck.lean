/-
# `CommonFoundry.Consensus.Sumcheck` — the matrix-product sumcheck

`cmfd-consensus/src/sumcheck.rs`: a prover and a verifier for `a * b = c` over the
Goldilocks field.  The verifier owns the three matrices and evaluates their
extensions itself.

The transcript is a hasher that both sides feed alike.  Its digests are an oracle,
`TranscriptHash`: any function of the bytes, with only the promise that the
rejection loop of `challenge` ends.  The commitments use `Platform.deriveKey`.

Loops that index are `foldlM` over the range, with an abort where an index is out of
range.  The `debug_assert`s abort in the builds that have overflow checks: no
profile is configured, so the two settings go together.  `i128` is `Int` with its
overflow written out.
-/
import CommonFoundry.Consensus.Goldilocks
import CommonFoundry.Platform
import Mathlib.Data.Nat.Find

namespace CommonFoundry.Consensus

open Lib

/-- `MAX_TOY_MATRIX_ELEMENTS`. -/
def maxToyMatrixElements : Nat := 4096

/-- `PROTOCOL_VERSION`. -/
def sumcheckProtocolVersion : UInt32 := 1

/-- `MATRIX_COMMITMENT_DOMAIN`. -/
def matrixCommitmentDomain : String := "CMFD/FORGEMATRIX/MATRIX/TOY/V2"

/-- A byte-string literal. -/
def label (s : String) : List UInt8 := s.toList.map fun c => UInt8.ofNat c.toNat

/-- `MatrixProductSumcheckProof`. -/
structure MatrixProductSumcheckProof where
  protocolVersion : UInt32
  aCommitment : Bytes32
  bCommitment : Bytes32
  cCommitment : Bytes32
  cEvaluation : UInt64
  rounds : List (UInt64 × UInt64 × UInt64)
  aFinal : UInt64
  bFinal : UInt64
  deriving DecidableEq

/-! ## Indexing, assertions and `i128` -/

/-- `values[index]`. -/
def index {α : Type} (values : List α) (i : Nat) : Outcome SumcheckError α :=
  match values[i]? with
  | some value => .ok value
  | none => .error .panic

/-- `debug_assert!`. -/
def debugAssert (P : Platform) (p : Prop) [Decidable p] : Outcome SumcheckError Unit :=
  if P.overflowChecks = true ∧ ¬p then .error .panic else .ok ()

/-- The value is an `i128`. -/
def FitsI128 (n : Int) : Prop := -2 ^ 127 ≤ n ∧ n < 2 ^ 127

instance (n : Int) : Decidable (FitsI128 n) := inferInstanceAs (Decidable (_ ∧ _))

/-- `+=` on `i128`. -/
def plainAdd128 (P : Platform) (x y : Int) : Outcome SumcheckError Int :=
  if FitsI128 (x + y) then .ok (x + y)
  else if P.overflowChecks then .error .panic else .ok ((x + y).bmod (2 ^ 128))

/-- `i64::try_from`. -/
def tryI64 (n : Int) : Outcome SumcheckError Int64 :=
  if -2 ^ 63 ≤ n ∧ n < 2 ^ 63 then .ok (Int64.ofInt n) else Outcome.fail .arithmeticOverflow

/-- `usize::checked_mul`. -/
def checkedMul (x y : Nat) : Option Nat := if x * y < 2 ^ 64 then some (x * y) else none

/-- `usize::is_power_of_two`. -/
def isPowerOfTwo (n : Nat) : Bool := 2 ^ n.log2 == n

/-! ## The transcript -/

/-- The number that one attempt of the rejection loop reads: the first eight bytes of
the digest. -/
def candidate (digest : List UInt8 → Bytes32) (hasher : List UInt8) (attempt : Nat) : Nat :=
  ofLe ((digest (hasher ++ toLe 8 attempt)).1.take 8)

/-- `Hasher::new_derive_key(TRANSCRIPT_DOMAIN)`, as an oracle. -/
structure TranscriptHash where
  /-- `finalize` of a hasher that was fed with the bytes. -/
  digest : List UInt8 → Bytes32
  /-- Some attempt gives a canonical field element. -/
  canonical (hasher : List UInt8) :
    ∃ attempt, attempt < 2 ^ 64 ∧ candidate digest hasher attempt < goldilocksModulus

/-- `Transcript`: what the hasher was fed with, and the counter. -/
structure Transcript where
  hasher : List UInt8
  challengeCounter : Nat
  deriving DecidableEq

namespace Transcript

/-- `absorb`. -/
def absorb (self : Transcript) (name value : List UInt8) : Transcript :=
  { self with
    hasher := self.hasher ++ toLe 8 name.length ++ name ++ toLe 8 value.length ++ value }

/-- `Transcript::new`. -/
def new (binding : List UInt8) (rows inner cols : Nat) : Transcript :=
  let transcript : Transcript := ⟨[], 0⟩
  let transcript := transcript.absorb (label "protocol-version") (leBytes32 sumcheckProtocolVersion)
  let transcript := transcript.absorb (label "public-binding") binding
  let transcript := transcript.absorb (label "rows") (toLe 8 rows)
  let transcript := transcript.absorb (label "inner") (toLe 8 inner)
  transcript.absorb (label "cols") (toLe 8 cols)

/-- What the candidates of the next challenge have in common. -/
def challengeInput (self : Transcript) (name : List UInt8) : List UInt8 :=
  self.hasher ++ toLe 8 name.length ++ name ++ toLe 8 self.challengeCounter

/-- The element that the rejection loop of `challenge` returns: the first canonical
candidate. -/
def drawn (H : TranscriptHash) (self : Transcript) (name : List UInt8) : Goldilocks :=
  Goldilocks.ofLt
    (candidate H.digest (self.challengeInput name)
      (Nat.find (H.canonical (self.challengeInput name))))
    (Nat.find_spec (H.canonical (self.challengeInput name))).2

/-- `challenge`. -/
def challenge (H : TranscriptHash) (self : Transcript) (name : List UInt8) :
    Goldilocks × Transcript :=
  let field := self.drawn H name
  let counted : Transcript := { self with challengeCounter := self.challengeCounter + 1 }
  (field, counted.absorb (label "derived-challenge") field.encode)

@[simp] theorem challengeCounter_absorb (self : Transcript) (name value : List UInt8) :
    (self.absorb name value).challengeCounter = self.challengeCounter := rfl

@[simp] theorem challengeCounter_challenge (H : TranscriptHash) (self : Transcript)
    (name : List UInt8) :
    (self.challenge H name).2.challengeCounter = self.challengeCounter + 1 := rfl

end Transcript

/-- `challenge_vector`. -/
def challengeVector (H : TranscriptHash) (transcript : Transcript) (name : List UInt8)
    (count : Nat) : List Goldilocks × Transcript :=
  (List.range count).foldl
    (fun acc i =>
      let drawn := (acc.2.absorb (label "point-index") (toLe 8 i)).challenge H name
      (acc.1 ++ [drawn.1], drawn.2))
    ([], transcript)

/-! ## Shapes, products and commitments -/

/-- `validate_shape`. -/
def validateShape (a b : List Int64) (c : Option (List Int64)) (rows inner cols : Nat) :
    Outcome SumcheckError Unit := do
  Outcome.require
    (rows ≠ 0 ∧ inner ≠ 0 ∧ cols ≠ 0 ∧
      isPowerOfTwo rows = true ∧ isPowerOfTwo inner = true ∧ isPowerOfTwo cols = true)
    .invalidDimensions
  let aLen ← Outcome.okOr (checkedMul rows inner) .invalidLength
  let bLen ← Outcome.okOr (checkedMul inner cols) .invalidLength
  let cLen ← Outcome.okOr (checkedMul rows cols) .invalidLength
  Outcome.require
    (a.length = aLen ∧ b.length = bLen ∧ ∀ values ∈ c, values.length = cLen) .invalidLength
  Outcome.require
    (aLen ≤ maxToyMatrixElements ∧ bLen ≤ maxToyMatrixElements ∧ cLen ≤ maxToyMatrixElements)
    .productionDisabled

/-- One entry of `reference_matrix_product`, before it is narrowed. -/
def referenceEntry (P : Platform) (a b : List Int64) (inner cols row col : Nat) :
    Outcome SumcheckError Int :=
  (List.range inner).foldlM
    (fun accumulator common => do
      let x ← index a (row * inner + common)
      let y ← index b (common * cols + col)
      plainAdd128 P accumulator (x.toInt * y.toInt))
    0

/-- `reference_matrix_product`. -/
def referenceMatrixProduct (P : Platform) (a b : List Int64) (rows inner cols : Nat) :
    Outcome SumcheckError (List Int64) := do
  validateShape a b none rows inner cols
  let product ← (List.range rows).mapM fun row =>
    (List.range cols).mapM fun col => do
      let accumulator ← referenceEntry P a b inner cols row col
      tryI64 accumulator
  pure product.flatten

/-- `field_values`. -/
def fieldValues (values : List Int64) : List Goldilocks := values.map Goldilocks.fromSigned

/-- `matrix_commitment`. -/
def matrixCommitment (P : Platform) (name : List UInt8) (rows cols : Nat)
    (values : List Goldilocks) : Bytes32 :=
  P.deriveKey matrixCommitmentDomain
    (toLe 8 name.length ++ name ++ toLe 8 rows ++ toLe 8 cols ++ values.flatMap Goldilocks.encode)

/-! ## Tables -/

/-- `equality_weights`: the weights so far are the lower half, times `1 - challenge`, and
the upper half, times `challenge`. -/
def equalityWeights (point : List Goldilocks) : List Goldilocks :=
  point.foldl
    (fun previous challenge =>
      previous.map (fun value => value.mul (Goldilocks.one.sub challenge)) ++
        previous.map fun value => value.mul challenge)
    [Goldilocks.one]

/-- The loop of `fold`, over `chunks_exact(2)`. -/
def foldPairs (challenge : Goldilocks) : List Goldilocks → List Goldilocks
  | [] => []
  | [_] => []
  | low :: high :: rest => low.add ((high.sub low).mul challenge) :: foldPairs challenge rest

/-- `fold`. -/
def fold (P : Platform) (table : List Goldilocks) (challenge : Goldilocks) :
    Outcome SumcheckError (List Goldilocks) := do
  debugAssert P (table.length % 2 = 0)
  pure (foldPairs challenge table)

/-- `evaluate_mle`. -/
def evaluateMle (P : Platform) (evaluations point : List Goldilocks) :
    Outcome SumcheckError Goldilocks := do
  debugAssert P (evaluations.length = 2 ^ point.length)
  let table ← point.foldlM (fold P) evaluations
  index table 0

/-- The values of a round's polynomial at `0`, `1` and `2`. -/
structure RoundMessage where
  atZero : Goldilocks
  atOne : Goldilocks
  atTwo : Goldilocks
  deriving DecidableEq

/-- The loop of `quadratic_round`, over `chunks_exact(2)` of both tables. -/
def quadraticLoop (values : RoundMessage) : List Goldilocks → List Goldilocks → RoundMessage
  | aLow :: aHigh :: a, bLow :: bHigh :: b =>
      let aAtTwo := aHigh.double.sub aLow
      let bAtTwo := bHigh.double.sub bLow
      quadraticLoop
        { atZero := values.atZero.add (aLow.mul bLow)
          atOne := values.atOne.add (aHigh.mul bHigh)
          atTwo := values.atTwo.add (aAtTwo.mul bAtTwo) }
        a b
  | _, _ => values

/-- `quadratic_round`. -/
def quadraticRound (P : Platform) (a b : List Goldilocks) :
    Outcome SumcheckError RoundMessage := do
  debugAssert P (a.length = b.length)
  debugAssert P (a.length % 2 = 0)
  pure (quadraticLoop ⟨Goldilocks.zero, Goldilocks.zero, Goldilocks.zero⟩ a b)

/-- `evaluate_quadratic`. -/
def evaluateQuadratic (values : RoundMessage) (point : Goldilocks) : Goldilocks :=
  let firstDifference := values.atOne.sub values.atZero
  let secondDifference := (values.atTwo.sub values.atOne.double).add values.atZero
  (values.atZero.add (firstDifference.mul point)).add
    (((secondDifference.mul point).mul (point.sub Goldilocks.one)).mul Goldilocks.invTwo)

/-- `encode_round`. -/
def encodeRound (values : RoundMessage) : List UInt8 :=
  values.atZero.encode ++ values.atOne.encode ++ values.atTwo.encode

/-! ## What both sides do before the rounds -/

/-- The commitments to the three matrices. -/
structure Commitments where
  a : Bytes32
  b : Bytes32
  c : Bytes32
  deriving DecidableEq

def Commitments.ofMatrices (P : Platform) (a b c : List Goldilocks) (rows inner cols : Nat) :
    Commitments :=
  { a := matrixCommitment P (label "A") rows inner a
    b := matrixCommitment P (label "B") inner cols b
    c := matrixCommitment P (label "C") rows cols c }

/-- The transcript with the statement absorbed, and the two points drawn from it. -/
structure Opened where
  rowPoint : List Goldilocks
  colPoint : List Goldilocks
  transcript : Transcript

/-- A new transcript, with the statement absorbed. -/
def absorbStatement (binding : List UInt8) (commitments : Commitments) (rows inner cols : Nat) :
    Transcript :=
  let transcript := Transcript.new binding rows inner cols
  let transcript := transcript.absorb (label "A-commitment") commitments.a.1
  let transcript := transcript.absorb (label "B-commitment") commitments.b.1
  transcript.absorb (label "C-commitment") commitments.c.1

theorem challengeCounter_absorbStatement (binding : List UInt8) (commitments : Commitments)
    (rows inner cols : Nat) :
    (absorbStatement binding commitments rows inner cols).challengeCounter = 0 := rfl

/-- The statement is absorbed and the points are drawn. -/
def openStatement (H : TranscriptHash) (binding : List UInt8) (commitments : Commitments)
    (rows inner cols : Nat) : Opened :=
  let transcript := absorbStatement binding commitments rows inner cols
  let row := challengeVector H transcript (label "row-point") rows.log2
  let col := challengeVector H row.2 (label "col-point") cols.log2
  { rowPoint := row.1, colPoint := col.1, transcript := col.2 }

/-- A round's message is absorbed and its challenge drawn. -/
def roundChallenge (H : TranscriptHash) (transcript : Transcript) (roundIndex : Nat)
    (message : RoundMessage) : Goldilocks × Transcript :=
  let transcript := transcript.absorb (label "round-index") (toLe 8 roundIndex)
  let transcript := transcript.absorb (label "round-message") (encodeRound message)
  transcript.challenge H (label "sumcheck-round")

/-! ## The prover -/

/-- A column of `a` against the row weights, and a row of `b` against the column
weights: one turn of the loop over `common`. -/
def partialValues (a b rowWeights colWeights : List Goldilocks) (rows inner cols common : Nat) :
    Outcome SumcheckError (Goldilocks × Goldilocks) := do
  let aValue ← (List.range rows).foldlM
    (fun aValue row => do
      let x ← index a (row * inner + common)
      let weight ← index rowWeights row
      pure (aValue.add (x.mul weight)))
    Goldilocks.zero
  let bValue ← (List.range cols).foldlM
    (fun bValue col => do
      let x ← index b (common * cols + col)
      let weight ← index colWeights col
      pure (bValue.add (x.mul weight)))
    Goldilocks.zero
  pure (aValue, bValue)

/-- The state of the prover's loop over the rounds. -/
structure ProverState where
  transcript : Transcript
  aPartial : List Goldilocks
  bPartial : List Goldilocks
  rounds : List (UInt64 × UInt64 × UInt64)

/-- One round of the prover. -/
def proverRound (P : Platform) (H : TranscriptHash) (state : ProverState) (roundIndex : Nat) :
    Outcome SumcheckError ProverState := do
  let message ← quadraticRound P state.aPartial state.bPartial
  let challenge := roundChallenge H state.transcript roundIndex message
  let aPartial ← fold P state.aPartial challenge.1
  let bPartial ← fold P state.bPartial challenge.1
  pure {
    transcript := challenge.2
    aPartial := aPartial
    bPartial := bPartial
    rounds := state.rounds ++
      [(message.atZero.value, message.atOne.value, message.atTwo.value)] }

/-- `prove_toy_matrix_product`. -/
def proveToyMatrixProduct (P : Platform) (H : TranscriptHash) (binding : List UInt8)
    (a b c : List Int64) (rows inner cols : Nat) :
    Outcome SumcheckError MatrixProductSumcheckProof := do
  validateShape a b (some c) rows inner cols
  let commitments :=
    Commitments.ofMatrices P (fieldValues a) (fieldValues b) (fieldValues c) rows inner cols
  let opened := openStatement H binding commitments rows inner cols
  let cEvaluation ← evaluateMle P (fieldValues c) (opened.colPoint ++ opened.rowPoint)
  let transcript := opened.transcript.absorb (label "C-evaluation") cEvaluation.encode
  let partials ← (List.range inner).mapM
    (partialValues (fieldValues a) (fieldValues b) (equalityWeights opened.rowPoint)
      (equalityWeights opened.colPoint) rows inner cols)
  let state ← (List.range inner.log2).foldlM (proverRound P H)
    { transcript := transcript, aPartial := partials.map Prod.fst
      bPartial := partials.map Prod.snd, rounds := [] }
  let aFinal ← index state.aPartial 0
  let bFinal ← index state.bPartial 0
  pure {
    protocolVersion := sumcheckProtocolVersion
    aCommitment := commitments.a
    bCommitment := commitments.b
    cCommitment := commitments.c
    cEvaluation := cEvaluation.value
    rounds := state.rounds
    aFinal := aFinal.value
    bFinal := bFinal.value }

/-! ## The verifier -/

/-- The state of the verifier's loop over the rounds. -/
structure VerifierState where
  transcript : Transcript
  claim : Goldilocks
  commonPoint : List Goldilocks

/-- One round of the verifier. -/
def verifierRound (H : TranscriptHash) (state : VerifierState)
    (encoded : (UInt64 × UInt64 × UInt64) × Nat) : Outcome SumcheckError VerifierState := do
  let atZero ← Goldilocks.canonical encoded.1.1
  let atOne ← Goldilocks.canonical encoded.1.2.1
  let atTwo ← Goldilocks.canonical encoded.1.2.2
  let message : RoundMessage := ⟨atZero, atOne, atTwo⟩
  Outcome.require (message.atZero.add message.atOne = state.claim) .roundClaim
  let challenge := roundChallenge H state.transcript encoded.2 message
  pure {
    transcript := challenge.2
    claim := evaluateQuadratic message challenge.1
    commonPoint := state.commonPoint ++ [challenge.1] }

/-- `verify_toy_matrix_product`. -/
def verifyToyMatrixProduct (P : Platform) (H : TranscriptHash) (binding : List UInt8)
    (a b c : List Int64) (rows inner cols : Nat) (proof : MatrixProductSumcheckProof) :
    Outcome SumcheckError Unit := do
  validateShape a b (some c) rows inner cols
  Outcome.require (proof.protocolVersion = sumcheckProtocolVersion) .protocolVersion
  Outcome.require (proof.rounds.length = inner.log2) .roundCount
  let commitments :=
    Commitments.ofMatrices P (fieldValues a) (fieldValues b) (fieldValues c) rows inner cols
  Outcome.require
    (proof.aCommitment = commitments.a ∧ proof.bCommitment = commitments.b ∧
      proof.cCommitment = commitments.c)
    .commitment
  let opened := openStatement H binding commitments rows inner cols
  let expectedC ← evaluateMle P (fieldValues c) (opened.colPoint ++ opened.rowPoint)
  let cEvaluation ← Goldilocks.canonical proof.cEvaluation
  Outcome.require (cEvaluation = expectedC) .opening
  let transcript := opened.transcript.absorb (label "C-evaluation") cEvaluation.encode
  let state ← proof.rounds.zipIdx.foldlM (verifierRound H)
    { transcript := transcript, claim := cEvaluation, commonPoint := [] }
  let aFinal ← Goldilocks.canonical proof.aFinal
  let bFinal ← Goldilocks.canonical proof.bFinal
  Outcome.require (state.claim = aFinal.mul bFinal) .terminalClaim
  let aOpening ← evaluateMle P (fieldValues a) (state.commonPoint ++ opened.rowPoint)
  let bOpening ← evaluateMle P (fieldValues b) (opened.colPoint ++ state.commonPoint)
  Outcome.require (aFinal = aOpening ∧ bFinal = bOpening) .opening

end CommonFoundry.Consensus
