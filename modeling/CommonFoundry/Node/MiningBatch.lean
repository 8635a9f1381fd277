/-
# `CommonFoundry.Node.MiningBatch` — completing the batch of an accelerator

`complete_accelerator_batch` of `MiningJob`, `MiningWork` and `PoolMiningWork`: the outputs of
an accelerator are looked through in order, and the first that claims to be good enough is
computed again.  The three copies are one scan (`completeBatch`) with their own targets and
findings.

On honest outputs the scan gives what a search of the same nonces gives, nonce by nonce
(`scanOutputs_honest`).  On any outputs, what it finds is what the verifier computes
(`scanOutputs_sound`), and a claim that does not recompute ends it with an error
(`scanOutputs_mismatch`).
-/
import CommonFoundry.Consensus.HonestOutput
import CommonFoundry.Lib.Blocks
import CommonFoundry.Node.Mining

namespace CommonFoundry

open Lib Lib.Outcome

/-! ## The scan -/

section

variable {ε ρ : Type} (P : Platform) (X : Xof) (powError : PowFault → ε) (verifier : PowVerifier)
variable (challenge : BlockChallenge) (batch : ForgeMatrixV2AcceleratorBatch) (target : Bytes32)
variable (finding : UInt64 → BlockProof → Bytes32 → ρ)

/-- The loop over the outputs, from output `index` on. -/
def scanOutputs : Nat → List (List UInt8) → Outcome ε (SearchResult ρ)
  | _, [] =>
      .ok (.exhausted batch.count.toUInt64 (batch.startNonce + batch.count.toUInt64))
  | index, output :: rest => do
      let workDigest ← mapErr (powError ∘ .v2) (batch.candidateWorkDigest P index output)
      if workDigest ≤ target then do
        let proof ← mapErr powError
          (verifier.verifyV2AcceleratorCandidate P X challenge batch index workDigest)
        let nonce ← okOr (batch.nonceAt index) (powError (.v2 .acceleratorOutputShape))
        pure (.found (finding nonce proof workDigest) (UInt64.ofNat index + 1) (nonce + 1))
      else scanOutputs (index + 1) rest

/-- `chunks_exact` aborts when the chunks are empty. -/
def completeBatch (outputs : List UInt8) : Outcome ε (SearchResult ρ) := do
  mapErr powError (verifier.validateV2AcceleratorBatch challenge batch)
  let expectedLen := batch.count.toNat * (batch.activationLen % 2 ^ 32)
  require (expectedLen < 2 ^ 32) (powError (.v2 .acceleratorOutputShape))
  require (outputs.length = expectedLen) (powError (.v2 .acceleratorOutputShape))
  if batch.activationLen = 0 then .error .panic
  else
    scanOutputs P X powError verifier challenge batch target finding 0
      (blocks batch.activationLen (outputs.length / batch.activationLen) outputs)

end

namespace SearchJob

variable (P : Platform) (X : Xof)

def prepareAcceleratorBatch (job : SearchJob) (startNonce : UInt64) (count : UInt32) :
    Outcome SearchError ForgeMatrixV2AcceleratorBatch :=
  mapErr .pow (job.verifier.prepareV2AcceleratorBatch P X job.template.challenge startNonce count)

def completeAcceleratorBatch (job : SearchJob) (batch : ForgeMatrixV2AcceleratorBatch)
    (outputs : List UInt8) (shareTarget : Bytes32) :
    Outcome SearchError (SearchResult FoundShare) := do
  job.validateShareTarget shareTarget
  completeBatch P X .pow job.verifier job.template.challenge batch shareTarget
    (fun _ proof workDigest => {
      proof, workDigest, meetsChainTarget := workDigest ≤ job.template.challenge.target }) outputs

end SearchJob

structure MiningWork where
  challenge : BlockChallenge
  verifier : PowVerifier

/-- `MiningJob::work`. -/
def SearchJob.work (job : SearchJob) : MiningWork where
  challenge := job.template.challenge
  verifier := job.verifier

def MiningWork.completeAcceleratorBatch (P : Platform) (X : Xof) (work : MiningWork)
    (batch : ForgeMatrixV2AcceleratorBatch) (outputs : List UInt8) :
    Outcome SearchError (SearchResult FoundShare) :=
  completeBatch P X .pow work.verifier work.challenge batch work.challenge.target
    (fun _ proof workDigest => { proof, workDigest, meetsChainTarget := true }) outputs

def PoolMiningWork.completeAcceleratorBatch (P : Platform) (X : Xof) (work : PoolMiningWork)
    (batch : ForgeMatrixV2AcceleratorBatch) (outputs : List UInt8) :
    Outcome PoolSearchError (SearchResult FoundPoolShare) :=
  completeBatch P X .pow work.verifier work.job.challenge batch work.job.shareTarget
    (fun nonce _ workDigest => {
      nonce, workDigest, meetsChainTarget := workDigest ≤ work.job.challenge.target }) outputs

/-! ## Honest outputs -/

/-- The outputs of a batch are the final activations of its nonces, one after the other. -/
def HonestOutputs (P : Platform) (X : Xof) (reference : ForgeMatrixV2Reference)
    (batch : ForgeMatrixV2AcceleratorBatch) (outputs : List UInt8) : Prop :=
  ∃ parts, outputs = parts.flatten ∧
    List.Forall₂ (HonestOutput P X reference batch.block)
      (noncesFrom batch.startNonce batch.count.toNat) parts

/-- Nobody cancels. -/
def neverCancel (env : Unit) : Bool × Unit := (false, env)

section

variable {ε ρ : Type} {P : Platform} {X : Xof} {powError : PowFault → ε}
variable {reference : ForgeMatrixV2Reference} {challenge : BlockChallenge}
variable {startNonce : UInt64} {count : UInt32} {batch : ForgeMatrixV2AcceleratorBatch}
variable {target : Bytes32} {finding : UInt64 → BlockProof → Bytes32 → ρ}
variable (hbatch : PreparedBatch P X reference challenge startNonce count batch)
variable (hreference : reference.WellFormed P)

include hbatch hreference

/-- One turn of a search tries a nonce as the scan looks at its honest output. -/
def TriesLike (P : Platform) (X : Xof) (reference : ForgeMatrixV2Reference)
    (challenge : BlockChallenge) (target : Bytes32) (finding : UInt64 → BlockProof → Bytes32 → ρ)
    (tryNonce : UInt64 → Outcome ε (Option ρ)) : Prop :=
  ∀ nonce proof, reference.proveCompact P X challenge nonce = .ok proof →
    tryNonce nonce = .ok (if proof.workDigest ≤ target then
      some (finding nonce (.v2Reference proof) proof.workDigest) else none)

/-- On honest outputs the scan is the search. -/
theorem scanOutputs_honest {tryNonce : UInt64 → Outcome ε (Option ρ)}
    (htry : TriesLike P X reference challenge target finding tryNonce)
    {remaining index : Nat} {parts : List (List UInt8)} (hcount : index + remaining = count.toNat)
    (hparts : List.Forall₂ (HonestOutput P X reference challenge)
      (noncesFrom (startNonce + UInt64.ofNat index) remaining) parts) :
    scanOutputs P X powError (.v2Reference reference) challenge batch target finding index parts =
      (searchLoop tryNonce neverCancel startNonce remaining (UInt64.ofNat index) ()).result := by
  induction remaining generalizing index parts with
  | zero =>
      obtain rfl : parts = [] := List.forall₂_nil_left_iff.mp hparts
      have hlt : index < 2 ^ 64 := by
        have := count.toNat_lt
        omega
      have hword : batch.count.toUInt64 = UInt64.ofNat index := by
        rw [hbatch.countEq, ← UInt64.toNat_inj, UInt32.toNat_toUInt64,
          UInt64.toNat_ofNat_of_lt' hlt]
        omega
      rw [scanOutputs, searchLoop, hword, hbatch.start]
  | succ remaining ih =>
      rw [noncesFrom_succ] at hparts
      obtain ⟨output, rest, houtput, hrest, rfl⟩ := List.forall₂_cons_left_iff.mp hparts
      have hindex : index < count.toNat := by omega
      have hnext : UInt64.ofNat index + 1 = UInt64.ofNat (index + 1) :=
        (UInt64.ofNat_add index 1).symm
      obtain ⟨proof, hproof, hdigest⟩ := candidateWorkDigest_honest hbatch hreference hindex houtput
      rw [scanOutputs, searchLoop, hdigest, mapErr_ok, ok_bind]
      dsimp only [neverCancel]
      rw [htry _ proof hproof]
      by_cases hbelow : proof.workDigest ≤ target
      · rw [if_pos hbelow, if_pos hbelow, PowVerifier.verifyV2AcceleratorCandidate,
          hbatch.verifyAcceleratorCandidate hindex hproof, if_pos rfl, hbatch.nonceAt hindex]
        rfl
      · rw [if_neg hbelow, if_neg hbelow]
        dsimp only
        rw [hnext]
        refine ih (by omega) ?_
        rw [← hnext, ← UInt64.add_assoc]
        exact hrest

/-- The checks before the scan pass on honest outputs. -/
theorem completeBatch_honest {tryNonce : UInt64 → Outcome ε (Option ρ)}
    (htry : TriesLike P X reference challenge target finding tryNonce)
    (hmodel : 0 < reference.rows * reference.width) {outputs : List UInt8}
    (houtputs : HonestOutputs P X reference batch outputs) :
    completeBatch P X powError (.v2Reference reference) challenge batch target finding outputs =
      (searchLoop tryNonce neverCancel startNonce count.toNat 0 ()).result := by
  obtain ⟨parts, rfl, hparts⟩ := houtputs
  rw [hbatch.blockEq, hbatch.start, hbatch.countEq] at hparts
  have hsize : ∀ part ∈ parts, part.length = reference.rows * reference.width := by
    intro part hmem
    obtain ⟨i, hi, rfl⟩ := List.getElem_of_mem hmem
    obtain ⟨proof, hproof, hbytes⟩ :=
      (List.forall₂_iff_get.mp hparts).2 i (by rw [hparts.length_eq]; exact hi) hi
    obtain ⟨_, hfinal⟩ := isActivation_finalActivation X hreference hproof
    exact (activationBytes_eq_ok hbytes).1.trans hfinal.length
  have hlength : parts.length = count.toNat := by
    rw [← hparts.length_eq, noncesFrom, List.length_map, List.length_range]
  have hflatten := length_flatten_of_forall hsize
  -- 65536 outputs of at most 128 bytes
  have hcells : reference.rows * reference.width ≤ 4 * 32 :=
    Nat.mul_le_mul hreference.rows hreference.width
  have htotal : count.toNat * (reference.rows * reference.width) ≤ 65536 * (4 * 32) :=
    Nat.mul_le_mul hbatch.count_le hcells
  have hlen : batch.count.toNat * (batch.activationLen % 2 ^ 32) = parts.flatten.length := by
    rw [hbatch.countEq, hbatch.activationLen, hflatten, hlength, Nat.mod_eq_of_lt (by omega)]
  have hne : batch.activationLen ≠ 0 := by
    rw [hbatch.activationLen]
    omega
  have hblocks : blocks batch.activationLen (parts.flatten.length / batch.activationLen)
      parts.flatten = parts := by
    rw [hflatten, hbatch.activationLen, Nat.mul_div_cancel _ hmodel]
    exact blocks_flatten hsize
  have hstart : startNonce + UInt64.ofNat 0 = startNonce := UInt64.add_zero startNonce
  rw [completeBatch, PowVerifier.validateV2AcceleratorBatch, require_pos hbatch.matchesStatement,
    mapErr_ok, ok_bind]
  dsimp only
  rw [hlen, require_pos (by rw [hflatten, hlength]; omega), ok_bind, require_pos rfl, ok_bind,
    if_neg hne, hblocks]
  refine scanOutputs_honest hbatch hreference htry (Nat.zero_add count.toNat) ?_
  rw [hstart]
  exact hparts

end

/-! ## Any outputs -/

section

variable {ε ρ : Type} {P : Platform} {X : Xof} {powError : PowFault → ε}
variable {verifier : PowVerifier} {challenge : BlockChallenge}
variable {batch : ForgeMatrixV2AcceleratorBatch} {target : Bytes32}
variable {finding : UInt64 → BlockProof → Bytes32 → ρ}

/-- A candidate that is verified is the one that the verifier evaluates. -/
theorem evaluate_of_verifyV2AcceleratorCandidate {index : Nat} {claimed : Bytes32}
    {proof : BlockProof}
    (h : verifier.verifyV2AcceleratorCandidate P X challenge batch index claimed = .ok proof) :
    ∃ nonce, batch.nonceAt index = some nonce ∧ verifier.evaluate P X challenge nonce = .ok proof ∧
      proof.workDigest = claimed := by
  cases verifier with
  | v1Legacy verifier => exact absurd h fail_ne_ok
  | v2Reference reference =>
      simp only [PowVerifier.verifyV2AcceleratorCandidate,
        ForgeMatrixV2Reference.verifyAcceleratorCandidate, bind_eq_ok, mapErr_eq_ok, pure_eq_ok,
        require_eq_ok, okOr_eq_ok] at h
      obtain ⟨compact, ⟨_, _, nonce, hnonce, found, hfound, _, hdigest, rfl⟩, rfl⟩ := h
      refine ⟨nonce, hnonce, ?_, hdigest⟩
      rw [PowVerifier.evaluate, hfound]
      rfl

/-- What a scan may answer: that nothing was good enough, or a share that the verifier
evaluates for its nonce, at most the target. -/
def SoundAnswer (P : Platform) (X : Xof) (verifier : PowVerifier) (challenge : BlockChallenge)
    (batch : ForgeMatrixV2AcceleratorBatch) (target : Bytes32)
    (finding : UInt64 → BlockProof → Bytes32 → ρ) : SearchResult ρ → Prop
  | .found value attempts next => ∃ index nonce proof, batch.nonceAt index = some nonce ∧
      verifier.evaluate P X challenge nonce = .ok proof ∧ proof.workDigest ≤ target ∧
      value = finding nonce proof proof.workDigest ∧ attempts = UInt64.ofNat index + 1 ∧
      next = nonce + 1
  | .exhausted attempts next =>
      attempts = batch.count.toUInt64 ∧ next = batch.startNonce + batch.count.toUInt64
  | .cancelled _ _ => False

theorem scanOutputs_sound {index : Nat} {outputs : List (List UInt8)} {answer : SearchResult ρ}
    (h : scanOutputs P X powError verifier challenge batch target finding index outputs =
      .ok answer) : SoundAnswer P X verifier challenge batch target finding answer := by
  induction outputs generalizing index with
  | nil =>
      cases h
      exact ⟨rfl, rfl⟩
  | cons output rest ih =>
      rw [scanOutputs] at h
      obtain ⟨workDigest, _, h⟩ := bind_eq_ok.mp h
      split at h
      · next hbelow =>
          obtain ⟨proof, hproof, h⟩ := bind_eq_ok.mp h
          obtain ⟨nonce, hnonce, h⟩ := bind_eq_ok.mp h
          cases pure_eq_ok.mp h
          obtain ⟨nonce', hnonce', hevaluate, rfl⟩ :=
            evaluate_of_verifyV2AcceleratorCandidate (mapErr_eq_ok.mp hproof)
          cases hnonce'.symm.trans (okOr_eq_ok.mp hnonce)
          exact ⟨index, nonce, proof, hnonce', hevaluate, hbelow, rfl, rfl, rfl⟩
      · exact ih h

theorem completeBatch_sound {outputs : List UInt8} {answer : SearchResult ρ}
    (h : completeBatch P X powError verifier challenge batch target finding outputs =
      .ok answer) : SoundAnswer P X verifier challenge batch target finding answer := by
  obtain ⟨_, _, h⟩ := bind_eq_ok.mp h
  obtain ⟨_, _, h⟩ := bind_eq_ok.mp h
  obtain ⟨_, _, h⟩ := bind_eq_ok.mp h
  split at h
  · cases h
  · exact scanOutputs_sound h

end

section

variable {ε ρ : Type} {P : Platform} {X : Xof} (powError : PowFault → ε)
variable {reference : ForgeMatrixV2Reference} {challenge : BlockChallenge}
variable {startNonce : UInt64} {count : UInt32} {batch : ForgeMatrixV2AcceleratorBatch}
variable {target : Bytes32} (finding : UInt64 → BlockProof → Bytes32 → ρ)
variable (hbatch : PreparedBatch P X reference challenge startNonce count batch)
variable (hreference : reference.WellFormed P)

include hbatch hreference

/-- The first output that claims to be good enough ends the scan: with an error, if its claim
does not recompute. -/
theorem scanOutputs_mismatch {outputs : List (List UInt8)} (index bad : Nat)
    {claimed : Bytes32} (hbad : index + bad < count.toNat) {output : List UInt8}
    (houtput : outputs[bad]? = some output)
    (hclaim : batch.candidateWorkDigest P (index + bad) output = .ok claimed)
    (hbelow : claimed ≤ target)
    (hearlier : ∀ i < bad, ∀ earlier, outputs[i]? = some earlier →
      ∃ digest, batch.candidateWorkDigest P (index + i) earlier = .ok digest ∧ ¬digest ≤ target)
    (hfalse : ∀ proof, reference.proveCompact P X challenge
      (startNonce + UInt64.ofNat (index + bad)) = .ok proof → proof.workDigest ≠ claimed) :
    scanOutputs P X powError (.v2Reference reference) challenge batch target finding index outputs =
      fail (powError (.v2 .acceleratorMismatch)) := by
  induction bad generalizing index outputs with
  | zero =>
      obtain ⟨rest, rfl⟩ : ∃ rest, outputs = output :: rest := by
        cases outputs with
        | nil => cases houtput
        | cons first rest => exact ⟨rest, by rw [List.getElem?_cons_zero] at houtput; cases houtput; rfl⟩
      rw [Nat.add_zero] at hbad hclaim hfalse
      obtain ⟨proof, hproof, _⟩ := compact_agrees X hreference
        (startNonce + UInt64.ofNat index) hbatch.network
      rw [scanOutputs, hclaim, mapErr_ok, ok_bind, if_pos hbelow, PowVerifier.verifyV2AcceleratorCandidate,
        hbatch.verifyAcceleratorCandidate hbad hproof, if_neg (hfalse proof hproof)]
      rfl
  | succ bad ih =>
      obtain ⟨first, rest, rfl⟩ : ∃ first rest, outputs = first :: rest := by
        cases outputs with
        | nil => cases houtput
        | cons first rest => exact ⟨first, rest, rfl⟩
      obtain ⟨digest, hdigest, habove⟩ := hearlier 0 (Nat.succ_pos bad) first rfl
      rw [scanOutputs, show batch.candidateWorkDigest P index first = .ok digest from hdigest,
        mapErr_ok, ok_bind, if_neg habove]
      have hshift : ∀ i, index + 1 + i = index + (i + 1) := by omega
      refine ih (index + 1) (by omega) houtput ?_ (fun i hi earlier hget => ?_) fun proof hproof => ?_
      · rw [hshift]
        exact hclaim
      · rw [hshift]
        exact hearlier (i + 1) (by omega) earlier hget
      · rw [hshift] at hproof
        exact hfalse proof hproof

/-- The same for the whole batch: it is refused. -/
theorem completeBatch_mismatch {outputs output : List UInt8} {bad : Nat} {claimed : Bytes32}
    (hmodel : 0 < reference.rows * reference.width)
    (houtput : (blocks batch.activationLen count.toNat outputs)[bad]? = some output)
    (hclaim : batch.candidateWorkDigest P bad output = .ok claimed) (hbelow : claimed ≤ target)
    (hearlier : ∀ i < bad, ∀ earlier,
      (blocks batch.activationLen count.toNat outputs)[i]? = some earlier →
        ∃ digest, batch.candidateWorkDigest P i earlier = .ok digest ∧ ¬digest ≤ target)
    (hfalse : ∀ proof, reference.proveCompact P X challenge (startNonce + UInt64.ofNat bad) =
      .ok proof → proof.workDigest ≠ claimed) :
    ∃ fault, completeBatch P X powError (.v2Reference reference) challenge batch target finding
      outputs = .error fault := by
  rw [completeBatch]
  dsimp only
  cases hvalid : mapErr powError
      ((PowVerifier.v2Reference reference).validateV2AcceleratorBatch challenge batch) with
  | error fault => exact ⟨fault, rfl⟩
  | ok u =>
      rw [ok_bind]
      by_cases hfits : batch.count.toNat * (batch.activationLen % 2 ^ 32) < 2 ^ 32
      case neg =>
        rw [require_neg hfits]
        exact ⟨_, rfl⟩
      by_cases hlength : outputs.length = batch.count.toNat * (batch.activationLen % 2 ^ 32)
      case neg =>
        rw [require_pos hfits, ok_bind, require_neg hlength]
        exact ⟨_, rfl⟩
      have hcells : reference.rows * reference.width ≤ 4 * 32 :=
        Nat.mul_le_mul hreference.rows hreference.width
      have hne : batch.activationLen ≠ 0 := by
        rw [hbatch.activationLen]
        omega
      have hcut : outputs.length / batch.activationLen = count.toNat := by
        rw [hlength, hbatch.countEq, hbatch.activationLen, Nat.mod_eq_of_lt (by omega),
          Nat.mul_div_cancel _ hmodel]
      have hbad : bad < count.toNat := by
        obtain ⟨hlt, _⟩ := List.getElem?_eq_some_iff.mp houtput
        rwa [length_blocks] at hlt
      have hscan := scanOutputs_mismatch powError finding hbatch hreference 0 bad (by omega) houtput
        (by rwa [Nat.zero_add]) hbelow (by simpa only [Nat.zero_add] using hearlier)
        (by rwa [Nat.zero_add])
      rw [require_pos hfits, ok_bind, require_pos hlength, ok_bind, if_neg hne, hcut, hscan]
      exact ⟨_, rfl⟩

end

/-! ## The three copies -/

section

variable (P : Platform) (X : Xof) {reference : ForgeMatrixV2Reference}

theorem SearchJob.tryShare_triesLike {job : SearchJob} (hverifier : job.verifier = .v2Reference reference)
    (shareTarget : Bytes32) :
    TriesLike P X reference job.template.challenge shareTarget
      (fun _ proof workDigest => {
        proof, workDigest, meetsChainTarget := workDigest ≤ job.template.challenge.target })
      (job.tryShare P X shareTarget) := by
  intro nonce proof hproof
  rw [SearchJob.tryShare, SearchJob.evaluateShareUnchecked, hverifier, PowVerifier.evaluate, hproof]
  by_cases hbelow : proof.workDigest ≤ shareTarget
  · rw [if_pos hbelow]
    exact if_pos (decide_eq_true hbelow)
  · rw [if_neg hbelow]
    exact if_neg fun h => hbelow (of_decide_eq_true h)

/-- Below the chain target itself, every share meets it. -/
theorem SearchJob.tryShare_triesLike_work {job : SearchJob}
    (hverifier : job.verifier = .v2Reference reference) :
    TriesLike P X reference job.template.challenge job.template.challenge.target
      (fun _ proof workDigest => { proof, workDigest, meetsChainTarget := true })
      (job.tryShare P X job.template.challenge.target) := by
  intro nonce proof hproof
  rw [SearchJob.tryShare_triesLike P X hverifier _ nonce proof hproof]
  split
  · next hbelow =>
      dsimp only
      rw [decide_eq_true hbelow]
  · rfl

theorem PoolMiningWork.tryShare_triesLike {work : PoolMiningWork}
    (hverifier : work.verifier = .v2Reference reference) :
    TriesLike P X reference work.job.challenge work.job.shareTarget
      (fun nonce _ workDigest => {
        nonce, workDigest, meetsChainTarget := workDigest ≤ work.job.challenge.target })
      (work.tryShare P X) := by
  intro nonce proof hproof
  rw [PoolMiningWork.tryShare, hverifier, PowVerifier.evaluate, hproof]
  by_cases hbelow : proof.workDigest ≤ work.job.shareTarget
  · rw [if_pos hbelow]
    exact if_pos hbelow
  · rw [if_neg hbelow]
    exact if_neg hbelow

end

def BlockProof.nonce : BlockProof → UInt64
  | .v1Legacy proof => proof.nonce
  | .v2Reference proof => proof.nonce

/-- A share of the node, as the pool reports it. -/
def FoundShare.forPool (share : FoundShare) : FoundPoolShare where
  nonce := share.proof.nonce
  workDigest := share.workDigest
  meetsChainTarget := share.meetsChainTarget

section

variable {P : Platform} {X : Xof} {reference : ForgeMatrixV2Reference} {job : SearchJob}
variable {pool : PoolMiningWork} {startNonce : UInt64} {count : UInt32}
variable {batch : ForgeMatrixV2AcceleratorBatch} {outputs : List UInt8}
variable (hreference : reference.WellFormed P) (hjob : job.verifier = .v2Reference reference)
variable (hbatch : PreparedBatch P X reference job.template.challenge startNonce count batch)
variable (houtputs : HonestOutputs P X reference batch outputs)

include hreference hbatch

omit hreference in
/-- A batch is a number of attempts that a search allows. -/
theorem PreparedBatch.attempts : 1 ≤ count.toUInt64.toNat ∧
    count.toUInt64.toNat ≤ maxMiningSearchAttempts.toNat := by
  have hmax : maxMiningSearchAttempts.toNat = 1000000 := rfl
  have hpos := hbatch.count_pos
  have hle := hbatch.count_le
  rw [UInt32.toNat_toUInt64]
  omega

include hjob houtputs

theorem SearchJob.completeAcceleratorBatch_honest (shareTarget : Bytes32) :
    job.completeAcceleratorBatch P X batch outputs shareTarget =
      (job.searchShareRange P X shareTarget neverCancel startNonce count.toUInt64 ()).result := by
  obtain ⟨hone, hle⟩ := hbatch.attempts
  rw [SearchJob.searchShareRange, boundedSearch_eq _ _ _ _ hone hle,
    SearchJob.completeAcceleratorBatch]
  rcases job.validateShareTarget shareTarget with fault | u
  · rfl
  · rw [ok_bind, hjob, completeBatch_honest hbatch hreference
      (SearchJob.tryShare_triesLike P X hjob shareTarget)
      (Nat.mul_pos hreference.rowsPower.1 hreference.widthPower.1) houtputs]
    rfl

theorem MiningWork.completeAcceleratorBatch_honest :
    job.work.completeAcceleratorBatch P X batch outputs =
      (job.searchShareRange P X job.template.challenge.target neverCancel startNonce
        count.toUInt64 ()).result := by
  obtain ⟨hone, hle⟩ := hbatch.attempts
  have htarget : job.validateShareTarget job.template.challenge.target = .ok () :=
    require_pos (lt_irrefl _)
  rw [SearchJob.searchShareRange, boundedSearch_eq _ _ _ _ hone hle, htarget,
    MiningWork.completeAcceleratorBatch]
  dsimp only [SearchJob.work]
  rw [hjob, completeBatch_honest hbatch hreference (SearchJob.tryShare_triesLike_work P X hjob)
    (Nat.mul_pos hreference.rowsPower.1 hreference.widthPower.1) houtputs]
  rfl

variable (hpool : pool.verifier = .v2Reference reference)
variable (hchallenge : pool.job.challenge = job.template.challenge)

include hpool hchallenge

omit hjob in
theorem PoolMiningWork.completeAcceleratorBatch_honest :
    pool.completeAcceleratorBatch P X batch outputs =
      (pool.searchRange P X neverCancel startNonce count.toUInt64 ()).result := by
  obtain ⟨hone, hle⟩ := hbatch.attempts
  rw [← hchallenge] at hbatch
  rw [PoolMiningWork.searchRange, boundedSearch_eq _ _ _ _ hone hle,
    PoolMiningWork.completeAcceleratorBatch, hpool, completeBatch_honest hbatch hreference
      (PoolMiningWork.tryShare_triesLike P X hpool)
      (Nat.mul_pos hreference.rowsPower.1 hreference.widthPower.1) houtputs]
  rfl

omit houtputs in
/-- The search of the pool finds what the search of the node finds. -/
theorem PoolMiningWork.searchRange_forPool {answer : SearchResult FoundShare}
    (h : (job.searchShareRange P X pool.job.shareTarget neverCancel startNonce
      count.toUInt64 ()).result = .ok answer) :
    (pool.searchRange P X neverCancel startNonce count.toUInt64 ()).result =
      .ok (answer.map FoundShare.forPool) := by
  obtain ⟨hone, hle⟩ := hbatch.attempts
  have htry : ∀ nonce, ∃ found, job.tryShare P X pool.job.shareTarget nonce = .ok found ∧
      pool.tryShare P X nonce = .ok (found.map FoundShare.forPool) := by
    intro nonce
    obtain ⟨proof, hproof, hnonce, _⟩ := compact_agrees X hreference nonce hbatch.network
    refine ⟨_, SearchJob.tryShare_triesLike P X hjob _ nonce proof hproof, ?_⟩
    rw [PoolMiningWork.tryShare_triesLike P X hpool nonce proof (hchallenge ▸ hproof), hchallenge]
    split
    · rw [← hnonce]
      rfl
    · rfl
  obtain ⟨answer', hnode, hfor⟩ := searchLoop_map FoundShare.forPool htry neverCancel startNonce
    count.toUInt64.toNat 0 ()
  rw [SearchJob.searchShareRange, boundedSearch_eq _ _ _ _ hone hle] at h
  rw [PoolMiningWork.searchRange, boundedSearch_eq _ _ _ _ hone hle]
  cases hvalid : job.validateShareTarget pool.job.shareTarget with
  | error fault =>
      rw [hvalid] at h
      cases h
  | ok u =>
      rw [hvalid] at h
      cases hnode.symm.trans h
      exact hfor

end

/-- An output claims to be good enough, no output before it does, and the verifier computes
another digest for its nonce. -/
def FalseClaim (P : Platform) (X : Xof) (reference : ForgeMatrixV2Reference)
    (batch : ForgeMatrixV2AcceleratorBatch) (target : Bytes32) (outputs : List UInt8) : Prop :=
  ∃ (bad : Nat) (output : List UInt8) (claimed : Bytes32),
    (blocks batch.activationLen batch.count.toNat outputs)[bad]? = some output ∧
    batch.candidateWorkDigest P bad output = .ok claimed ∧ claimed ≤ target ∧
    (∀ i < bad, ∀ earlier,
      (blocks batch.activationLen batch.count.toNat outputs)[i]? = some earlier →
        ∃ digest, batch.candidateWorkDigest P i earlier = .ok digest ∧ ¬digest ≤ target) ∧
    ∀ proof, reference.proveCompact P X batch.block (batch.startNonce + UInt64.ofNat bad) =
      .ok proof → proof.workDigest ≠ claimed

/-- For every template and every batch: on honest outputs each copy answers as its search
does; what any outputs lead to is a share that the verifier evaluates; and a false claim is
an error. -/
theorem accelerated_search_agrees (P : Platform) (X : Xof) (blake3 : List UInt8 → Bytes32)
    {descriptor : ForgeMatrixV2Descriptor} {baseInput : List UInt8} {weights : List (List UInt8)}
    {reference : ForgeMatrixV2Reference}
    (hreference : ForgeMatrixV2Reference.fromExplicitModel P blake3 descriptor baseInput weights =
      .ok reference)
    {job : SearchJob} {pool : PoolMiningWork} (hjob : job.verifier = .v2Reference reference)
    (hpool : pool.verifier = .v2Reference reference)
    (hchallenge : pool.job.challenge = job.template.challenge) {startNonce : UInt64}
    {count : UInt32} {batch : ForgeMatrixV2AcceleratorBatch}
    (hbatch : job.prepareAcceleratorBatch P X startNonce count = .ok batch)
    (shareTarget : Bytes32) :
    (∀ outputs, HonestOutputs P X reference batch outputs →
      job.completeAcceleratorBatch P X batch outputs shareTarget =
          (job.searchShareRange P X shareTarget neverCancel startNonce count.toUInt64 ()).result ∧
        job.work.completeAcceleratorBatch P X batch outputs =
          (job.searchShareRange P X job.template.challenge.target neverCancel startNonce
            count.toUInt64 ()).result ∧
        pool.completeAcceleratorBatch P X batch outputs =
          (pool.searchRange P X neverCancel startNonce count.toUInt64 ()).result ∧
        ∀ answer, (job.searchShareRange P X pool.job.shareTarget neverCancel startNonce
            count.toUInt64 ()).result = .ok answer →
          pool.completeAcceleratorBatch P X batch outputs = .ok (answer.map FoundShare.forPool)) ∧
      (∀ outputs answer,
        (job.completeAcceleratorBatch P X batch outputs shareTarget = .ok answer →
          SoundAnswer P X job.verifier job.template.challenge batch shareTarget
            (fun _ proof workDigest => {
              proof, workDigest, meetsChainTarget := workDigest ≤ job.template.challenge.target })
            answer) ∧
        (job.work.completeAcceleratorBatch P X batch outputs = .ok answer →
          SoundAnswer P X job.verifier job.template.challenge batch job.template.challenge.target
            (fun _ proof workDigest => { proof, workDigest, meetsChainTarget := true }) answer)) ∧
      (∀ outputs answer, pool.completeAcceleratorBatch P X batch outputs = .ok answer →
        SoundAnswer P X pool.verifier pool.job.challenge batch pool.job.shareTarget
          (fun nonce _ workDigest => {
            nonce, workDigest, meetsChainTarget := workDigest ≤ pool.job.challenge.target })
          answer) ∧
      ∀ outputs,
        (FalseClaim P X reference batch shareTarget outputs →
          ∃ fault, job.completeAcceleratorBatch P X batch outputs shareTarget = .error fault) ∧
        (FalseClaim P X reference batch job.template.challenge.target outputs →
          ∃ fault, job.work.completeAcceleratorBatch P X batch outputs = .error fault) ∧
        (FalseClaim P X reference batch pool.job.shareTarget outputs →
          ∃ fault, pool.completeAcceleratorBatch P X batch outputs = .error fault) := by
  have hformed := wellFormed_of_fromExplicitModel hreference
  have hcells := Nat.mul_pos hformed.rowsPower.1 hformed.widthPower.1
  rw [SearchJob.prepareAcceleratorBatch, hjob, mapErr_eq_ok, PowVerifier.prepareV2AcceleratorBatch,
    mapErr_eq_ok] at hbatch
  have hprepared := preparedBatch_of_eq_ok hbatch
  have hpoolBatch : PreparedBatch P X reference pool.job.challenge startNonce count batch := by
    rw [hchallenge]
    exact hprepared
  refine ⟨fun outputs houtputs => ⟨?_, ?_, ?_, fun answer hanswer => ?_⟩,
    fun outputs answer => ⟨fun h => ?_, fun h => ?_⟩, fun outputs answer h => ?_,
    fun outputs => ⟨?_, ?_, ?_⟩⟩
  · exact SearchJob.completeAcceleratorBatch_honest hformed hjob hprepared houtputs shareTarget
  · exact MiningWork.completeAcceleratorBatch_honest hformed hjob hprepared houtputs
  · exact PoolMiningWork.completeAcceleratorBatch_honest hformed hprepared houtputs hpool hchallenge
  · rw [PoolMiningWork.completeAcceleratorBatch_honest hformed hprepared houtputs hpool hchallenge]
    exact PoolMiningWork.searchRange_forPool hformed hjob hprepared hpool hchallenge hanswer
  · obtain ⟨_, _, h⟩ := bind_eq_ok.mp h
    exact completeBatch_sound h
  · exact completeBatch_sound h
  · exact completeBatch_sound h
  · rintro ⟨bad, output, claimed, houtput, hclaim, hbelow, hearlier, hfalse⟩
    rw [hprepared.countEq] at houtput hearlier
    rw [hprepared.blockEq, hprepared.start] at hfalse
    rw [SearchJob.completeAcceleratorBatch, hjob]
    rcases job.validateShareTarget shareTarget with fault | u
    · exact ⟨fault, rfl⟩
    · exact completeBatch_mismatch _ _ hprepared hformed hcells houtput hclaim hbelow hearlier hfalse
  · rintro ⟨bad, output, claimed, houtput, hclaim, hbelow, hearlier, hfalse⟩
    rw [hprepared.countEq] at houtput hearlier
    rw [hprepared.blockEq, hprepared.start] at hfalse
    rw [MiningWork.completeAcceleratorBatch, SearchJob.work, hjob]
    exact completeBatch_mismatch _ _ hprepared hformed hcells houtput hclaim hbelow hearlier hfalse
  · rintro ⟨bad, output, claimed, houtput, hclaim, hbelow, hearlier, hfalse⟩
    rw [hpoolBatch.countEq] at houtput hearlier
    rw [hpoolBatch.blockEq, hpoolBatch.start] at hfalse
    rw [PoolMiningWork.completeAcceleratorBatch, hpool]
    exact completeBatch_mismatch _ _ hpoolBatch hformed hcells houtput hclaim hbelow hearlier hfalse

/-- The sample job, as the pool hands it out. -/
def samplePoolWork : PoolMiningWork where
  job := {
    jobId := zero32
    challenge := sampleSearchJob.template.challenge
    shareTarget := toBytes (2 ^ 255) }
  verifier := sampleSearchJob.verifier

/-- A batch of one nonce of the sample job. -/
theorem accelerated_search_agrees_sample :
    ∃ reference batch, sampleSearchJob.verifier = .v2Reference reference ∧
      sampleSearchJob.prepareAcceleratorBatch samplePlatform sampleXof 0 1 = .ok batch ∧
      ∀ outputs, HonestOutputs samplePlatform sampleXof reference batch outputs →
        sampleSearchJob.work.completeAcceleratorBatch samplePlatform sampleXof batch outputs =
          (sampleSearchJob.searchShareRange samplePlatform sampleXof
            sampleSearchJob.template.challenge.target neverCancel 0 (1 : UInt32).toUInt64
            ()).result := by
  have hformed := wellFormed_of_fromExplicitModel sampleReference_built
  have hprepare : ∃ batch,
      sampleSearchJob.prepareAcceleratorBatch samplePlatform sampleXof 0 1 = .ok batch := by
    obtain ⟨batch, hbatch⟩ := exists_prepareAcceleratorBatch sampleXof hformed
      (show sampleSearchJob.template.challenge.networkId = _ from rfl) 0
      (show (1 : UInt32) ≠ 0 by decide) (by decide)
    refine ⟨batch, ?_⟩
    rw [SearchJob.prepareAcceleratorBatch, mapErr_eq_ok, sampleSearchJob,
      PowVerifier.prepareV2AcceleratorBatch, mapErr_eq_ok]
    exact hbatch
  obtain ⟨batch, hbatch⟩ := hprepare
  refine ⟨_, batch, rfl, hbatch, fun outputs houtputs => ?_⟩
  exact ((accelerated_search_agrees samplePlatform sampleXof sampleDigest sampleReference_built rfl
    (show samplePoolWork.verifier = _ from rfl) rfl hbatch zero32).1 outputs houtputs).2.1

end CommonFoundry
