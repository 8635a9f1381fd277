/-
# `CommonFoundry.Consensus.HonestOutput` — what an honest accelerator gives back

The honest output of a nonce is the final activation of the reference proof, as bytes
(`HonestOutput`).  Every nonce of a prepared batch has one (`exists_honestOutput`), and the
digest that the batch computes from it is that of the compact proof
(`candidateWorkDigest_honest`).
-/
import CommonFoundry.Consensus.Accelerator
import CommonFoundry.Consensus.ForgeMatrixAgreement

namespace CommonFoundry

open Lib Lib.Outcome

/-- The activation that the proof ends with. -/
def ForgeMatrixV2ReferenceProof.finalActivation (proof : ForgeMatrixV2ReferenceProof) : List Int :=
  (proof.layers.getLast?.map (·.output)).getD proof.initialActivation

/-- The bytes of the final activation for a nonce. -/
def HonestOutput (P : Platform) (X : Xof) (reference : ForgeMatrixV2Reference)
    (block : BlockChallenge) (nonce : UInt64) (bytes : List UInt8) : Prop :=
  ∃ proof, reference.proveReference P X block nonce = .ok proof ∧
    activationBytes proof.finalActivation = .ok bytes

/-! ## The final activation -/

theorem proveLayers_final {X : Xof} {challenge : Bytes32} {rows width layerIndex : Nat}
    {activation final : List Int} {weights : List (List UInt8)} {layers : List LayerWitness}
    (h : proveLayers X challenge rows width layerIndex activation weights = .ok (layers, final)) :
    final = (layers.getLast?.map (·.output)).getD activation := by
  induction weights generalizing layerIndex activation layers with
  | nil =>
      rw [proveLayers, pure_eq_ok] at h
      cases h
      rfl
  | cons first rest ih =>
      rw [proveLayers] at h
      obtain ⟨made, _, h⟩ := bind_eq_ok.mp h
      obtain ⟨⟨later, last⟩, hrest, h⟩ := bind_eq_ok.mp h
      cases pure_eq_ok.mp h
      rw [ih hrest]
      cases later with
      | nil => rfl
      | cons layer later => rw [List.getLast?_cons_cons]; rfl

/-- The parts of a proof. -/
theorem proveReference_eq_ok {P : Platform} {X : Xof} {reference : ForgeMatrixV2Reference}
    {block : BlockChallenge} {nonce : UInt64} {proof : ForgeMatrixV2ReferenceProof}
    (h : reference.proveReference P X block nonce = .ok proof) :
    challengeDigest P reference.descriptor block nonce = .ok proof.challengeDigest ∧
      (∃ made, (cells reference.rows reference.width).mapM (proveInput
          (maskCoefficients X proof.challengeDigest inputMaskIndex reference.rows reference.width)
          reference.rows reference.width reference.baseInput) = .ok made ∧
        proof.initialActivation = made.map (·.2)) ∧
      proveLayers X proof.challengeDigest reference.rows reference.width 0 proof.initialActivation
        reference.weights = .ok (proof.layers, proof.finalActivation) ∧
      ∃ bytes, activationBytes proof.finalActivation = .ok bytes ∧
        proof.finalActivationDigest = outputDigest P proof.challengeDigest bytes ∧
        proof.workDigest = workDigest P reference.descriptor proof.challengeDigest
          proof.finalActivationDigest := by
  rw [ForgeMatrixV2Reference.proveReference] at h
  obtain ⟨challenge, hchallenge, h⟩ := bind_eq_ok.mp h
  obtain ⟨made, hmade, h⟩ := bind_eq_ok.mp h
  obtain ⟨⟨layers, final⟩, hlayers, h⟩ := bind_eq_ok.mp h
  obtain ⟨bytes, hbytes, h⟩ := bind_eq_ok.mp h
  cases pure_eq_ok.mp h
  have hfinal := proveLayers_final hlayers
  refine ⟨hchallenge, ⟨made, hmade, rfl⟩, ?_, bytes, ?_, rfl, rfl⟩
  · rw [hlayers, ForgeMatrixV2ReferenceProof.finalActivation, ← hfinal]
  · rw [ForgeMatrixV2ReferenceProof.finalActivation, ← hfinal, hbytes]

theorem activationBytes_eq_ok {values : List Int} {bytes : List UInt8}
    (h : activationBytes values = .ok bytes) :
    bytes.length = values.length ∧ ∀ byte ∈ bytes, byte ≤ 250 := by
  have hforall := mapM_eq_ok.mp h
  have hlength := hforall.length_eq
  refine ⟨hlength.symm, fun byte hmem => ?_⟩
  obtain ⟨i, hi, rfl⟩ := List.getElem_of_mem hmem
  have hentry := (List.forall₂_iff_get.mp hforall).2 i (by rw [hforall.length_eq]; exact hi) hi
  dsimp only at hentry
  split at hentry
  · next hrange =>
      have hbyte : UInt8.ofNat (values.get ⟨i, by omega⟩ + center).toNat = bytes[i] :=
        Except.ok.inj hentry
      have hle : (values.get ⟨i, by omega⟩ + center).toNat ≤ 250 := by omega
      rw [← hbyte, UInt8.le_iff_toNat_le, UInt8.toNat_ofNat', Nat.mod_eq_of_lt (by omega)]
      exact hle
  · exact absurd hentry fail_ne_ok

section

variable {P : Platform} (X : Xof) {reference : ForgeMatrixV2Reference} {block : BlockChallenge}
variable (hreference : reference.WellFormed P)

include hreference

/-- The final activation has a value for every cell. -/
theorem isActivation_finalActivation {nonce : UInt64} {proof : ForgeMatrixV2ReferenceProof}
    (h : reference.proveReference P X block nonce = .ok proof) :
    IsActivation reference.rows reference.width proof.initialActivation ∧
      IsActivation reference.rows reference.width proof.finalActivation := by
  obtain ⟨_, ⟨made, hmade, hinitial⟩, hlayers, _⟩ := proveReference_eq_ok h
  obtain ⟨made', hmade', hactivation, _⟩ := initial_agrees hreference
    (isMask_maskCoefficients X proof.challengeDigest inputMaskIndex reference.rows reference.width)
  cases hmade.symm.trans hmade'
  rw [← hinitial] at hactivation
  obtain ⟨_, _, hlayers', hfinal, _⟩ := layers_agree hreference.rows hreference.width X
    proof.challengeDigest hreference.weights 0 hactivation
  cases hlayers.symm.trans hlayers'
  exact ⟨hactivation, hfinal⟩

theorem exists_honestOutput (hnetwork : block.networkId = reference.descriptor.networkId)
    (nonce : UInt64) :
    ∃ bytes, HonestOutput P X reference block nonce bytes ∧
      bytes.length = reference.rows * reference.width ∧ ∀ byte ∈ bytes, byte ≤ 250 := by
  obtain ⟨proof, hproof, _⟩ := reference_agrees X hreference nonce hnetwork
  obtain ⟨_, _, _, bytes, hbytes, _⟩ := proveReference_eq_ok hproof
  obtain ⟨_, hfinal⟩ := isActivation_finalActivation X hreference hproof
  obtain ⟨hlength, hrange⟩ := activationBytes_eq_ok hbytes
  exact ⟨bytes, ⟨proof, hproof, hbytes⟩, hlength.trans hfinal.length, hrange⟩

end

/-! ## Batches -/

section

variable {P : Platform} {X : Xof} {reference : ForgeMatrixV2Reference} {block : BlockChallenge}
variable {startNonce : UInt64} {count : UInt32} {batch : ForgeMatrixV2AcceleratorBatch}

/-- A batch that was prepared. -/
structure PreparedBatch (P : Platform) (X : Xof) (reference : ForgeMatrixV2Reference)
    (block : BlockChallenge) (startNonce : UInt64) (count : UInt32)
    (batch : ForgeMatrixV2AcceleratorBatch) : Prop where
  network : block.networkId = reference.descriptor.networkId
  count_pos : 0 < count.toNat
  count_le : count.toNat ≤ 65536
  descriptor : batch.descriptor = reference.descriptor
  blockEq : batch.block = block
  start : batch.startNonce = startNonce
  countEq : batch.count = count
  activationLen : batch.activationLen = reference.rows * reference.width
  coefficientCount : batch.coefficientCount = 1 + reference.rows.log2 + reference.width.log2
  challenges : batch.challenges.length = count.toNat
  challenge : ∀ index challenge, batch.challenges[index]? = some challenge →
    challengeDigest P reference.descriptor block (startNonce + UInt64.ofNat index) = .ok challenge
  coefficients : batch.coefficients = batch.challenges.flatMap fun challenge =>
    nonceCoefficients X challenge reference.rows reference.width
      reference.descriptor.model.layers.toNat

theorem preparedBatch_of_eq_ok
    (h : reference.prepareAcceleratorBatch P X block startNonce count = .ok batch) :
    PreparedBatch P X reference block startNonce count batch := by
  simp only [ForgeMatrixV2Reference.prepareAcceleratorBatch, bind_eq_ok, require_eq_ok,
    pure_eq_ok, mapM_range_eq_ok] at h
  obtain ⟨_, hcount, _, hnetwork, _, _, _, _, challenges, ⟨hlength, hentries⟩, rfl⟩ := h
  push Not at hcount
  obtain ⟨hne, hmax⟩ := hcount
  have hle := UInt32.le_iff_toNat_le.mp (UInt32.not_lt.mp hmax)
  have hpos : count.toNat ≠ 0 := fun hzero => hne (UInt32.toNat_inj.mp hzero)
  exact ⟨hnetwork, Nat.pos_of_ne_zero hpos, hle, rfl, rfl, rfl, rfl, rfl, rfl, hlength, hentries,
    rfl⟩

/-- An interval of nonces that is not too long can be prepared. -/
theorem exists_prepareAcceleratorBatch (X : Xof) (hreference : reference.WellFormed P)
    (hnetwork : block.networkId = reference.descriptor.networkId) (startNonce : UInt64)
    (hpos : count ≠ 0) (hmax : count ≤ v2AcceleratorMaxBatch) :
    ∃ batch, reference.prepareAcceleratorBatch P X block startNonce count = .ok batch := by
  have hlayers := hreference.layersMax
  have hrows := (Nat.log2_le_self reference.rows).trans hreference.rows
  have hwidth := (Nat.log2_le_self reference.width).trans hreference.width
  have hperNonce : (reference.descriptor.model.layers.toNat + 1) *
      (1 + reference.rows.log2 + reference.width.log2) ≤ 5 * 37 := by
    rw [hreference.layers]
    exact Nat.mul_le_mul (by omega) (by omega)
  have hle : count.toNat ≤ 65536 := UInt32.le_iff_toNat_le.mp hmax
  have htotal := Nat.mul_le_mul hle hperNonce
  obtain ⟨challenges, hchallenges, _⟩ := exists_mapM_range
    (f := fun offset => challengeDigest P reference.descriptor block
      (startNonce + UInt64.ofNat offset)) (n := count.toNat) (Q := fun _ _ => True) fun offset _ => by
    obtain ⟨challenge, hchallenge⟩ := exists_challengeDigest hreference hnetwork
      (startNonce + UInt64.ofNat offset)
    exact ⟨challenge, hchallenge, trivial⟩
  have hcount : ¬(count = 0 ∨ count > v2AcceleratorMaxBatch) :=
    not_or.mpr ⟨hpos, UInt32.not_lt.mpr hmax⟩
  rw [ForgeMatrixV2Reference.prepareAcceleratorBatch, require_pos hcount, ok_bind,
    require_pos hnetwork, ok_bind]
  dsimp only
  rw [require_pos (by omega), ok_bind, require_pos (by omega), ok_bind, hchallenges]
  exact ⟨_, rfl⟩

/-- The nonces of a batch. -/
theorem PreparedBatch.nonceAt (h : PreparedBatch P X reference block startNonce count batch) {index : Nat}
    (hindex : index < count.toNat) :
    batch.nonceAt index = some (startNonce + UInt64.ofNat index) := by
  rw [ForgeMatrixV2AcceleratorBatch.nonceAt, h.countEq, if_pos hindex, h.start]

theorem PreparedBatch.matchesStatement (h : PreparedBatch P X reference block startNonce count batch) :
    batch.matchesStatement reference.descriptor block = true :=
  decide_eq_true ⟨h.descriptor, h.blockEq⟩

/-- An honest output has the digest of the compact proof. -/
theorem candidateWorkDigest_honest (h : PreparedBatch P X reference block startNonce count batch)
    (hreference : reference.WellFormed P) {index : Nat} (hindex : index < count.toNat)
    {bytes : List UInt8}
    (hhonest : HonestOutput P X reference block (startNonce + UInt64.ofNat index) bytes) :
    ∃ proof, reference.proveCompact P X block (startNonce + UInt64.ofNat index) = .ok proof ∧
      batch.candidateWorkDigest P index bytes = .ok proof.workDigest := by
  obtain ⟨full, hfull, hbytes⟩ := hhonest
  obtain ⟨hchallenge, _, _, bytes', hbytes', houtput, hwork⟩ := proveReference_eq_ok hfull
  cases hbytes.symm.trans hbytes'
  obtain ⟨hlength, hrange⟩ := activationBytes_eq_ok hbytes
  obtain ⟨_, hfinal⟩ := isActivation_finalActivation X hreference hfull
  obtain ⟨manifest, hmanifest⟩ := hreference.digest
  have hlt : index < batch.challenges.length := h.challenges ▸ hindex
  have hsame := h.challenge index _ (List.getElem?_eq_getElem hlt)
  rw [hchallenge, Except.ok.injEq] at hsame
  have hshape : ¬(index ≥ batch.count.toNat ∨ bytes.length ≠ batch.activationLen) := by
    rw [h.countEq, h.activationLen, hlength, hfinal.length]
    push Not
    exact ⟨hindex, rfl⟩
  have hbytesRange : ¬∃ value ∈ bytes, value > 250 := by
    rintro ⟨value, hmem, hgt⟩
    exact absurd (hrange value hmem) (UInt8.not_le.mpr hgt)
  refine ⟨{
    algorithmVersion := reference.descriptor.algorithmVersion
    proofVersion := reference.descriptor.proofVersion
    nonce := startNonce + UInt64.ofNat index
    modelManifestDigest := manifest
    challengeDigest := full.challengeDigest
    finalActivationDigest := full.finalActivationDigest
    workDigest := full.workDigest }, ?_, ?_⟩
  · rw [ForgeMatrixV2Reference.proveCompact, hfull, ok_bind, hmanifest, mapErr_ok, ok_bind]
    rfl
  · rw [ForgeMatrixV2AcceleratorBatch.candidateWorkDigest, require_pos hshape, ok_bind,
      require_pos hbytesRange, ok_bind, itemAt_of_lt hlt, ok_bind, ← hsame, h.descriptor, hwork,
      houtput]
    rfl

/-- A candidate is accepted when the compact proof of its nonce has the claimed digest. -/
theorem PreparedBatch.verifyAcceleratorCandidate
    (h : PreparedBatch P X reference block startNonce count batch) {index : Nat}
    (hindex : index < count.toNat) {proof : ForgeMatrixV2CompactProof}
    (hproof : reference.proveCompact P X block (startNonce + UInt64.ofNat index) = .ok proof)
    (claimed : Bytes32) :
    reference.verifyAcceleratorCandidate P X block batch index claimed =
      if proof.workDigest = claimed then .ok proof else fail .acceleratorMismatch := by
  rw [ForgeMatrixV2Reference.verifyAcceleratorCandidate, require_pos h.matchesStatement, ok_bind,
    h.nonceAt hindex, okOr_some, ok_bind, hproof, ok_bind]
  split
  · next heq => rw [require_pos heq]; rfl
  · next hne => rw [require_neg hne]; rfl

end

end CommonFoundry
