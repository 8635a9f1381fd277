/-
# `CommonFoundry.Consensus.Fingerprint` — a network fingerprint shows its parameters

`NetworkParams::validate` and `NetworkParams::fingerprint` of `network.rs`, with the two
functions of `pow.rs` that they call.  The fingerprint hashes one string without framing:
the widths of the fields are fixed, but for the proof parameters, which begin with the word
of their variant.

Peeled from the front, the string shows every field (`fingerprintBytes_inj`).  Of the model
of a v2 descriptor it holds a digest only, so there, and only there, the hash must not
collide.  The string of a v1 profile ends with the root of its model, which the profile
determines.

A node validates blocks with its parameters and a verifier for them.  A v1 verifier is
computed from the profile; a v2 reference holds a model that hashes to what its descriptor
commits to.
-/
import CommonFoundry.Consensus.ForgeMatrixAgreement
import CommonFoundry.Consensus.Identity
import CommonFoundry.Consensus.PowVerifier

namespace CommonFoundry

open Lib Lib.Outcome

def networkParamsDomain : String := "CMFD/NETWORK/PARAMS/V1"

/-- `POW_TYPE_V1_LEGACY`. -/
def powTypeV1Legacy : UInt16 := 1
/-- `POW_TYPE_V2_REFERENCE`. -/
def powTypeV2Reference : UInt16 := 2

/-! ## The proof parameters -/

namespace PowParameters

variable (P : Platform) (X : Xof)

def validate (self : PowParameters) (networkId : Bytes32) : Outcome PowFault Unit :=
  match self with
  | .v1Legacy profile => do
      let _ ← mapErr .v1 (ForgeMatrixVerifier.new P X profile)
      pure ()
  | .v2Reference descriptor => do
      require (descriptor.networkId = networkId) .wrongNetwork
      mapErr .v2 (descriptor.validateResearch P)

/-- `PowParameters::absorb`: what it feeds to the hasher. -/
def absorb (self : PowParameters) (networkId : Bytes32) : Outcome PowFault (List UInt8) :=
  match self with
  | .v1Legacy profile => do
      let verifier ← mapErr .v1 (ForgeMatrixVerifier.new P X profile)
      pure (leBytes16 powTypeV1Legacy ++ leBytes32 profile.algorithmVersion ++
        leBytes32 profile.modelVersion ++ leBytes32 profile.dimension ++
        leBytes32 profile.batch ++ leBytes32 profile.layers ++ profile.modelSeed.1 ++
        verifier.modelRoot.1)
  | .v2Reference descriptor => do
      require (descriptor.networkId = networkId) .wrongNetwork
      mapErr .v2 (descriptor.validateResearch P)
      let manifestDigest ← mapErr (.v2 ∘ .modelBank) (descriptor.model.digest P)
      pure (leBytes16 powTypeV2Reference ++ descriptor.networkId.1 ++
        leBytes32 descriptor.algorithmVersion ++ leBytes32 descriptor.proofVersion ++
        leBytes32 descriptor.banks ++ leBytes32 descriptor.layersPerBank ++ manifestDigest.1)

end PowParameters

/-- `map_pow_parameter_error`. -/
def mapPowParameterError : PowFault → NetworkError
  | .v1 error => .forgeMatrix error
  | .wrongNetwork => .wrongPowNetwork
  | .v2 _ => .invalidPowParameters
  | .wrongProofType => .invalidPowParameters
  | .parameterMismatch => .invalidPowParameters

/-! ## The fingerprint -/

/-- The limits that the fingerprint hashes. -/
def fingerprintCaps : List Nat :=
  [medianTimeWindow, maxBlockTransactions, maxTransactionInputs, maxTransactionOutputs,
    maxBlockAggregateInputs, maxBlockAggregateOutputs, maxBlockSignatureChecks,
    maxCoinbaseOutputs, consensusSignatureBytes, dgwWindow, wireHeaderBytes,
    maxTransactionBytes, maxProofBytes, maxBlockBytes]

namespace NetworkParams

variable (P : Platform) (X : Xof)

def validate (params : NetworkParams) : Outcome NetworkError Unit := do
  params.validateWithoutPow P
  mapErr mapPowParameterError (params.pow.validate P X params.networkId)

/-- What `fingerprint` feeds to the hasher. -/
def fingerprintBytes (params : NetworkParams) : Outcome NetworkError (List UInt8) := do
  params.validateWithoutPow P
  let pow ← mapErr mapPowParameterError (params.pow.absorb P X params.networkId)
  pure (params.networkId.1 ++ leBytes32 params.protocolVersion ++ params.genesisHash.1 ++
    leBytes64 params.genesisTimestamp ++ params.powLimit.1 ++ pow ++
    leBytes64 params.monetaryPolicy.initialSubsidy ++ leBytes64 params.monetaryPolicy.tailHeight ++
    leBytes64 params.monetaryPolicy.tailSubsidy ++ [params.monetaryPolicy.stewardPercent] ++
    [params.monetaryPolicy.communityPercent] ++ params.rewards.steward.1 ++
    params.rewards.community.1 ++ leBytes64 params.maxFutureOffsetSecs ++
    fingerprintCaps.flatMap (fun cap => leBytes64 (UInt64.ofNat cap)) ++
    leBytes32 blockVersion ++ leBytes32 transactionVersion ++ leBytes64 coinbaseMaturity ++
    leBytes64 (UInt64.ofNat targetSpacingSeconds) ++ leBytes16 wireVersion)

def fingerprint (params : NetworkParams) : Outcome NetworkError Bytes32 := do
  let bytes ← params.fingerprintBytes P X
  pure (P.deriveKey networkParamsDomain bytes)

end NetworkParams

/-! ## What the string of the proof parameters shows -/

/-- The hashes that stand for a part of the proof parameters. -/
def PowParameters.digestCalls : PowParameters → List HashCall
  | .v1Legacy _ => []
  | .v2Reference descriptor => [(manifestDomain, encodeHeader descriptor.model)]

variable {P : Platform} {X : Xof} {blake3 : List UInt8 → Bytes32}

theorem encodeHeader_inj {manifest manifest' : ModelBankManifest}
    (h : encodeHeader manifest = encodeHeader manifest') : manifest = manifest' := by
  have hread : takeHeader (encodeHeader manifest') = .ok (manifest', []) :=
    takeHeader_eq_ok.mpr (List.append_nil _).symm
  have hread' : takeHeader (encodeHeader manifest') = .ok (manifest, []) :=
    takeHeader_eq_ok.mpr (by rw [List.append_nil, h])
  exact (Prod.mk.inj (Except.ok.inj (hread'.symm.trans hread))).1

theorem digest_eq_ok {manifest : ModelBankManifest} {digest : Bytes32} :
    manifest.digest P = .ok digest ↔
      manifest.validateShape = .ok () ∧ P.deriveKey manifestDomain (encodeHeader manifest) = digest := by
  simp only [ModelBankManifest.digest, bind_eq_ok, pure_eq_ok]
  constructor
  · rintro ⟨_, hshape, hdigest⟩
    exact ⟨hshape, hdigest⟩
  · rintro ⟨hshape, hdigest⟩
    exact ⟨(), hshape, hdigest⟩

/-- The parameters that are valid are those that can be hashed. -/
theorem absorb_ok_iff {pow : PowParameters} {networkId : Bytes32} :
    (∃ bytes, pow.absorb P X networkId = .ok bytes) ↔ pow.validate P X networkId = .ok () := by
  cases pow with
  | v1Legacy profile =>
      simp only [PowParameters.absorb, PowParameters.validate, bind_eq_ok, pure_eq_ok]
      constructor
      · rintro ⟨bytes, verifier, hnew, _⟩
        exact ⟨verifier, hnew, trivial⟩
      · rintro ⟨verifier, hnew, _⟩
        exact ⟨_, verifier, hnew, rfl⟩
  | v2Reference descriptor =>
      simp only [PowParameters.absorb, PowParameters.validate, bind_eq_ok, pure_eq_ok]
      constructor
      · rintro ⟨bytes, _, hnetwork, _, hvalid, _⟩
        exact ⟨(), hnetwork, hvalid⟩
      · rintro ⟨_, hnetwork, hvalid⟩
        -- the digest is the last thing that the validation computes
        have hdigest := mapErr_eq_ok.mp hvalid
        simp only [ForgeMatrixV2Descriptor.validateResearch, bind_eq_ok] at hdigest
        obtain ⟨_, _, _, _, _, _, _, _, _, _, digest, hdigest, _⟩ := hdigest
        exact ⟨_, (), hnetwork, (), hvalid, digest, mapErr_eq_ok.mpr (mapErr_eq_ok.mp hdigest), rfl⟩

theorem PowParameters.absorb_inj {pow pow' : PowParameters} {networkId networkId' : Bytes32}
    {bytes bytes' x y : List UInt8} (h : pow.absorb P X networkId = .ok bytes)
    (h' : pow'.absorb P X networkId' = .ok bytes')
    (hhash : P.CollisionFree (pow.digestCalls ++ pow'.digestCalls))
    (heq : bytes ++ x = bytes' ++ y) : pow = pow' ∧ x = y := by
  cases pow with
  | v1Legacy profile =>
      cases pow' with
      | v1Legacy profile' =>
          simp only [PowParameters.absorb, bind_eq_ok, pure_eq_ok] at h h'
          obtain ⟨verifier, _, rfl⟩ := h
          obtain ⟨verifier', _, rfl⟩ := h'
          simp only [List.append_assoc] at heq
          obtain ⟨_, heq⟩ := leBytes16_append_inj heq
          obtain ⟨halgorithm, heq⟩ := leBytes32_append_inj heq
          obtain ⟨hversion, heq⟩ := leBytes32_append_inj heq
          obtain ⟨hdimension, heq⟩ := leBytes32_append_inj heq
          obtain ⟨hbatch, heq⟩ := leBytes32_append_inj heq
          obtain ⟨hlayers, heq⟩ := leBytes32_append_inj heq
          obtain ⟨hseed, heq⟩ := array_append_inj heq
          obtain ⟨_, hrest⟩ := array_append_inj heq
          cases profile
          cases profile'
          simp only [PowParameters.v1Legacy.injEq, ForgeMatrixProfile.mk.injEq]
          exact ⟨⟨halgorithm, hversion, hdimension, hbatch, hlayers, hseed⟩, hrest⟩
      | v2Reference descriptor =>
          simp only [PowParameters.absorb, bind_eq_ok, pure_eq_ok] at h h'
          obtain ⟨_, _, rfl⟩ := h
          obtain ⟨_, _, _, _, _, _, rfl⟩ := h'
          simp only [List.append_assoc] at heq
          exact absurd (leBytes16_append_inj heq).1 (by decide)
  | v2Reference descriptor =>
      cases pow' with
      | v1Legacy profile =>
          simp only [PowParameters.absorb, bind_eq_ok, pure_eq_ok] at h h'
          obtain ⟨_, _, _, _, _, _, rfl⟩ := h
          obtain ⟨_, _, rfl⟩ := h'
          simp only [List.append_assoc] at heq
          exact absurd (leBytes16_append_inj heq).1 (by decide)
      | v2Reference descriptor' =>
          simp only [PowParameters.absorb, bind_eq_ok, pure_eq_ok, mapErr_eq_ok, digest_eq_ok] at h h'
          obtain ⟨_, _, _, _, _, ⟨_, rfl⟩, rfl⟩ := h
          obtain ⟨_, _, _, _, _, ⟨_, rfl⟩, rfl⟩ := h'
          simp only [List.append_assoc] at heq
          obtain ⟨_, heq⟩ := leBytes16_append_inj heq
          obtain ⟨hnetwork, heq⟩ := array_append_inj heq
          obtain ⟨halgorithm, heq⟩ := leBytes32_append_inj heq
          obtain ⟨hproof, heq⟩ := leBytes32_append_inj heq
          obtain ⟨hbanks, heq⟩ := leBytes32_append_inj heq
          obtain ⟨hlayers, heq⟩ := leBytes32_append_inj heq
          obtain ⟨hdigest, hrest⟩ := array_append_inj heq
          have hmodel : descriptor.model = descriptor'.model :=
            encodeHeader_inj (hhash.bytes_eq (List.mem_cons_self ..)
              (List.mem_cons_of_mem _ (List.mem_cons_self ..)) hdigest).2
          cases descriptor
          cases descriptor'
          simp only [PowParameters.v2Reference.injEq, ForgeMatrixV2Descriptor.mk.injEq]
          exact ⟨⟨hnetwork, halgorithm, hproof, hbanks, hlayers, hmodel⟩, hrest⟩

/-! ## What the string of the parameters shows -/

theorem fingerprintBytes_ok_iff {params : NetworkParams} :
    (∃ bytes, params.fingerprintBytes P X = .ok bytes) ↔ params.validate P X = .ok () := by
  simp only [NetworkParams.fingerprintBytes, NetworkParams.validate, bind_eq_ok, pure_eq_ok,
    mapErr_eq_ok, ← absorb_ok_iff]
  constructor
  · rintro ⟨_, _, hvalid, pow, hpow, _⟩
    exact ⟨(), hvalid, pow, hpow⟩
  · rintro ⟨_, hvalid, pow, hpow⟩
    exact ⟨_, (), hvalid, pow, hpow, rfl⟩

theorem fingerprintBytes_inj {params params' : NetworkParams} {bytes : List UInt8}
    (h : params.fingerprintBytes P X = .ok bytes) (h' : params'.fingerprintBytes P X = .ok bytes)
    (hhash : P.CollisionFree (params.pow.digestCalls ++ params'.pow.digestCalls)) :
    params = params' := by
  simp only [NetworkParams.fingerprintBytes, bind_eq_ok, pure_eq_ok, mapErr_eq_ok] at h h'
  obtain ⟨_, _, pow, hpow, hbytes⟩ := h
  obtain ⟨_, _, pow', hpow', hbytes'⟩ := h'
  have heq := hbytes.trans hbytes'.symm
  simp only [List.append_assoc, List.cons_append, List.nil_append] at heq
  obtain ⟨hnetwork, heq⟩ := array_append_inj heq
  obtain ⟨hprotocol, heq⟩ := leBytes32_append_inj heq
  obtain ⟨hgenesis, heq⟩ := array_append_inj heq
  obtain ⟨htimestamp, heq⟩ := leBytes64_append_inj heq
  obtain ⟨hlimit, heq⟩ := array_append_inj heq
  obtain ⟨hpow, heq⟩ := PowParameters.absorb_inj hpow hpow' hhash heq
  obtain ⟨hinitial, heq⟩ := leBytes64_append_inj heq
  obtain ⟨hheight, heq⟩ := leBytes64_append_inj heq
  obtain ⟨htail, heq⟩ := leBytes64_append_inj heq
  obtain ⟨hstewardPercent, heq⟩ := List.cons.inj heq
  obtain ⟨hcommunityPercent, heq⟩ := List.cons.inj heq
  obtain ⟨hsteward, heq⟩ := array_append_inj heq
  obtain ⟨hcommunity, heq⟩ := array_append_inj heq
  obtain ⟨hoffset, _⟩ := leBytes64_append_inj heq
  obtain ⟨_, _, _, _, _, _, ⟨_, _, _, _, _⟩, ⟨_, _⟩, _⟩ := params
  obtain ⟨_, _, _, _, _, _, ⟨_, _, _, _, _⟩, ⟨_, _⟩, _⟩ := params'
  simp only [NetworkParams.mk.injEq, MonetaryPolicy.mk.injEq, FixedRewardDestinations.mk.injEq]
  exact ⟨hnetwork, hprotocol, hgenesis, htimestamp, hlimit, hpow,
    ⟨hinitial, hheight, htail, hstewardPercent, hcommunityPercent⟩, ⟨hsteward, hcommunity⟩, hoffset⟩

/-! ## The verifiers of one fingerprint -/

namespace PowVerifier

/-- The verifiers that the constructors return. -/
inductive Built (P : Platform) (X : Xof) (blake3 : List UInt8 → Bytes32) : PowVerifier → Prop
  | v1Legacy {profile : ForgeMatrixProfile} {verifier : ForgeMatrixVerifier} :
      ForgeMatrixVerifier.new P X profile = .ok verifier → Built P X blake3 (.v1Legacy verifier)
  | v2Reference {descriptor : ForgeMatrixV2Descriptor} {baseInput : List UInt8}
      {weights : List (List UInt8)} {reference : ForgeMatrixV2Reference} :
      ForgeMatrixV2Reference.fromExplicitModel P blake3 descriptor baseInput weights =
        .ok reference → Built P X blake3 (.v2Reference reference)

/-- The payload whose root a descriptor holds. -/
def payload : PowVerifier → List UInt8
  | .v1Legacy _ => []
  | .v2Reference reference => reference.baseInput ++ reference.weights.flatten

end PowVerifier

theorem profile_of_new {profile : ForgeMatrixProfile} {verifier : ForgeMatrixVerifier}
    (h : ForgeMatrixVerifier.new P X profile = .ok verifier) : verifier.profile = profile := by
  simp only [ForgeMatrixVerifier.new, bind_eq_ok, pure_eq_ok] at h
  obtain ⟨_, _, _, _, rfl⟩ := h
  rfl

/-- A reference is its descriptor and the parts of a payload with the root that the
descriptor holds. -/
theorem reference_of_fromExplicitModel {descriptor : ForgeMatrixV2Descriptor}
    {baseInput : List UInt8} {weights : List (List UInt8)} {reference : ForgeMatrixV2Reference}
    (h : ForgeMatrixV2Reference.fromExplicitModel P blake3 descriptor baseInput weights =
      .ok reference) :
    blake3 (reference.baseInput ++ reference.weights.flatten) =
        reference.descriptor.model.rawBlake3Root ∧
      reference.baseInput.length = reference.descriptor.model.baseInputBytes.toNat ∧
      reference.descriptor.model.layersOf (reference.baseInput ++ reference.weights.flatten) =
        reference.weights := by
  simp only [ForgeMatrixV2Reference.fromExplicitModel, bind_eq_ok, require_eq_ok, pure_eq_ok,
    mapErr_eq_ok, buildSmallModelBank, checked64_eq_ok] at h
  obtain ⟨_, _, built, ⟨_, _, _, _, base, ⟨rfl, hbase64⟩, layer, ⟨rfl, hlayer64⟩, _, hcount, _, _,
    _, _, _, _, _, hbase, _, hlayers, _, _, _, _, rfl⟩, _, hmanifest, rfl⟩ := h
  rw [← hmanifest]
  have hbase' := hbase.trans (UInt64.toNat_ofNat_of_lt' hbase64).symm
  refine ⟨rfl, hbase', layersOf_append hbase' (UInt32.toNat_ofNat_of_lt' hcount).symm ?_⟩
  intro part hmem
  exact (hlayers part hmem).trans (UInt64.toNat_ofNat_of_lt' hlayer64).symm

/-- Two verifiers for the same parameters are one, if their payloads do not collide. -/
theorem PowVerifier.Built.eq {verifier verifier' : PowVerifier}
    (h : verifier.Built P X blake3) (h' : verifier'.Built P X blake3)
    (hparameters : verifier.parameters = verifier'.parameters)
    (hhash : blake3 verifier.payload = blake3 verifier'.payload →
      verifier.payload = verifier'.payload) : verifier = verifier' := by
  cases h with
  | v1Legacy hnew =>
      cases h' with
      | v1Legacy hnew' =>
          have hprofile := PowParameters.v1Legacy.inj hparameters
          rw [profile_of_new hnew, profile_of_new hnew'] at hprofile
          rw [hprofile] at hnew
          rw [Except.ok.inj (hnew.symm.trans hnew')]
      | v2Reference _ => cases hparameters
  | v2Reference hbuilt =>
      cases h' with
      | v1Legacy _ => cases hparameters
      | v2Reference hbuilt' =>
          obtain ⟨hroot, hbase, hlayers⟩ := reference_of_fromExplicitModel hbuilt
          obtain ⟨hroot', hbase', hlayers'⟩ := reference_of_fromExplicitModel hbuilt'
          rename_i reference _ _ _ reference'
          have hdescriptor : reference.descriptor = reference'.descriptor :=
            PowParameters.v2Reference.inj hparameters
          have hpayload := hhash (hroot.trans ((congrArg (·.model.rawBlake3Root) hdescriptor).trans
            hroot'.symm))
          simp only [PowVerifier.payload] at hpayload
          obtain ⟨hinput, _⟩ := List.append_inj hpayload (by rw [hbase, hbase', hdescriptor])
          have hweights : reference.weights = reference'.weights := by
            rw [← hlayers, ← hlayers', hpayload, hdescriptor]
          cases reference
          cases reference'
          simp only at hdescriptor hinput hweights
          rw [hdescriptor, hinput, hweights]

/-- A fingerprint commits to the parameters.  Valid parameters have one, the hash of a string
that shows them all: two networks with the same string are the same.  Two networks with the
same fingerprint have the same parameters and the same verifier, so they validate alike. -/
theorem fingerprint_commits (P : Platform) (X : Xof) (blake3 : List UInt8 → Bytes32)
    {params params' : NetworkParams} (hvalid : params.validate P X = .ok ())
    (hvalid' : params'.validate P X = .ok ()) :
    ∃ bytes bytes',
      params.fingerprintBytes P X = .ok bytes ∧ params'.fingerprintBytes P X = .ok bytes' ∧
      (P.CollisionFree (params.pow.digestCalls ++ params'.pow.digestCalls) →
        bytes = bytes' → params = params') ∧
      (P.CollisionFree ((networkParamsDomain, bytes) :: (networkParamsDomain, bytes') ::
          (params.pow.digestCalls ++ params'.pow.digestCalls)) →
        params.fingerprint P X = params'.fingerprint P X →
        params = params' ∧ ∀ verifier verifier' : PowVerifier,
          verifier.Built P X blake3 → verifier'.Built P X blake3 →
          verifier.parameters = params.pow → verifier'.parameters = params'.pow →
          (blake3 verifier.payload = blake3 verifier'.payload →
            verifier.payload = verifier'.payload) →
          verifier = verifier') := by
  obtain ⟨bytes, hbytes⟩ := fingerprintBytes_ok_iff.mpr hvalid
  obtain ⟨bytes', hbytes'⟩ := fingerprintBytes_ok_iff.mpr hvalid'
  refine ⟨bytes, bytes', hbytes, hbytes', ?_, ?_⟩
  · rintro hhash rfl
    exact fingerprintBytes_inj hbytes hbytes' hhash
  · intro hhash hfingerprint
    rw [NetworkParams.fingerprint, NetworkParams.fingerprint, hbytes, hbytes', ok_bind,
      ok_bind] at hfingerprint
    obtain ⟨_, rfl⟩ := hhash.bytes_eq (List.mem_cons_self ..)
      (List.mem_cons_of_mem _ (List.mem_cons_self ..)) (Except.ok.inj hfingerprint)
    have hparams : params = params' := fingerprintBytes_inj hbytes hbytes' (hhash.mono
      fun call hcall => List.mem_cons_of_mem _ (List.mem_cons_of_mem _ hcall))
    refine ⟨hparams, fun verifier verifier' hbuilt hbuilt' hpow hpow' hpayload => ?_⟩
    exact hbuilt.eq hbuilt' (by rw [hpow, hpow', hparams]) hpayload

/-- The sample network under the v2 relation. -/
def sampleV2Params : NetworkParams := { sampleParams with pow := .v2Reference sampleDescriptor }

/-- The same network, launched a second later. -/
def sampleLaterParams : NetworkParams := { sampleV2Params with genesisTimestamp := 1001 }

/-- The two have different fingerprints. -/
theorem fingerprint_commits_sample :
    sampleV2Params.fingerprint samplePlatform sampleXof ≠
      sampleLaterParams.fingerprint samplePlatform sampleXof := by
  have hpow : ∀ params : NetworkParams, params.networkId = sampleDescriptor.networkId →
      params.pow = .v2Reference sampleDescriptor →
      params.validateWithoutPow samplePlatform = .ok () →
      params.validate samplePlatform sampleXof = .ok () := by
    intro params hnetwork hpow hvalid
    rw [NetworkParams.validate, hvalid, ok_bind, hpow, PowParameters.validate,
      require_pos hnetwork.symm, ok_bind, sampleDescriptor_validateResearch]
    rfl
  obtain ⟨bytes, bytes', hbytes, hbytes', _, hcommits⟩ :=
    fingerprint_commits samplePlatform sampleXof sampleDigest
      (hpow sampleV2Params rfl rfl (by rfl)) (hpow sampleLaterParams rfl rfl (by rfl))
  intro heq
  have hlist : (sampleV2Params.fingerprintBytes samplePlatform sampleXof).toOption.getD [] = bytes := by
    rw [hbytes]
    rfl
  have hlist' :
      (sampleLaterParams.fingerprintBytes samplePlatform sampleXof).toOption.getD [] = bytes' := by
    rw [hbytes']
    rfl
  subst hlist hlist'
  have hparams := (hcommits (by decide +kernel) heq).1
  exact absurd (congrArg (·.genesisTimestamp) hparams) (by decide)

end CommonFoundry
