/-
# `CommonFoundry.Node.Extend` — a valid block on the tip is accepted

`NodeRun.extend`: a block that is valid in the live state and new is accepted,
becomes the tip, and adds its work.  The index has no other say in it; its only
further condition is the bound of the cumulative work.

The second half grows chains of sample blocks this way.  A block without
transactions always encodes, so each is checked in the chain state alone, and
without its bytes (`sampleChain_run`).
-/
import CommonFoundry.Consensus.WireSize
import CommonFoundry.Node.NodeRun

namespace CommonFoundry

open Lib Lib.Outcome

section

variable {P : Platform} {params : NetworkParams} {verifier : ConsensusPowVerifier}
  {accepted : List Acceptance} {node : Node}

/-- The record of an encoded block can be written. -/
theorem encodeRecord_of_encodeBlock {block : Block} {canonical : List UInt8}
    (h : encodeBlock P block = .ok canonical) (acceptedAt : UInt64) :
    ∃ record, encodeRecord P acceptedAt canonical = .ok record := by
  have hle := encodeBlock_length_le h
  have hmax : maxBlockBytes = 1048576 := rfl
  have hword : canonical.length < 2 ^ 32 := by omega
  rw [encodeRecord, require_pos hword, require_pos (Nat.not_lt.mpr hle)]
  exact ⟨_, rfl⟩

/-- What the node is after a block was put on its tip. -/
structure Node.Extended (P : Platform) (node : Node) (a : Acceptance) (validated : ValidatedBlock)
    (node' : Node) : Prop where
  sound : node'.storageFaulted = false
  state : node'.state = node.state.advance validated
  activeChain : node'.index.activeChain = node.index.activeChain ++ [a.id P]
  activeWork : node'.index.activeWork = node.index.activeWork + a.work

/-- A new block on the tip that is valid in the live state gets past the checks
of the node. -/
theorem stageBlock_of_valid (h : node.Consistent P params verifier accepted)
    (hsound : node.storageFaulted = false) {a : Acceptance} {validated : ValidatedBlock}
    (hvalid : node.state.validateBlock P a.block a.context = .ok validated)
    (hnew : a.id P ∉ acceptedIds P node.index.genesis accepted)
    (hwork : blockWork a.block.challenge.target = .ok a.work)
    (hbound : node.index.activeWork + a.work < workLimit) :
    ∃ staged, node.stageBlock P a.block a.acceptedAt = .ok staged := by
  have htip : a.block.challenge.previousBlock = node.state.tip :=
    (validateBlock_validated hvalid).previousBlock
  obtain ⟨canonical, hencode⟩ := (validateBlock_validated hvalid).encoded
  obtain ⟨record, hrecord⟩ := encodeRecord_of_encodeBlock hencode a.acceptedAt
  have hfresh : ¬node.index.contains (a.id P) = true :=
    fun hcontains => hnew (h.follows.tree.contains_iff.mp hcontains)
  have hcandidate : prepareCandidate P node.state node.index node.params node.verifier a.block
      { nowUnixSeconds := a.acceptedAt } = .ok (.active validated) := by
    simp only [prepareCandidate, if_pos htip]
    rw [show node.state.validateBlock P a.block { nowUnixSeconds := a.acceptedAt } =
      .ok validated from hvalid]
    rfl
  have hparentWork : node.index.workAt a.block.challenge.previousBlock =
      some node.index.activeWork := by
    obtain ⟨live, hlive, _, _, hactive⟩ := h.follows.live
    rw [htip, hactive]
    exact h.follows.tree.workAt hlive
  have htotal : addChainWork node.index.activeWork a.block.challenge.target =
      .ok (node.index.activeWork + a.work) := addChainWork_eq_ok.mpr ⟨_, hwork, rfl, hbound⟩
  have hprepare : ∃ prepared, prepareBlock P node.state node.index node.params node.verifier
      a.block a.acceptedAt canonical = .ok prepared := by
    simp only [prepareBlock, bind_eq_ok, require_eq_ok, okOr_eq_ok, mapErr_eq_ok, pure_eq_ok]
    exact ⟨_, (), hfresh, _, hparentWork, _, hcandidate, _, htotal, rfl⟩
  obtain ⟨prepared, hprepare⟩ := hprepare
  exact ⟨(prepared, record), stageBlock_eq_ok.mpr ⟨hsound, canonical, hencode, hprepare, hrecord⟩⟩

/-- An accepted block on the tip was valid in the live state, and becomes the tip. -/
theorem Node.Accepts.extended (h : node.Consistent P params verifier accepted) {a : Acceptance}
    {prepared : PreparedBlock} {record : List UInt8} {fees : UInt64} {node' : Node}
    (haccepts : node.Accepts P params verifier accepted a prepared record fees node')
    (htip : a.parent = node.state.tip) :
    ∃ validated, node.state.validateBlock P a.block a.context = .ok validated ∧
      node.Extended P a validated node' := by
  obtain ⟨hsound, canonical, hencode, hprepare, _⟩ := stageBlock_eq_ok.mp haccepts.staged
  rw [h.constant.1, h.constant.2] at hprepare
  obtain ⟨branch, base, validated, hp⟩ := prepareBlock_prepared h.follows hencode hprepare
  -- the committed transition is the one of the live state
  obtain rfl := hp.live htip
  obtain ⟨live, hlive, _, hchain, hactive⟩ := h.follows.live
  obtain rfl := h.follows.tree.branch_unique hlive hp.parentBranch htip
  have hcommit := haccepts.committed.symm.trans (hp.commit h.follows)
  rw [if_pos (hp.activates_of_tip h.follows htip),
    if_pos (hp.activates_of_tip h.follows htip), Committed.mk.injEq] at hcommit
  obtain ⟨_, hstate, hindex⟩ := hcommit
  refine ⟨validated, hp.valid, ?_, hstate, ?_, ?_⟩
  · rw [haccepts.unchanged]
    exact hsound
  · rw [hindex, hchain, List.cons_append, ← List.map_singleton, ← List.map_append]
    rfl
  · rw [hindex, hactive, ← branchWork_snoc]
    exact hp.entry.cumulativeWork

/-- So a new block on the tip that is valid in the live state is accepted. -/
theorem NodeRun.extend (h : NodeRun P params verifier accepted node)
    (hsound : node.storageFaulted = false) {a : Acceptance} {validated : ValidatedBlock}
    (hvalid : node.state.validateBlock P a.block a.context = .ok validated)
    (hnew : a.id P ∉ acceptedIds P node.index.genesis accepted)
    (hwork : blockWork a.block.challenge.target = .ok a.work)
    (hbound : node.index.activeWork + a.work < workLimit) :
    ∃ node', NodeRun P params verifier (accepted ++ [a]) node' ∧
      node.Extended P a validated node' := by
  have htip : a.parent = node.state.tip := (validateBlock_validated hvalid).previousBlock
  obtain ⟨⟨prepared, record⟩, hstage⟩ :=
    stageBlock_of_valid h.consistent hsound hvalid hnew hwork hbound
  obtain ⟨fees, node', hsubmit, haccepts⟩ := submitBlock_synced h.consistent hstage
  obtain ⟨validated', hvalid', hextended⟩ := haccepts.extended h.consistent htip
  obtain rfl : validated' = validated := Except.ok.inj (hvalid'.symm.trans hvalid)
  exact ⟨node', h.accepted hsubmit, hextended⟩

end

/-! ## Chains of sample blocks -/

/-- The sample block on a state, with the state it leads to, if it passes the
checks of `validate_block` other than its encoding. -/
def sampleExtend (state : ChainState) (timestamp : UInt64) : Option (Acceptance × ChainState) := do
  let block := sampleBlock state timestamp 0 []
  let target ← state.expectedTarget.toOption
  let _ ← (blockWork target).toOption
  let nextHeight ← checkedAdd state.nextHeight 1
  let _ ← checkedAdd state.nextHeight coinbaseMaturity
  let latest ← checkedAdd timestamp state.params.maxFutureOffsetSecs
  let (fees, candidate) ←
    (applyBlock samplePlatform (UtxoOverlay.new state.utxos) block state.params).toOption
  let _ ← (state.verifier.verify block.challenge block.proof).toOption
  guard (state.medianTimePast < timestamp ∧ timestamp ≤ latest ∧
    block.coinbase.outputs.length ≤ maxCoinbaseOutputs)
  pure (⟨block, timestamp⟩, state.advance {
    params := state.params
    baseTip := state.tip
    baseNextHeight := state.nextHeight
    baseExpectedTarget := target
    baseMedianTimePast := state.medianTimePast
    baseHistoryLen := state.history.length
    baseTimestampLen := state.rawTimestamps.length
    delta := candidate.delta
    fees
    timestamp
    effectiveTimestamp := state.effectiveTimestamp timestamp
    target
    nextTip := block.blockId samplePlatform
    nextHeight })

theorem toOption_eq_some {ε α : Type} {x : Outcome ε α} {a : α} (h : x.toOption = some a) :
    x = .ok a := by
  cases x with
  | ok b => rw [Option.some.inj h]
  | error fault => cases h

/-- Such a block is valid. -/
theorem sampleExtend_valid {state state' : ChainState} {timestamp : UInt64} {a : Acceptance}
    (h : sampleExtend state timestamp = some (a, state')) :
    ∃ validated, state.validateBlock samplePlatform a.block a.context = .ok validated ∧
      state' = state.advance validated ∧ blockWork a.block.challenge.target = .ok a.work := by
  simp only [sampleExtend, Option.bind_eq_bind, Option.bind_eq_some_iff, Option.guard_eq_some',
    Option.pure_def, Option.some.injEq, Prod.exists, Prod.mk.injEq] at h
  obtain ⟨target, htarget, work, hwork, nextHeight, hnext, mature, hmature, latest, hlatest, fees,
    candidate, happly, _, hproof, _, ⟨hmedian, htimely, houtputs⟩, rfl, rfl⟩ := h
  have hproof := toOption_eq_some hproof
  have hheader : validateBlockHeader samplePlatform (sampleBlock state timestamp 0 [])
      state.verifier state.params = .ok () := by
    obtain ⟨bytes, hencode⟩ : ∃ bytes, encodeBlock samplePlatform
        (sampleBlock state timestamp 0 []) = .ok bytes := encodeBlock_of_empty rfl houtputs
    simp only [validateBlockHeader, bind_eq_ok, require_eq_ok, mapErr_eq_ok]
    refine ⟨(), ?_, (), rfl, (), rfl, (), rfl, bytes, hencode, (), rfl, (), rfl, hproof⟩
    simp only [validateBlockResources, require_pos (Nat.not_lt.mpr houtputs), ok_bind]
    rfl
  have hchallenge : (sampleBlock state timestamp 0 []).challenge.target = target := by
    show (state.expectedTarget.toOption).getD zero32 = target
    rw [htarget, Option.getD_some]
  refine ⟨_, ?_, rfl, ?_⟩
  · simp only [ChainState.validateBlock, bind_eq_ok, require_eq_ok, okOr_eq_ok, pure_eq_ok]
    refine ⟨(), rfl, (), rfl, (), rfl, nextHeight, hnext, mature, hmature, (), rfl, (),
      UInt64.not_le.mpr hmedian, latest, hlatest, (), UInt64.not_lt.mpr htimely, target,
      toOption_eq_some htarget, (), hchallenge, (fees, candidate.delta), ?_, ?_⟩
    · simp only [UtxoSet.validateDelta, hheader, toOption_eq_some happly, ok_bind]
      rfl
    · rw [hchallenge]
      rfl
  · have hok : blockWork (sampleBlock state timestamp 0 []).challenge.target = .ok work := by
      rw [hchallenge]
      exact toOption_eq_some hwork
    have heq : Acceptance.work ⟨sampleBlock state timestamp 0 [], timestamp⟩ = work :=
      Acceptance.work_eq hok
    rw [heq]
    exact hok

/-- Sample blocks at these times, one on top of the other. -/
def sampleChain (state : ChainState) : List UInt64 → Option (List Acceptance × ChainState)
  | [] => some ([], state)
  | timestamp :: rest => do
      let (a, state) ← sampleExtend state timestamp
      let (blocks, state) ← sampleChain state rest
      pure (a :: blocks, state)

/-- A node accepts a chain of sample blocks on its tip. -/
theorem sampleChain_run {timestamps : List UInt64} : ∀ {accepted blocks : List Acceptance}
    {node : Node} {state : ChainState},
    NodeRun samplePlatform sampleParams sampleVerifier accepted node →
    node.storageFaulted = false → sampleChain node.state timestamps = some (blocks, state) →
    (acceptedIds samplePlatform node.index.genesis (accepted ++ blocks)).Nodup →
    node.index.activeWork + branchWork blocks < workLimit →
    ∃ node', NodeRun samplePlatform sampleParams sampleVerifier (accepted ++ blocks) node' ∧
      node'.storageFaulted = false ∧ node'.state = state ∧
      node'.index.activeChain = node.index.activeChain ++ blocks.map (·.id samplePlatform) ∧
      node'.index.activeWork = node.index.activeWork + branchWork blocks := by
  induction timestamps with
  | nil =>
      intro accepted blocks node state h hsound hchain _ _
      obtain ⟨rfl, rfl⟩ := Prod.mk.inj (Option.some.inj hchain)
      refine ⟨node, ?_, hsound, rfl, (List.append_nil _).symm, rfl⟩
      rwa [List.append_nil]
  | cons timestamp rest ih =>
      intro accepted blocks node state h hsound hchain hnodup hbound
      simp only [sampleChain, Option.bind_eq_bind, Option.bind_eq_some_iff, Option.pure_def,
        Option.some.injEq, Prod.exists, Prod.mk.injEq] at hchain
      obtain ⟨a, middle, hextend, blocks, last, hrest, rfl, rfl⟩ := hchain
      obtain ⟨validated, hvalid, rfl, hwork⟩ := sampleExtend_valid hextend
      have hsum : branchWork (a :: blocks) = a.work + branchWork blocks := rfl
      have hnew : a.id samplePlatform ∉
          acceptedIds samplePlatform node.index.genesis accepted := by
        rw [acceptedIds, List.map_append, ← List.cons_append] at hnodup
        exact fun hmem => List.disjoint_of_nodup_append hnodup hmem List.mem_cons_self
      obtain ⟨node₁, hrun, hextended⟩ := h.extend hsound hvalid hnew hwork (by omega)
      have hgenesis : node₁.index.genesis = node.index.genesis :=
        hrun.consistent.follows.tree.genesis.trans h.consistent.follows.tree.genesis.symm
      rw [List.append_cons] at hnodup ⊢
      obtain ⟨node', hrun', hsound', hstate', hchain', hwork'⟩ := ih hrun hextended.sound
        (by rw [hextended.state]; exact hrest) (by rw [hgenesis]; exact hnodup)
        (by rw [hextended.activeWork]; omega)
      refine ⟨node', hrun', hsound', hstate', ?_, ?_⟩
      · rw [hchain', hextended.activeChain, List.append_assoc]
        rfl
      · rw [hwork', hextended.activeWork, hsum, Nat.add_assoc]

/-- A fresh node accepts a chain of sample blocks. -/
theorem sampleChain_genesis {timestamps : List UInt64} {blocks : List Acceptance}
    {state : ChainState} (hchain : sampleChain sampleGenesis timestamps = some (blocks, state))
    (hnodup : (sampleParams.genesisHash :: blocks.map (·.id samplePlatform)).Nodup)
    (hbound : branchWork blocks < workLimit) :
    ∃ node, NodeRun samplePlatform sampleParams sampleVerifier blocks node ∧
      node.storageFaulted = false ∧ node.state = state ∧
      node.index.activeChain = node.index.genesis :: blocks.map (·.id samplePlatform) ∧
      node.index.activeWork = branchWork blocks := by
  obtain ⟨node, hrun, hsound, hstate, hactive, hwork⟩ := sampleChain_run sampleNode₀_run rfl hchain
    hnodup (by rw [show sampleNode₀.index.activeWork = 0 from rfl, Nat.zero_add]; exact hbound)
  refine ⟨node, hrun, hsound, hstate, ?_, ?_⟩
  · rw [hactive, hrun.consistent.follows.tree.genesis]
    rfl
  · rw [hwork, show sampleNode₀.index.activeWork = 0 from rfl, Nat.zero_add]

end CommonFoundry
