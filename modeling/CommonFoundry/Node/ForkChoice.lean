/-
# `CommonFoundry.Node.ForkChoice` — which branch the node follows

`Follows` says of the live side what `IndexOf` says of the index: the tip is the
first of the heaviest accepted blocks, and the live state, the active chain and
the active work are those of its branch.

One accepted block preserves it (`Prepared.follows`), and the commit it takes
cannot fail (`Prepared.commit`): the block was validated in the state of its
parent's branch, which for a child of the tip is the live state, and a child of
the tip always takes over because its block is worth at least one unit of work.
-/
import CommonFoundry.Lib.FirstGreatest
import CommonFoundry.Node.BlockTree

namespace CommonFoundry

open Lib Lib.Outcome

variable {P : Platform}

/-! ## The live branch -/

/-- The work of an indexed block, and zero for any other identifier. -/
def BlockIndex.weight (index : BlockIndex) (blockId : Bytes32) : Nat :=
  (index.workAt blockId).getD 0

theorem IndexOf.weight_eq {params : NetworkParams} {verifier : ConsensusPowVerifier}
    {accepted : List Acceptance} {index : BlockIndex}
    (h : IndexOf P params verifier accepted index) {id : Bytes32} {branch : List Acceptance}
    (hbranch : Branch P index.genesis accepted id branch) :
    index.weight id = branchWork branch := by
  rw [BlockIndex.weight, h.workAt hbranch, Option.getD_some]

/-- The live state and the active chain are those of the first of the heaviest
blocks. -/
structure Follows (P : Platform) (params : NetworkParams) (verifier : ConsensusPowVerifier)
    (accepted : List Acceptance) (state : ChainState) (index : BlockIndex) : Prop where
  tree : IndexOf P params verifier accepted index
  live : ∃ branch, Branch P index.genesis accepted state.tip branch ∧
    stateAfter P params verifier branch = .ok state ∧
    index.activeChain = index.genesis :: branch.map (·.id P) ∧
    index.activeWork = branchWork branch
  best : FirstGreatest index.weight (acceptedIds P index.genesis accepted) state.tip

section

variable {params : NetworkParams} {verifier : ConsensusPowVerifier} {accepted : List Acceptance}
  {index : BlockIndex} {state : ChainState}

/-- A fresh node follows the empty tree. -/
theorem Follows.new (h : ChainState.new P params verifier = .ok state) :
    Follows P params verifier [] state (BlockIndex.new params.genesisHash) := by
  have htip : state.tip = params.genesisHash := (new_eq_ok h).2.2.2.2.2.1
  refine ⟨⟨rfl, ⟨state, h⟩, List.nodup_singleton _, ?_, fun _ ha => (by cases ha)⟩,
    ⟨[], ?_, ?_, rfl, rfl⟩, ?_⟩
  · intro id entry hlookup
    rw [BlockIndex.new, Finmap.lookup_empty] at hlookup
    cases hlookup
  · rw [htip]
    exact .genesis
  · simp only [stateAfter, h, ok_bind, List.foldlM_nil, pure_eq_ok]
  · rw [htip]
    exact .singleton

/-- Accepted blocks keep their weight when more are accepted. -/
theorem IndexOf.weight_append {more : List Acceptance} {index' : BlockIndex}
    (h : IndexOf P params verifier accepted index)
    (h' : IndexOf P params verifier (accepted ++ more) index') {id : Bytes32}
    (hid : id ∈ acceptedIds P index.genesis accepted) : index'.weight id = index.weight id := by
  have hgenesis : index.genesis = index'.genesis := h.genesis.trans h'.genesis.symm
  obtain ⟨branch, _, hbranch, _⟩ := h.exists_branch hid
  rw [h.weight_eq hbranch]
  exact h'.weight_eq ((hgenesis ▸ hbranch).mono (List.subset_append_left accepted more))

/-- Blocks that are not heavier than the active branch do not move it. -/
theorem Follows.unmoved {more : List Acceptance} {state' : ChainState} {index' : BlockIndex}
    (h : Follows P params verifier accepted state index)
    (h' : Follows P params verifier (accepted ++ more) state' index')
    (hle : ∀ a ∈ more, index'.weight (a.id P) ≤ index.activeWork) :
    index'.activeChain = index.activeChain ∧ index'.activeWork = index.activeWork := by
  have hgenesis : index.genesis = index'.genesis := h.tree.genesis.trans h'.tree.genesis.symm
  obtain ⟨live, hlive, _, hchain, hwork⟩ := h.live
  obtain ⟨live', hlive', _, hchain', hwork'⟩ := h'.live
  have hold : ∀ id ∈ acceptedIds P index.genesis accepted, index'.weight id = index.weight id :=
    fun id hid => h.tree.weight_append h'.tree hid
  have htip : FirstGreatest index'.weight (acceptedIds P index'.genesis (accepted ++ more))
      state.tip := by
    rw [acceptedIds, List.map_append, ← List.cons_append, ← hgenesis]
    refine (h.best.congr hold).append_of_le fun id hid => ?_
    obtain ⟨a, ha, rfl⟩ := List.mem_map.mp hid
    rw [hold _ h.best.mem, h.tree.weight_eq hlive, ← hwork]
    exact hle a ha
  obtain rfl := h'.tree.branch_unique ((hgenesis ▸ hlive).mono (List.subset_append_left _ _))
    hlive' (htip.unique h'.best)
  rw [hchain', hwork', hchain, hwork, hgenesis]
  exact ⟨rfl, rfl⟩

/-! ## Preparing a block -/

/-- What `prepare_block` establishes: the block is new, its parent has a branch,
and it is valid in the state of that branch.  That state is the live one when the
parent is the tip. -/
structure Prepared (P : Platform) (params : NetworkParams) (verifier : ConsensusPowVerifier)
    (accepted : List Acceptance) (state : ChainState) (index : BlockIndex) (a : Acceptance)
    (branch : List Acceptance) (base : ChainState) (validated : ValidatedBlock)
    (prepared : PreparedBlock) : Prop where
  fresh : a.id P ∉ acceptedIds P index.genesis accepted
  parentBranch : Branch P index.genesis accepted a.parent branch
  baseState : stateAfter P params verifier branch = .ok base
  valid : base.validateBlock P a.block a.context = .ok validated
  live : a.parent = state.tip → base = state
  entry : EntryOf P a (branchWork (branch ++ [a])) {
    parent := prepared.parent
    height := prepared.height
    acceptedAt := prepared.acceptedAt
    canonical := prepared.canonical
    cumulativeWork := prepared.cumulativeWork }
  blockId : prepared.blockId = a.id P
  candidate : prepared.candidate =
    if a.parent = state.tip then .active validated else .branch base validated

/-- The state of the branch a block extends, and the candidate made of it. -/
theorem prepareCandidate_eq_ok (h : Follows P params verifier accepted state index)
    {a : Acceptance} {branch : List Acceptance}
    (hbranch : Branch P index.genesis accepted a.parent branch) {candidate : ValidatedCandidate}
    (hcandidate : prepareCandidate P state index params verifier a.block a.context =
      .ok candidate) :
    ∃ base validated, stateAfter P params verifier branch = .ok base ∧
      base.validateBlock P a.block a.context = .ok validated ∧
      (a.parent = state.tip → base = state) ∧
      candidate = if a.parent = state.tip then .active validated else .branch base validated := by
  have hparent : a.block.challenge.previousBlock = a.parent := rfl
  simp only [prepareCandidate, hparent] at hcandidate
  split at hcandidate
  · next htip =>
      simp only [bind_eq_ok, mapErr_eq_ok, pure_eq_ok] at hcandidate
      obtain ⟨validated, hvalid, rfl⟩ := hcandidate
      obtain ⟨branch', hbranch', hstate, _⟩ := h.live
      obtain rfl := h.tree.branch_unique hbranch' hbranch htip
      exact ⟨state, validated, hstate, hvalid, fun _ => rfl, (if_pos htip).symm⟩
  · next htip =>
      simp only [bind_eq_ok, mapErr_eq_ok, pure_eq_ok] at hcandidate
      obtain ⟨base, hbase, validated, hvalid, rfl⟩ := hcandidate
      exact ⟨base, validated, (h.tree.rebuildStateTo_eq_ok hbranch).mp hbase, hvalid,
        fun heq => absurd heq htip, (if_neg htip).symm⟩

theorem prepareBlock_prepared (h : Follows P params verifier accepted state index)
    {a : Acceptance} {canonical : List UInt8} {prepared : PreparedBlock}
    (hcanonical : encodeBlock P a.block = .ok canonical)
    (hprepare : prepareBlock P state index params verifier a.block a.acceptedAt canonical =
      .ok prepared) :
    ∃ branch base validated,
      Prepared P params verifier accepted state index a branch base validated prepared := by
  simp only [prepareBlock, bind_eq_ok, require_eq_ok, okOr_eq_ok, mapErr_eq_ok,
    pure_eq_ok] at hprepare
  obtain ⟨_, hnew, parentWork, hwork, candidate, hcandidate, total, htotal, rfl⟩ := hprepare
  obtain ⟨branch, _, hbranch, _⟩ :=
    h.tree.exists_branch (h.tree.contains_iff.mp (IndexOf.contains_of_workAt hwork))
  obtain ⟨base, validated, hbase, hvalid, hlive, hcand⟩ :=
    prepareCandidate_eq_ok h hbranch hcandidate
  obtain ⟨work, hblockWork, rfl, hbound⟩ := addChainWork_eq_ok.mp htotal
  have hparentWork : branchWork branch = parentWork :=
    Option.some.inj ((h.tree.workAt hbranch).symm.trans hwork)
  refine ⟨branch, base, validated, ?_, hbranch, hbase, hvalid, hlive, ?_, rfl, hcand⟩
  · exact fun hmem => hnew (h.tree.contains_iff.mpr hmem)
  · have htotalWork : branchWork (branch ++ [a]) = parentWork + work := by
      rw [branchWork_snoc, Acceptance.work_eq hblockWork, hparentWork]
    refine ⟨hcanonical, rfl, rfl, rfl, htotalWork.symm, ?_, ?_⟩
    · rw [Acceptance.work_eq hblockWork]
      exact hblockWork
    · rw [htotalWork]
      exact hbound

/-! ## Committing it -/

/-- The work of the new block, and whether it takes over. -/
theorem Prepared.activates_iff {a : Acceptance} {branch : List Acceptance} {base : ChainState}
    {validated : ValidatedBlock} {prepared : PreparedBlock}
    (hp : Prepared P params verifier accepted state index a branch base validated prepared) :
    prepared.Activates index ↔ index.activeWork < branchWork (branch ++ [a]) := by
  rw [PreparedBlock.Activates, ← hp.entry.cumulativeWork]

/-- A child of the tip always takes over: its block is worth something. -/
theorem Prepared.activates_of_tip (h : Follows P params verifier accepted state index)
    {a : Acceptance} {branch : List Acceptance} {base : ChainState}
    {validated : ValidatedBlock} {prepared : PreparedBlock}
    (hp : Prepared P params verifier accepted state index a branch base validated prepared)
    (htip : a.parent = state.tip) : prepared.Activates index := by
  obtain ⟨branch', hbranch', _, _, hwork⟩ := h.live
  obtain rfl := h.tree.branch_unique hbranch' hp.parentBranch htip
  have hpos := blockWork_pos hp.entry.blockWork
  rw [hp.activates_iff, branchWork_snoc]
  omega

/-- The active chain after the commit: that of the new block, if it takes over. -/
theorem Prepared.nextActiveChain_eq (h : Follows P params verifier accepted state index)
    {a : Acceptance} {branch : List Acceptance} {base : ChainState}
    {validated : ValidatedBlock} {prepared : PreparedBlock}
    (hp : Prepared P params verifier accepted state index a branch base validated prepared) :
    nextActiveChain index prepared = .ok (if prepared.Activates index then
      some (index.genesis :: (branch ++ [a]).map (·.id P)) else none) := by
  have hparent : prepared.parent = a.parent := hp.entry.parent
  have hpath : index.pathTo prepared.parent = .ok (branch.map (·.id P)) := by
    rw [hparent, h.tree.pathTo hp.parentBranch]
  have hactive : ¬(prepared.candidate.isActive ∧ ¬prepared.Activates index) := by
    rintro ⟨hactive, hnot⟩
    refine hnot (hp.activates_of_tip h ?_)
    by_contra htip
    rw [hp.candidate, if_neg htip] at hactive
    cases hactive
  rw [nextActiveChain, require_pos hactive, ok_bind]
  split
  · rw [hpath, ok_bind, hp.blockId, List.map_append]
    rfl
  · rfl

/-- The live state after the commit, by either way into it. -/
theorem Prepared.commitCandidate_eq (h : Follows P params verifier accepted state index)
    {a : Acceptance} {branch : List Acceptance} {base : ChainState}
    {validated : ValidatedBlock} {prepared : PreparedBlock}
    (hp : Prepared P params verifier accepted state index a branch base validated prepared) :
    commitCandidate state index prepared = .ok (validated.fees,
      if prepared.Activates index then base.advance validated else state) := by
  have hcommit := commitValidated_validated hp.valid
  rw [commitCandidate, hp.candidate]
  by_cases htip : a.parent = state.tip
  · rw [if_pos htip, if_pos (hp.activates_of_tip h htip)]
    obtain rfl := hp.live htip
    simp only [hcommit, mapErr_ok]
  · rw [if_neg htip]
    simp only [hcommit, mapErr_ok, ok_bind]
    rfl

/-- The commit of a prepared block succeeds, and this is what it leaves. -/
theorem Prepared.commit (h : Follows P params verifier accepted state index)
    {a : Acceptance} {branch : List Acceptance} {base : ChainState}
    {validated : ValidatedBlock} {prepared : PreparedBlock}
    (hp : Prepared P params verifier accepted state index a branch base validated prepared) :
    commitPrepared state index prepared = {
      result := .ok validated.fees
      state := if prepared.Activates index then base.advance validated else state
      index := index.insertPrepared prepared
        (if prepared.Activates index then
          some (index.genesis :: (branch ++ [a]).map (·.id P)) else none) } := by
  have hnone : ¬(index.blocks.lookup prepared.blockId).isSome := by
    rw [hp.blockId]
    intro hsome
    refine hp.fresh (h.tree.contains_iff.mp ?_)
    rw [BlockIndex.contains, hsome, Bool.or_true]
  simp only [commitPrepared, hp.nextActiveChain_eq h, hp.commitCandidate_eq h, if_neg hnone]

/-- Inserting a prepared block changes the active chain only as it is told to. -/
theorem insertPrepared_blocks (index : BlockIndex) (prepared : PreparedBlock)
    (activeChain : Option (List Bytes32)) :
    (index.insertPrepared prepared activeChain).genesis = index.genesis ∧
      (index.insertPrepared prepared activeChain).blocks =
        index.blocks.insert prepared.blockId {
          parent := prepared.parent
          height := prepared.height
          acceptedAt := prepared.acceptedAt
          canonical := prepared.canonical
          cumulativeWork := prepared.cumulativeWork } := by
  cases activeChain with
  | none => exact ⟨rfl, rfl⟩
  | some activeChain => exact ⟨rfl, rfl⟩

/-- The tree after the commit, whichever active chain it sets. -/
theorem Prepared.tree (h : Follows P params verifier accepted state index)
    {a : Acceptance} {branch : List Acceptance} {base : ChainState}
    {validated : ValidatedBlock} {prepared : PreparedBlock}
    (hp : Prepared P params verifier accepted state index a branch base validated prepared)
    (activeChain : Option (List Bytes32)) :
    IndexOf P params verifier (accepted ++ [a]) (index.insertPrepared prepared activeChain) := by
  obtain ⟨hgenesis, hblocks⟩ := insertPrepared_blocks index prepared activeChain
  rw [hp.blockId] at hblocks
  exact h.tree.insert hp.fresh hp.parentBranch hp.entry
    (stateAfter_snoc.mpr ⟨base, validated, hp.baseState, hp.valid, rfl⟩) hgenesis hblocks

/-- The weights after the commit: the old ones, and that of the new block. -/
theorem Prepared.weight (h : Follows P params verifier accepted state index)
    {a : Acceptance} {branch : List Acceptance} {base : ChainState}
    {validated : ValidatedBlock} {prepared : PreparedBlock}
    (hp : Prepared P params verifier accepted state index a branch base validated prepared)
    (activeChain : Option (List Bytes32)) :
    (∀ id ∈ acceptedIds P index.genesis accepted,
        (index.insertPrepared prepared activeChain).weight id = index.weight id) ∧
      (index.insertPrepared prepared activeChain).weight (a.id P) =
        branchWork (branch ++ [a]) := by
  have htree := hp.tree h activeChain
  have hgenesis := (insertPrepared_blocks index prepared activeChain).1
  have hsub : accepted ⊆ accepted ++ [a] := List.subset_append_left _ _
  constructor
  · exact fun id hid => h.tree.weight_append htree hid
  · refine htree.weight_eq (hgenesis ▸ .child ?_ (hp.parentBranch.mono hsub))
    exact List.mem_append_right _ List.mem_cons_self

/-- One accepted block: the node goes on following the first of the heaviest. -/
theorem Prepared.follows (h : Follows P params verifier accepted state index)
    {a : Acceptance} {branch : List Acceptance} {base : ChainState}
    {validated : ValidatedBlock} {prepared : PreparedBlock}
    (hp : Prepared P params verifier accepted state index a branch base validated prepared) :
    Follows P params verifier (accepted ++ [a])
      (if prepared.Activates index then base.advance validated else state)
      (index.insertPrepared prepared
        (if prepared.Activates index then
          some (index.genesis :: (branch ++ [a]).map (·.id P)) else none)) := by
  have hsub : accepted ⊆ accepted ++ [a] := List.subset_append_left _ _
  obtain ⟨live, hlive, hliveState, hchain, hwork⟩ := h.live
  have htipWeight : index.weight state.tip = index.activeWork :=
    (h.tree.weight_eq hlive).trans hwork.symm
  split
  · next hactivates =>
      have hlt := hp.activates_iff.mp hactivates
      obtain ⟨hold, hnew⟩ :=
        hp.weight h (some (index.genesis :: (branch ++ [a]).map (·.id P)))
      have htip : (base.advance validated).tip = a.id P :=
        (validateBlock_validated hp.valid).nextTip
      refine ⟨hp.tree h _, ⟨branch ++ [a], ?_, ?_, rfl, hp.entry.cumulativeWork⟩, ?_⟩
      · rw [htip]
        exact .child (List.mem_append_right _ List.mem_cons_self) (hp.parentBranch.mono hsub)
      · exact stateAfter_snoc.mpr ⟨base, validated, hp.baseState, hp.valid, rfl⟩
      · show FirstGreatest _ (acceptedIds P index.genesis (accepted ++ [a])) _
        rw [htip, acceptedIds_snoc]
        refine (h.best.congr hold).snoc_of_lt ?_
        rw [hnew, hold _ h.best.mem, htipWeight]
        exact hlt
  · next hactivates =>
      have hle := Nat.not_lt.mp (fun hlt => hactivates (hp.activates_iff.mpr hlt))
      obtain ⟨hold, hnew⟩ := hp.weight h none
      refine ⟨hp.tree h _, ⟨live, hlive.mono hsub, hliveState, hchain, hwork⟩, ?_⟩
      show FirstGreatest _ (acceptedIds P index.genesis (accepted ++ [a])) _
      rw [acceptedIds_snoc]
      refine (h.best.congr hold).append_of_le fun id hid => ?_
      rw [List.mem_singleton.mp hid, hnew, hold _ h.best.mem, htipWeight]
      exact hle

/-- A block that was just prepared is committed, and the node follows the tree
with it. -/
theorem prepareBlock_commit (h : Follows P params verifier accepted state index) {a : Acceptance}
    {canonical : List UInt8} {prepared : PreparedBlock}
    (hcanonical : encodeBlock P a.block = .ok canonical)
    (hprepare : prepareBlock P state index params verifier a.block a.acceptedAt canonical =
      .ok prepared) :
    ∃ fees state' index',
      commitPrepared state index prepared = { result := .ok fees, state := state', index := index' } ∧
      Follows P params verifier (accepted ++ [a]) state' index' := by
  obtain ⟨branch, base, validated, hp⟩ := prepareBlock_prepared h hcanonical hprepare
  exact ⟨_, _, _, hp.commit h, hp.follows h⟩

end

end CommonFoundry
