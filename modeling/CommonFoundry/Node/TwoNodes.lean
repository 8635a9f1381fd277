/-
# `CommonFoundry.Node.TwoNodes` — what two nodes of one network have in common

Two nodes with equal parameters, each with its own tree of accepted blocks and
its own acceptance times.  If an identifier names one block among all of these
(`SameBlocks`), then a key that both trees hold has the same branch in both, with
the same work and the same state: validation reads the clock only to refuse a
timestamp that is too far ahead (`validateBlock_timely`).

So what one node has accepted the other accepts too, as soon as it has the
parent and its own clock allows it (`stageBlock_transfer`).
-/
import CommonFoundry.Consensus.TwoPhaseCommit
import CommonFoundry.Node.NodeRun

namespace CommonFoundry

open Lib Lib.Outcome

variable {P : Platform}

section

variable {params : NetworkParams} {verifier : ConsensusPowVerifier}

/-- Branches with the same blocks lead to the same state. -/
theorem stateAfter_agree {branch branch' : List Acceptance} {state state' : ChainState}
    (hblocks : branch.map (·.block) = branch'.map (·.block))
    (h : stateAfter P params verifier branch = .ok state)
    (h' : stateAfter P params verifier branch' = .ok state') : state = state' := by
  induction branch using List.reverseRecOn generalizing branch' state state' with
  | nil =>
      obtain rfl := List.map_eq_nil_iff.mp hblocks.symm
      exact Except.ok.inj (h.symm.trans h')
  | append_singleton branch a ih =>
      rcases List.eq_nil_or_concat branch' with rfl | ⟨branch', a', rfl⟩
      · rw [List.map_append] at hblocks
        exact absurd hblocks (List.append_ne_nil_of_right_ne_nil _ (List.cons_ne_nil _ _))
      · rw [List.concat_eq_append, List.map_append, List.map_append] at hblocks
        obtain ⟨hbranch, hlast⟩ := List.append_inj' hblocks rfl
        rw [List.concat_eq_append] at h'
        obtain ⟨base, validated, hbase, hvalid, rfl⟩ := stateAfter_snoc.mp h
        obtain ⟨base', validated', hbase', hvalid', rfl⟩ := stateAfter_snoc.mp h'
        obtain rfl := ih hbranch hbase hbase'
        have hblock : a.block = a'.block := List.singleton_inj.mp hlast
        rw [← hblock] at hvalid'
        rw [validateBlock_unique hvalid hvalid']

/-! ## Two trees -/

/-- Among the blocks two nodes have accepted, an identifier names one block. -/
def SameBlocks (P : Platform) (accepted accepted' : List Acceptance) : Prop :=
  ∀ a ∈ accepted, ∀ b ∈ accepted', a.id P = b.id P → a.block = b.block

variable {accepted accepted' : List Acceptance} {index index' : BlockIndex}

/-- A key of both trees has the same blocks on its branch, whatever else the networks have in
common. -/
theorem Branch.agree_of_genesis {params' : NetworkParams} {verifier' : ConsensusPowVerifier}
    (h : IndexOf P params verifier accepted index)
    (h' : IndexOf P params' verifier' accepted' index') (hsame : SameBlocks P accepted accepted')
    (hgenesis : index.genesis = index'.genesis)
    {id id' : Bytes32} {branch branch' : List Acceptance}
    (hbranch : Branch P index.genesis accepted id branch)
    (hbranch' : Branch P index'.genesis accepted' id' branch') (hid : id = id') :
    branch.map (·.block) = branch'.map (·.block) := by
  induction hbranch generalizing id' branch' with
  | genesis =>
      cases hbranch' with
      | genesis => rfl
      | child hmem' _ => exact absurd (hid.symm.trans hgenesis) (h'.id_ne_genesis hmem')
  | child hmem _ ih =>
      cases hbranch' with
      | genesis => exact absurd (hid.trans hgenesis.symm) (h.id_ne_genesis hmem)
      | child hmem' hrest' =>
          have hblock := hsame _ hmem _ hmem' hid
          rw [List.map_append, List.map_append,
            ih hrest' (congrArg (·.challenge.previousBlock) hblock), List.map_singleton,
            List.map_singleton, hblock]

theorem Branch.agree (h : IndexOf P params verifier accepted index)
    (h' : IndexOf P params verifier accepted' index') (hsame : SameBlocks P accepted accepted')
    {id id' : Bytes32} {branch branch' : List Acceptance}
    (hbranch : Branch P index.genesis accepted id branch)
    (hbranch' : Branch P index'.genesis accepted' id' branch') (hid : id = id') :
    branch.map (·.block) = branch'.map (·.block) :=
  hbranch.agree_of_genesis h h' hsame (h.genesis.trans h'.genesis.symm) hbranch' hid

theorem work_of_blocks (branch : List Acceptance) :
    branchWork branch = ((branch.map (·.block)).map fun block =>
      Acceptance.work ⟨block, 0⟩).sum := by
  rw [branchWork, List.map_map]
  rfl

/-- A key of both trees has the same weight in both. -/
theorem weight_agree (h : IndexOf P params verifier accepted index)
    (h' : IndexOf P params verifier accepted' index') (hsame : SameBlocks P accepted accepted')
    {id : Bytes32} (hid : index.contains id = true) (hid' : index'.contains id = true) :
    index.weight id = index'.weight id := by
  obtain ⟨branch, _, hbranch, _⟩ := h.exists_branch (h.contains_iff.mp hid)
  obtain ⟨branch', _, hbranch', _⟩ := h'.exists_branch (h'.contains_iff.mp hid')
  rw [h.weight_eq hbranch, h'.weight_eq hbranch', work_of_blocks, work_of_blocks,
    hbranch.agree h h' hsame hbranch' rfl]

/-- A tree that holds a block of the other one holds its parent. -/
theorem contains_parent (h : IndexOf P params verifier accepted index)
    (h' : IndexOf P params verifier accepted' index') (hsame : SameBlocks P accepted accepted')
    {b : Acceptance} (hb : b ∈ accepted') (hid : index.contains (b.id P) = true) :
    index.contains b.parent = true := by
  have hgenesis : index.genesis = index'.genesis := h.genesis.trans h'.genesis.symm
  rcases List.mem_cons.mp (h.contains_iff.mp hid) with heq | hmem
  · exact absurd (heq.trans hgenesis) (h'.id_ne_genesis hb)
  · obtain ⟨a, ha, haid⟩ := List.mem_map.mp hmem
    obtain ⟨branch, _, _, hbranch, _⟩ := h.entry a ha
    have hparent : a.parent = b.parent :=
      congrArg (·.challenge.previousBlock) (hsame a ha b hb haid)
    exact hparent ▸ h.contains_iff.mpr hbranch.mem_acceptedIds

/-! ## Accepting what the other has accepted -/

theorem blockRecord_of_blockLog {log : List UInt8} (h : blockLog P accepted = .ok log)
    {a : Acceptance} (ha : a ∈ accepted) : ∃ record, blockRecord P a = .ok record := by
  induction accepted generalizing log with
  | nil => cases ha
  | cons head rest ih =>
      obtain ⟨record, after, hrecord, hafter, _⟩ := blockLog_cons.mp h
      rcases List.mem_cons.mp ha with rfl | ha
      · exact ⟨record, hrecord⟩
      · exact ih hafter ha

/-- Whether a record can be written does not depend on the time in it. -/
theorem encodeRecord_at {acceptedAt acceptedAt' : UInt64} {canonical record : List UInt8}
    (h : encodeRecord P acceptedAt canonical = .ok record) :
    ∃ record', encodeRecord P acceptedAt' canonical = .ok record' := by
  simp only [encodeRecord, bind_eq_ok, require_eq_ok, pure_eq_ok] at h ⊢
  obtain ⟨_, hword, _, hlimit, _⟩ := h
  exact ⟨_, (), hword, (), hlimit, rfl⟩

variable {node remote : Node}

/-- The candidate for a block that is valid in the state of its parent's branch. -/
theorem prepareCandidate_of_valid {state base : ChainState}
    (h : Follows P params verifier accepted state index) {block : Block} {branch : List Acceptance}
    (hbranch : Branch P index.genesis accepted block.challenge.previousBlock branch)
    (hbase : stateAfter P params verifier branch = .ok base)
    {context : BlockValidationContext} {validated : ValidatedBlock}
    (hvalid : base.validateBlock P block context = .ok validated) :
    ∃ candidate, prepareCandidate P state index params verifier block context = .ok candidate := by
  simp only [prepareCandidate]
  split
  · next htip =>
      obtain ⟨live, hlive, hstate, _⟩ := h.live
      obtain rfl := h.tree.branch_unique hlive hbranch htip
      obtain rfl := Except.ok.inj (hstate.symm.trans hbase)
      exact ⟨.active validated, by rw [hvalid]; rfl⟩
  · have hrebuild := (h.tree.rebuildStateTo_eq_ok hbranch).mpr hbase
    exact ⟨.branch base validated, by rw [hrebuild, ok_bind, hvalid]; rfl⟩

/-- A block that one node has accepted gets past the checks of the other, if it
is new there, its parent is not, and the clock allows it. -/
theorem stageBlock_transfer (hnode : node.Consistent P params verifier accepted)
    (hremote : remote.Consistent P params verifier accepted')
    (hsame : SameBlocks P accepted accepted') (hsound : node.storageFaulted = false)
    {b : Acceptance} (hb : b ∈ accepted') (hparent : node.index.contains b.parent = true)
    (hnew : ¬node.index.contains (b.id P) = true) {now : UInt64}
    (htimely : Timely params now b.block) :
    ∃ staged, node.stageBlock P b.block now = .ok staged := by
  have htree := hnode.follows.tree
  have htree' := hremote.follows.tree
  obtain ⟨branch', entry, _, hbranch', _, hentry, hafter'⟩ := htree'.entry b hb
  obtain ⟨base', validated, hbase', hvalid, _⟩ := stateAfter_snoc.mp hafter'
  obtain ⟨branch, base, hbranch, hbase⟩ := htree.exists_branch (htree.contains_iff.mp hparent)
  have hblocks := hbranch.agree htree htree' hsame hbranch' rfl
  obtain rfl := stateAfter_agree hblocks hbase hbase'
  -- the same token, at the clock of this node
  have hvalid' : base.validateBlock P b.block { nowUnixSeconds := now } = .ok validated :=
    validateBlock_timely hvalid (by rw [stateAfter_params hbase]; exact htimely)
  obtain ⟨candidate, hcandidate⟩ := prepareCandidate_of_valid hnode.follows hbranch hbase hvalid'
  have hwork : node.index.workAt b.parent = some (branchWork branch) := htree.workAt hbranch
  have htotal : addChainWork (branchWork branch) b.block.challenge.target =
      .ok (branchWork branch + b.work) := by
    have heq : branchWork branch + b.work = branchWork (branch' ++ [b]) := by
      rw [branchWork_snoc, work_of_blocks, hblocks, ← work_of_blocks]
    refine addChainWork_eq_ok.mpr ⟨_, hentry.blockWork, rfl, ?_⟩
    rw [heq]
    exact hentry.bounded
  obtain ⟨log, hlog, _⟩ := hremote.log
  obtain ⟨_, hrecord⟩ := blockRecord_of_blockLog hlog hb
  obtain ⟨canonical, hencode, hrecord⟩ := blockRecord_eq_ok.mp hrecord
  obtain ⟨record, hrecord'⟩ := encodeRecord_at hrecord
  have hprepare : ∃ prepared, prepareBlock P node.state node.index params verifier b.block now
      canonical = .ok prepared := by
    simp only [prepareBlock, bind_eq_ok, require_eq_ok, okOr_eq_ok, mapErr_eq_ok, pure_eq_ok]
    exact ⟨_, (), hnew, _, hwork, candidate, hcandidate, _, htotal, rfl⟩
  obtain ⟨prepared, hprepare⟩ := hprepare
  rw [← hnode.constant.1, ← hnode.constant.2] at hprepare
  exact ⟨(prepared, record), stageBlock_eq_ok (a := ⟨b.block, now⟩).mpr
    ⟨hsound, canonical, hencode, hprepare, hrecord'⟩⟩

end

end CommonFoundry
