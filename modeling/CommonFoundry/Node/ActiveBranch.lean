/-
# `CommonFoundry.Node.ActiveBranch` — the active branch, in every run of a node

Two results about any run.  The node follows the first of the heaviest accepted
blocks, and its index and active chain say so (`node_follows_heaviest`); and the
live state is the one that replaying the active branch from genesis gives, by
whichever mixture of direct commits, side branches and reorganisations it was
reached (`live_state_eq_rebuild`).
-/
import CommonFoundry.Node.NodeRun

namespace CommonFoundry

open Lib Lib.Outcome

variable {P : Platform}

/-- The fork choice of a node that has accepted these blocks, in this order. -/
structure Node.FollowsHeaviest (P : Platform) (accepted : List Acceptance) (node : Node) :
    Prop where
  /-- the index holds genesis and the accepted blocks -/
  contains_iff : ∀ id,
    node.index.contains id = true ↔ id ∈ acceptedIds P node.index.genesis accepted
  /-- it is closed under parents -/
  parent : ∀ id entry, node.index.blocks.lookup id = some entry →
    node.index.contains entry.parent = true
  /-- cumulative work is the sum of the works of the path from genesis -/
  cumulativeWork : ∀ id entry, node.index.blocks.lookup id = some entry →
    ∃ branch, Branch P node.index.genesis accepted id branch ∧
      node.index.pathTo id = .ok (branch.map (·.id P)) ∧
      (∀ a ∈ branch, blockWork a.block.challenge.target = .ok a.work) ∧
      entry.cumulativeWork = (branch.map (·.work)).sum
  /-- active work is the greatest cumulative work -/
  activeWork_le : ∀ id work, node.index.workAt id = some work → work ≤ node.index.activeWork
  activeWork_tip : node.index.workAt node.state.tip = some node.index.activeWork
  /-- the tip is the first of the blocks that have it -/
  first : ∃ before after,
    acceptedIds P node.index.genesis accepted = before ++ node.state.tip :: after ∧
    ∀ id ∈ before, ∃ work, node.index.workAt id = some work ∧ work < node.index.activeWork
  /-- the active chain is the path to the tip -/
  activeChain : ∃ path, node.index.pathTo node.state.tip = .ok path ∧
    node.index.activeChain = node.index.genesis :: path
  /-- in height order -/
  height : ∀ position id entry, node.index.activeChain[position]? = some id →
    node.index.blocks.lookup id = some entry → entry.height.toNat = position

section

variable {params : NetworkParams} {verifier : ConsensusPowVerifier} {accepted : List Acceptance}
  {index : BlockIndex} {id : Bytes32} {entry : IndexedBlock}

/-- The entry under a key is that of the accepted block with this identifier. -/
theorem IndexOf.entry_of_lookup (h : IndexOf P params verifier accepted index)
    (hlookup : index.blocks.lookup id = some entry) :
    ∃ a branch state, a ∈ accepted ∧ a.id P = id ∧ Branch P index.genesis accepted a.parent branch ∧
      EntryOf P a (branchWork (branch ++ [a])) entry ∧
      stateAfter P params verifier (branch ++ [a]) = .ok state := by
  obtain ⟨a, ha, rfl⟩ := h.lookup id entry hlookup
  obtain ⟨branch, entry', state, hbranch, hlookup', hentry, hstate⟩ := h.entry a ha
  obtain rfl := Option.some.inj (hlookup.symm.trans hlookup')
  exact ⟨a, branch, state, ha, rfl, hbranch, hentry, hstate⟩

/-- The height of an accepted block is the length of its branch. -/
theorem IndexOf.height_eq (h : IndexOf P params verifier accepted index)
    {branch : List Acceptance} (hbranch : Branch P index.genesis accepted id branch)
    (hlookup : index.blocks.lookup id = some entry) : entry.height.toNat = branch.length := by
  obtain ⟨a, parentBranch, _, ha, rfl, hparent, hentry, hstate⟩ := h.entry_of_lookup hlookup
  obtain rfl := h.branch_unique (.child ha hparent) hbranch rfl
  obtain ⟨base, validated, hbase, hvalid, _⟩ := stateAfter_snoc.mp hstate
  rw [hentry.height, (validateBlock_validated hvalid).height, stateAfter_nextHeight hbase,
    List.length_append, List.length_singleton]

/-- Position on a branch is height. -/
theorem IndexOf.height_of_position (h : IndexOf P params verifier accepted index)
    {tip : Bytes32} {branch : List Acceptance}
    (hbranch : Branch P index.genesis accepted tip branch) {position : Nat}
    (hposition : (index.genesis :: branch.map (·.id P))[position]? = some id)
    (hlookup : index.blocks.lookup id = some entry) : entry.height.toNat = position := by
  cases position with
  | zero =>
      obtain rfl := Option.some.inj hposition
      obtain ⟨a, _, _, ha, hid, _⟩ := h.entry_of_lookup hlookup
      exact absurd hid (h.id_ne_genesis ha)
  | succ i =>
      rw [List.getElem?_cons_succ] at hposition
      obtain ⟨hi, hget⟩ := List.getElem?_eq_some_iff.mp hposition
      have hsplit : branch.map (·.id P) =
          (branch.map (·.id P)).take i ++ id :: (branch.map (·.id P)).drop (i + 1) := by
        rw [← hget, ← List.drop_eq_getElem_cons hi, List.take_append_drop]
      have hpath := (h.path hbranch).to_mem hsplit
      obtain ⟨a, parentBranch, _, ha, rfl, hparent, _⟩ := h.entry_of_lookup hlookup
      have hchild := Branch.child ha hparent
      have hlen := congrArg List.length ((h.path hchild).unique hpath)
      rw [h.height_eq hchild hlookup]
      rw [List.length_map] at hi
      simp only [List.length_map, List.length_append, List.length_take,
        List.length_singleton] at hlen ⊢
      omega

/-- The fork choice, from the invariant. -/
theorem Node.Consistent.followsHeaviest {node : Node}
    (h : node.Consistent P params verifier accepted) : node.FollowsHeaviest P accepted := by
  obtain ⟨htree, ⟨live, hlive, _, hchain, hwork⟩, hbest⟩ := h.follows
  have htip : node.index.workAt node.state.tip = some node.index.activeWork :=
    hwork ▸ htree.workAt hlive
  have hweight : node.index.weight node.state.tip = node.index.activeWork := by
    rw [BlockIndex.weight, htip, Option.getD_some]
  refine ⟨fun id => htree.contains_iff, ?_, ?_, ?_, htip, ?_, ?_, ?_⟩
  · intro id entry hlookup
    obtain ⟨a, branch, _, _, _, hparent, hentry, _⟩ := htree.entry_of_lookup hlookup
    rw [hentry.parent]
    exact htree.contains_iff.mpr hparent.mem_acceptedIds
  · intro id entry hlookup
    obtain ⟨a, branch, _, ha, rfl, hparent, hentry, _⟩ := htree.entry_of_lookup hlookup
    refine ⟨branch ++ [a], .child ha hparent, htree.pathTo (.child ha hparent), ?_,
      hentry.cumulativeWork⟩
    intro b hb
    obtain ⟨_, _, _, _, _, hentry', _⟩ := htree.entry b ((Branch.child ha hparent).subset hb)
    exact hentry'.blockWork
  · intro id work hid
    have hmem := htree.contains_iff.mp (IndexOf.contains_of_workAt hid)
    have hle := hbest.le id hmem
    rwa [hweight, BlockIndex.weight, hid, Option.getD_some] at hle
  · obtain ⟨before, after, heq, hlt⟩ := hbest.first
    refine ⟨before, after, heq, fun id hid => ?_⟩
    obtain ⟨branch, _, hbranch, _⟩ :=
      htree.exists_branch (heq ▸ List.mem_append_left _ hid)
    have hidlt := hlt id hid
    rw [hweight, htree.weight_eq hbranch] at hidlt
    exact ⟨_, htree.workAt hbranch, hidlt⟩
  · exact ⟨_, htree.pathTo hlive, hchain⟩
  · intro position id entry hposition hlookup
    rw [hchain] at hposition
    exact htree.height_of_position hlive hposition hlookup

theorem Node.FollowsHeaviest.weight_le {node : Node} (h : node.FollowsHeaviest P accepted)
    (id : Bytes32) : node.index.weight id ≤ node.index.activeWork := by
  rw [BlockIndex.weight]
  cases hwork : node.index.workAt id with
  | none => exact Nat.zero_le _
  | some work => exact h.activeWork_le id work hwork

theorem Node.FollowsHeaviest.weight_tip {node : Node} (h : node.FollowsHeaviest P accepted) :
    node.index.weight node.state.tip = node.index.activeWork := by
  rw [BlockIndex.weight, h.activeWork_tip, Option.getD_some]

/-- A node that has accepted a block has some work. -/
theorem activeWork_pos {node : Node}
    (h : node.Consistent P params verifier accepted) {a : Acceptance}
    (ha : a ∈ accepted) : 0 < node.index.activeWork := by
  obtain ⟨branch, _, _, hbranch, _, hentry, _⟩ := h.follows.tree.entry a ha
  have hle := h.followsHeaviest.weight_le (a.id P)
  rw [h.follows.tree.weight_eq (.child ha hbranch), branchWork_snoc] at hle
  have hpos := blockWork_pos hentry.blockWork
  omega

/-- After any sequence of calls the node follows the first of the heaviest
accepted blocks. -/
theorem node_follows_heaviest {node : Node} (h : NodeRun P params verifier accepted node) :
    node.FollowsHeaviest P accepted :=
  h.consistent.followsHeaviest

theorem node_follows_heaviest_sample : sampleNode.FollowsHeaviest samplePlatform sampleFork :=
  node_follows_heaviest sampleNode_run

/-- After any sequence of calls the live state is the one that
`rebuild_state_to` gives for the active tip, and every other block of the index
rebuilds too. -/
theorem live_state_eq_rebuild {node : Node} (h : NodeRun P params verifier accepted node) :
    rebuildStateTo P node.index node.params node.verifier node.state.tip = .ok node.state ∧
      ∀ id, node.index.contains id = true →
        ∃ state, rebuildStateTo P node.index node.params node.verifier id = .ok state ∧
          state.tip = id := by
  obtain ⟨⟨htree, ⟨live, hlive, hstate, _, _⟩, _⟩, ⟨hparams, hverifier⟩, _⟩ := h.consistent
  rw [hparams, hverifier]
  refine ⟨(htree.rebuildStateTo_eq_ok hlive).mpr hstate, fun id hid => ?_⟩
  obtain ⟨branch, state, hbranch, hafter⟩ := htree.exists_branch (htree.contains_iff.mp hid)
  exact ⟨state, (htree.rebuildStateTo_eq_ok hbranch).mpr hafter,
    stateAfter_tip htree.genesis hbranch hafter⟩

theorem live_state_eq_rebuild_sample :
    rebuildStateTo samplePlatform sampleNode.index sampleNode.params sampleNode.verifier
        sampleNode.state.tip = .ok sampleNode.state ∧
      ∀ id, sampleNode.index.contains id = true →
        ∃ state, rebuildStateTo samplePlatform sampleNode.index sampleNode.params
          sampleNode.verifier id = .ok state ∧ state.tip = id :=
  live_state_eq_rebuild sampleNode_run

end

end CommonFoundry
