/-
# `CommonFoundry.Node.TipHistory` — a tip that is left does not return

The tip is the first of the heaviest blocks, and blocks are only added.  So the tips of a
node get heavier and heavier: once another block is the tip, a block that was it is
lighter than the active branch for good (`Node.Left`), whatever is accepted later, side
branches and reorganisations included.
-/
import CommonFoundry.Node.ActiveBranch
import CommonFoundry.Node.Template

namespace CommonFoundry

open Lib Lib.Outcome

variable {P : Platform} {params : NetworkParams} {verifier : ConsensusPowVerifier}
  {accepted more : List Acceptance} {node later : Node} {id : Bytes32}

/-- The block is in the index, and lighter than the active branch. -/
structure Node.Left (node : Node) (id : Bytes32) : Prop where
  contains : node.index.contains id = true
  lighter : node.index.weight id < node.index.activeWork

/-- The tips of a later node: what was left stays so, and the tip is the same or left. -/
structure Node.MovesTo (node later : Node) : Prop where
  left : ∀ id, node.Left id → later.Left id
  tip : later.state.tip = node.state.tip ∨ later.Left node.state.tip

theorem Node.Left.ne_tip (h : NodeRun P params verifier accepted node) (hleft : node.Left id) :
    id ≠ node.state.tip := by
  rintro rfl
  have hlighter := hleft.lighter
  rw [h.consistent.followsHeaviest.weight_tip] at hlighter
  omega

/-- A node that has accepted more. -/
theorem NodeRun.movesTo (h : NodeRun P params verifier accepted node)
    (hlater : NodeRun P params verifier (accepted ++ more) later) : node.MovesTo later := by
  have hfollows := h.consistent.follows
  have hfollows' := hlater.consistent.follows
  have hgenesis : node.index.genesis = later.index.genesis :=
    hfollows.tree.genesis.trans hfollows'.tree.genesis.symm
  have hheaviest := h.consistent.followsHeaviest
  have hheaviest' := hlater.consistent.followsHeaviest
  -- the blocks that were there keep their weights, and active work does not shrink
  have hold : ∀ id ∈ acceptedIds P node.index.genesis accepted,
      later.index.weight id = node.index.weight id :=
    fun id hid => hfollows.tree.weight_append hfollows'.tree hid
  have hgrows : node.index.activeWork ≤ later.index.activeWork := by
    rw [← hheaviest.weight_tip, ← hold _ hfollows.best.mem]
    exact hheaviest'.weight_le _
  have hcontains : ∀ id, node.index.contains id = true → later.index.contains id = true := by
    intro id hid
    have hmem := hfollows.tree.contains_iff.mp hid
    refine hfollows'.tree.contains_iff.mpr ?_
    rw [acceptedIds, List.map_append, ← List.cons_append, ← hgenesis]
    exact List.mem_append_left _ hmem
  refine ⟨fun id hleft => ⟨hcontains id hleft.contains, ?_⟩, ?_⟩
  · rw [hold id (hfollows.tree.contains_iff.mp hleft.contains)]
    exact lt_of_lt_of_le hleft.lighter hgrows
  · by_cases htip : later.state.tip = node.state.tip
    · exact .inl htip
    · refine .inr ⟨hcontains _ (hfollows.tree.contains_iff.mpr hfollows.best.mem), ?_⟩
      have hbest := hfollows'.best
      rw [acceptedIds, List.map_append, ← List.cons_append, ← hgenesis] at hbest
      rw [← hheaviest'.weight_tip]
      exact (hfollows.best.congr hold).lt_of_ne hbest htip

/-- A call on a node moves its tip forward, if at all. -/
theorem NodeRun.movesTo_submitBlock (h : NodeRun P params verifier accepted node)
    {append : AppendOutcome} {block : Block} {acceptedAt : UInt64}
    {result : Outcome NodeError UInt64}
    (hsubmit : node.submitBlock P append block acceptedAt = (result, later)) :
    (∃ more, NodeRun P params verifier (accepted ++ more) later) ∧ node.MovesTo later := by
  cases result with
  | ok fees =>
      have hlater := h.accepted hsubmit
      exact ⟨⟨_, hlater⟩, h.movesTo hlater⟩
  | error fault =>
      have hlater := h.refused hsubmit
      rw [← List.append_nil accepted] at hlater
      exact ⟨⟨_, hlater⟩, h.movesTo hlater⟩

theorem NodeRun.movesTo_submitTransaction (h : NodeRun P params verifier accepted node)
    {transaction : Transaction} {result : Outcome NodeError MempoolEntry}
    (hsubmit : node.submitTransaction P transaction = (result, later)) :
    (∃ more, NodeRun P params verifier (accepted ++ more) later) ∧ node.MovesTo later := by
  have hlater := h.transaction hsubmit
  rw [← List.append_nil accepted] at hlater
  exact ⟨⟨_, hlater⟩, h.movesTo hlater⟩

/-- A block that is accepted on the tip leaves it. -/
theorem NodeRun.left_of_accepted (h : NodeRun P params verifier accepted node)
    {append : AppendOutcome} {block : Block} {acceptedAt fees : UInt64}
    (hsubmit : node.submitBlock P append block acceptedAt = (.ok fees, later))
    (hparent : block.challenge.previousBlock = node.state.tip) : later.Left node.state.tip := by
  have hlater := h.accepted hsubmit
  refine (h.movesTo hlater).tip.resolve_left fun htip => ?_
  exact hlater.parent_ne_tip ⟨block, acceptedAt⟩ (List.mem_append_right _ (List.mem_singleton_self _))
    (hparent.trans htip.symm)

end CommonFoundry
