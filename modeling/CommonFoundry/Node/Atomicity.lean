/-
# `CommonFoundry.Node.Atomicity` — what a refused block leaves behind

A submitted block fails at one of three points.  Before the log nothing at all
has changed.  At the log only the log has, and the node is faulted: it refuses
every later block and template, because nothing clears the flag
(`Node.Later.faulted`).  After the log it does not fail: the commit of a block
that was just prepared against the same state always succeeds.

So the log of a node that is not faulted holds exactly the accepted blocks.
-/
import CommonFoundry.Node.NodeRun

namespace CommonFoundry

open Lib Lib.Outcome

variable {P : Platform}

/-- Any sequence of calls, from one node to a later one. -/
inductive Node.Later (P : Platform) (node : Node) : Node → Prop
  | now : Node.Later P node node
  | block {later later' : Node} {append : AppendOutcome} {block : Block} {acceptedAt : UInt64}
      {result : Outcome NodeError UInt64} : Node.Later P node later →
      later.submitBlock P append block acceptedAt = (result, later') → Node.Later P node later'
  | transaction {later later' : Node} {transaction : Transaction}
      {result : Outcome NodeError MempoolEntry} : Node.Later P node later →
      later.submitTransaction P transaction = (result, later') → Node.Later P node later'

/-- A node that refuses blocks and templates because its log is faulted. -/
structure Node.Refuses (P : Platform) (node : Node) : Prop where
  block : ∀ append block acceptedAt,
    node.submitBlock P append block acceptedAt = (fail .storageFaulted, node)
  template : ∀ minerDestination nowUnixSeconds,
    node.buildTemplate P minerDestination nowUnixSeconds = fail .storageFaulted

theorem Node.refuses_of_faulted {node : Node} (h : node.storageFaulted = true) :
    node.Refuses P := by
  have hfaulted : ¬¬node.storageFaulted = true := fun hnot => hnot h
  constructor
  · intro append block acceptedAt
    rw [Node.submitBlock, Node.stageBlock, require_neg hfaulted]
    rfl
  · intro minerDestination nowUnixSeconds
    rw [Node.buildTemplate, require_neg hfaulted]
    rfl

/-- Nothing clears the flag. -/
theorem Node.Later.faulted {node later : Node} (h : node.Later P later)
    (hfaulted : node.storageFaulted = true) : later.storageFaulted = true := by
  induction h with
  | now => exact hfaulted
  | block _ hsubmit ih =>
      rw [(Node.refuses_of_faulted ih).block] at hsubmit
      obtain ⟨_, rfl⟩ := Prod.mk.inj hsubmit
      exact ih
  | transaction _ hsubmit ih =>
      rw [submitTransaction_unchanged hsubmit]
      exact ih

section

variable {params : NetworkParams} {verifier : ConsensusPowVerifier} {accepted : List Acceptance}
  {node : Node}

/-- The node after a failed append or sync: the log may have grown, and from now
on no block and no template is served. -/
structure Node.Faulted (P : Platform) (node node' : Node) : Prop where
  state : node'.state = node.state
  index : node'.index = node.index
  activeChain : node'.index.activeChain = node.index.activeChain
  mempool : node'.mempool = node.mempool
  faulted : node'.storageFaulted = true
  later : ∀ later, node'.Later P later → later.Refuses P

/-- Every way a submitted block can fail is before the log, with nothing changed,
or at the log; a block whose record is synced is accepted; and the log of a node
that is not faulted is that of the accepted blocks. -/
theorem submit_block_atomic (h : NodeRun P params verifier accepted node) (append : AppendOutcome)
    (block : Block) (acceptedAt : UInt64) :
    (∀ fault node', node.submitBlock P append block acceptedAt = (.error fault, node') →
      (node.stageBlock P block acceptedAt = .error fault ∧ node' = node) ∨
      ((∃ staged, node.stageBlock P block acceptedAt = .ok staged) ∧ append ≠ .synced ∧
        node.Faulted P node')) ∧
    (∀ prepared record, node.stageBlock P block acceptedAt = .ok (prepared, record) →
      ∃ fees node', node.submitBlock P .synced block acceptedAt = (.ok fees, node') ∧
        commitPrepared node.state node.index prepared =
          { result := .ok fees, state := node'.state, index := node'.index } ∧
        node'.log = node.log ++ record ∧ node'.storageFaulted = false) ∧
    (node.storageFaulted = false → blockLog P accepted = .ok node.log) := by
  have hconsistent := h.consistent
  refine ⟨fun fault node' hsubmit => ?_, fun prepared record hstage => ?_, fun hsound => ?_⟩
  · rcases submitBlock_ends hconsistent ⟨block, acceptedAt⟩ append with ⟨_, hstage, heq⟩ |
      ⟨prepared, record, _, _, happend, hstage, heq⟩ | ⟨_, _, _, _, _, heq, _⟩
    · obtain ⟨hfault, rfl⟩ := Prod.mk.inj (heq.symm.trans hsubmit)
      obtain rfl := Except.error.inj hfault
      exact .inl ⟨hstage, rfl⟩
    · obtain ⟨_, rfl⟩ := Prod.mk.inj (heq.symm.trans hsubmit)
      exact .inr ⟨⟨_, hstage⟩, happend, rfl, rfl, rfl, rfl, rfl,
        fun later hlater => Node.refuses_of_faulted (hlater.faulted rfl)⟩
    · cases (Prod.mk.inj (heq.symm.trans hsubmit)).1
  · obtain ⟨fees, node', hsubmit, haccepts⟩ :=
      submitBlock_synced (a := ⟨block, acceptedAt⟩) hconsistent hstage
    refine ⟨fees, node', hsubmit, haccepts.committed, ?_, ?_⟩
    · rw [haccepts.unchanged]
    · rw [haccepts.unchanged]
      exact (stageBlock_eq_ok (a := ⟨block, acceptedAt⟩).mp hstage).1
  · obtain ⟨log, hlog, heq⟩ := hconsistent.log
    rw [hlog, heq hsound]

theorem submit_block_atomic_sample :
    (∀ fault node', sampleNode.submitBlock samplePlatform (.writeFailed 30) sampleBlock₁ 1060 =
        (.error fault, node') →
      (sampleNode.stageBlock samplePlatform sampleBlock₁ 1060 = .error fault ∧
        node' = sampleNode) ∨
      ((∃ staged, sampleNode.stageBlock samplePlatform sampleBlock₁ 1060 = .ok staged) ∧
        AppendOutcome.writeFailed 30 ≠ .synced ∧ sampleNode.Faulted samplePlatform node')) ∧
    (∀ prepared record,
      sampleNode.stageBlock samplePlatform sampleBlock₁ 1060 = .ok (prepared, record) →
      ∃ fees node', sampleNode.submitBlock samplePlatform .synced sampleBlock₁ 1060 =
          (.ok fees, node') ∧
        commitPrepared sampleNode.state sampleNode.index prepared =
          { result := .ok fees, state := node'.state, index := node'.index } ∧
        node'.log = sampleNode.log ++ record ∧ node'.storageFaulted = false) ∧
    (sampleNode.storageFaulted = false → blockLog samplePlatform sampleFork =
      .ok sampleNode.log) :=
  submit_block_atomic sampleNode_run (.writeFailed 30) sampleBlock₁ 1060

end

end CommonFoundry
