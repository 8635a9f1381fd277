/-
# `CommonFoundry.Node.NodeRun` — every run of a node, and what holds in it

`NodeRun` is any sequence of calls on a node with an empty log: blocks that are
accepted, blocks that are refused for any reason, a write or a sync that fails
at any byte among them, and transactions.  It keeps the list of the accepted
blocks, and `NodeRun.consistent` says that the node follows the tree of exactly
these: one induction, over the three ways a submitted block can end
(`submitBlock_ends`).
-/
import CommonFoundry.Node.ForkChoice
import CommonFoundry.Node.Node

namespace CommonFoundry

open Lib Lib.Outcome

variable {P : Platform}

/-! ## The log of accepted blocks -/

/-- The record of an accepted block. -/
def blockRecord (P : Platform) (acceptance : Acceptance) : Outcome NodeError (List UInt8) := do
  let canonical ← mapErr .wire (encodeBlock P acceptance.block)
  encodeRecord P acceptance.acceptedAt canonical

/-- The records of accepted blocks, in the order of acceptance. -/
def blockLog (P : Platform) : List Acceptance → Outcome NodeError (List UInt8)
  | [] => pure []
  | acceptance :: rest => do
      let record ← blockRecord P acceptance
      let log ← blockLog P rest
      pure (record ++ log)

theorem blockRecord_eq_ok {a : Acceptance} {record : List UInt8} :
    blockRecord P a = .ok record ↔ ∃ canonical, encodeBlock P a.block = .ok canonical ∧
      encodeRecord P a.acceptedAt canonical = .ok record := by
  simp only [blockRecord, bind_eq_ok, mapErr_eq_ok]

theorem blockLog_cons {a : Acceptance} {rest : List Acceptance} {log : List UInt8} :
    blockLog P (a :: rest) = .ok log ↔ ∃ record after, blockRecord P a = .ok record ∧
      blockLog P rest = .ok after ∧ log = record ++ after := by
  simp only [blockLog, bind_eq_ok, pure_eq_ok]
  constructor
  · rintro ⟨record, hrecord, after, hafter, rfl⟩
    exact ⟨record, after, hrecord, hafter, rfl⟩
  · rintro ⟨record, after, hrecord, hafter, rfl⟩
    exact ⟨record, hrecord, after, hafter, rfl⟩

theorem blockLog_append {pre post : List Acceptance} {log : List UInt8} :
    blockLog P (pre ++ post) = .ok log ↔ ∃ before after, blockLog P pre = .ok before ∧
      blockLog P post = .ok after ∧ log = before ++ after := by
  induction pre generalizing log with
  | nil =>
      constructor
      · exact fun h => ⟨[], log, rfl, h, rfl⟩
      · rintro ⟨before, after, hbefore, hafter, rfl⟩
        obtain rfl := pure_eq_ok.mp hbefore
        exact hafter
  | cons a pre ih =>
      rw [List.cons_append]
      simp only [blockLog_cons, ih]
      constructor
      · rintro ⟨record, _, hrecord, ⟨before, after, hbefore, hafter, rfl⟩, rfl⟩
        exact ⟨record ++ before, after, ⟨record, before, hrecord, hbefore, rfl⟩, hafter,
          (List.append_assoc ..).symm⟩
      · rintro ⟨_, after, ⟨record, before, hrecord, hbefore, rfl⟩, hafter, rfl⟩
        exact ⟨record, before ++ after, hrecord, ⟨before, after, hbefore, hafter, rfl⟩,
          List.append_assoc ..⟩

theorem blockLog_snoc {accepted : List Acceptance} {a : Acceptance} {before record : List UInt8}
    (hbefore : blockLog P accepted = .ok before) (hrecord : blockRecord P a = .ok record) :
    blockLog P (accepted ++ [a]) = .ok (before ++ record) :=
  blockLog_append.mpr ⟨before, record, hbefore,
    blockLog_cons.mpr ⟨record, [], hrecord, rfl, (List.append_nil record).symm⟩, rfl⟩

/-! ## Runs -/

/-- A node opened on an empty log, and any sequence of calls on it. -/
inductive NodeRun (P : Platform) (params : NetworkParams) (verifier : ConsensusPowVerifier) :
    List Acceptance → Node → Prop
  | opened {node : Node} : Node.open P params verifier [] = .ok node →
      NodeRun P params verifier [] node
  | accepted {accepted : List Acceptance} {node node' : Node} {append : AppendOutcome}
      {block : Block} {acceptedAt fees : UInt64} :
      NodeRun P params verifier accepted node →
      node.submitBlock P append block acceptedAt = (.ok fees, node') →
      NodeRun P params verifier (accepted ++ [⟨block, acceptedAt⟩]) node'
  | refused {accepted : List Acceptance} {node node' : Node} {append : AppendOutcome}
      {block : Block} {acceptedAt : UInt64} {fault : Fault NodeError} :
      NodeRun P params verifier accepted node →
      node.submitBlock P append block acceptedAt = (.error fault, node') →
      NodeRun P params verifier accepted node'
  | transaction {accepted : List Acceptance} {node node' : Node} {transaction : Transaction}
      {result : Outcome NodeError MempoolEntry} :
      NodeRun P params verifier accepted node →
      node.submitTransaction P transaction = (result, node') →
      NodeRun P params verifier accepted node'

/-- What holds in every run: the node follows the tree of the accepted blocks,
and as long as the log is sound it is the log of these. -/
structure Node.Consistent (P : Platform) (params : NetworkParams)
    (verifier : ConsensusPowVerifier) (accepted : List Acceptance) (node : Node) : Prop where
  follows : Follows P params verifier accepted node.state node.index
  constant : node.params = params ∧ node.verifier = verifier
  log : ∃ log, blockLog P accepted = .ok log ∧ (node.storageFaulted = false → node.log = log)

section

variable {params : NetworkParams} {verifier : ConsensusPowVerifier} {accepted : List Acceptance}
  {node node' : Node}

/-! ## The three ways a submitted block ends -/

/-- A block that got past the log: how the node changes. -/
structure Node.Accepts (P : Platform) (params : NetworkParams) (verifier : ConsensusPowVerifier)
    (accepted : List Acceptance) (node : Node) (a : Acceptance) (prepared : PreparedBlock)
    (record : List UInt8) (fees : UInt64) (node' : Node) : Prop where
  staged : node.stageBlock P a.block a.acceptedAt = .ok (prepared, record)
  committed : commitPrepared node.state node.index prepared =
    { result := .ok fees, state := node'.state, index := node'.index }
  follows : Follows P params verifier (accepted ++ [a]) node'.state node'.index
  unchanged : node' = { node with
    state := node'.state
    index := node'.index
    log := node.log ++ record
    mempool :=
      if node'.state.tip ≠ node.state.tip then
        node.mempool.revalidate P node'.state (a.block.transactions.map (·.txid P)).toFinset
      else node.mempool }

theorem stageBlock_eq_ok {a : Acceptance} {prepared : PreparedBlock} {record : List UInt8} :
    node.stageBlock P a.block a.acceptedAt = .ok (prepared, record) ↔
      node.storageFaulted = false ∧ ∃ canonical, encodeBlock P a.block = .ok canonical ∧
        prepareBlock P node.state node.index node.params node.verifier a.block a.acceptedAt
          canonical = .ok prepared ∧
        encodeRecord P a.acceptedAt canonical = .ok record := by
  simp only [Node.stageBlock, bind_eq_ok, require_eq_ok, mapErr_eq_ok, pure_eq_ok, Prod.mk.injEq,
    Bool.not_eq_true]
  constructor
  · rintro ⟨_, hsound, canonical, hencode, _, hprepare, _, hrecord, rfl, rfl⟩
    exact ⟨hsound, canonical, hencode, hprepare, hrecord⟩
  · rintro ⟨hsound, canonical, hencode, hprepare, hrecord⟩
    exact ⟨(), hsound, canonical, hencode, prepared, hprepare, record, hrecord, rfl, rfl⟩

/-- A staged block whose record is synced is accepted: the commit cannot fail. -/
theorem submitBlock_synced (h : node.Consistent P params verifier accepted) {a : Acceptance}
    {prepared : PreparedBlock} {record : List UInt8}
    (hstage : node.stageBlock P a.block a.acceptedAt = .ok (prepared, record)) :
    ∃ fees node', node.submitBlock P .synced a.block a.acceptedAt = (.ok fees, node') ∧
      node.Accepts P params verifier accepted a prepared record fees node' := by
  obtain ⟨_, canonical, hencode, hprepare, _⟩ := stageBlock_eq_ok.mp hstage
  rw [h.constant.1, h.constant.2] at hprepare
  obtain ⟨fees, state', index', hcommit, hfollows⟩ :=
    prepareBlock_commit h.follows hencode hprepare
  rw [Node.submitBlock, hstage]
  simp only [Node.commitBlock, hcommit]
  split
  · next htip => exact ⟨fees, _, rfl, hstage, hcommit, hfollows, by rw [if_pos htip]⟩
  · next htip => exact ⟨fees, _, rfl, hstage, hcommit, hfollows, by rw [if_neg htip]⟩

/-- A submitted block is refused before the log, or stopped by it, or accepted. -/
theorem submitBlock_ends (h : node.Consistent P params verifier accepted) (a : Acceptance)
    (append : AppendOutcome) :
    (∃ fault, node.stageBlock P a.block a.acceptedAt = .error fault ∧
      node.submitBlock P append a.block a.acceptedAt = (.error fault, node)) ∨
    (∃ prepared record operation written, append ≠ .synced ∧
      node.stageBlock P a.block a.acceptedAt = .ok (prepared, record) ∧
      node.submitBlock P append a.block a.acceptedAt = (fail (.io operation),
        { node with log := node.log ++ record.take written, storageFaulted := true })) ∨
    (∃ prepared record fees node', append = .synced ∧
      node.submitBlock P append a.block a.acceptedAt = (.ok fees, node') ∧
      node.Accepts P params verifier accepted a prepared record fees node') := by
  cases hstage : node.stageBlock P a.block a.acceptedAt with
  | error fault => exact .inl ⟨fault, rfl, by rw [Node.submitBlock, hstage]⟩
  | ok staged =>
      obtain ⟨prepared, record⟩ := staged
      refine .inr ?_
      cases append with
      | writeFailed written =>
          refine .inl ⟨prepared, record, "append block record", written, nofun, rfl, ?_⟩
          rw [Node.submitBlock, hstage]
      | syncFailed =>
          refine .inl ⟨prepared, record, "sync block record", record.length, nofun, rfl, ?_⟩
          rw [Node.submitBlock, hstage, List.take_length]
      | synced =>
          obtain ⟨fees, node', hsubmit, haccepts⟩ := submitBlock_synced h hstage
          exact .inr ⟨prepared, record, fees, node', rfl, hsubmit, haccepts⟩

theorem submitBlock_accepted (h : node.Consistent P params verifier accepted) {a : Acceptance}
    {append : AppendOutcome} {fees : UInt64}
    (hsubmit : node.submitBlock P append a.block a.acceptedAt = (.ok fees, node')) :
    ∃ prepared record, node.Accepts P params verifier accepted a prepared record fees node' := by
  rcases submitBlock_ends h a append with ⟨_, _, heq⟩ | ⟨_, _, _, _, _, _, heq⟩ |
    ⟨prepared, record, _, _, _, heq, haccepts⟩
  · rw [heq] at hsubmit
    cases hsubmit
  · rw [heq] at hsubmit
    cases hsubmit
  · rw [heq, Prod.mk.injEq, Except.ok.injEq] at hsubmit
    obtain ⟨rfl, rfl⟩ := hsubmit
    exact ⟨prepared, record, haccepts⟩

/-! ## What one call keeps -/

theorem Node.Accepts.consistent (h : node.Consistent P params verifier accepted) {a : Acceptance}
    {prepared : PreparedBlock} {record : List UInt8} {fees : UInt64}
    (haccepts : node.Accepts P params verifier accepted a prepared record fees node') :
    node'.Consistent P params verifier (accepted ++ [a]) := by
  obtain ⟨hsound, canonical, hencode, _, hrecord⟩ := stageBlock_eq_ok.mp haccepts.staged
  obtain ⟨log, hlog, heq⟩ := h.log
  refine ⟨haccepts.follows, ?_, log ++ record, ?_, fun _ => ?_⟩
  · rw [haccepts.unchanged]
    exact h.constant
  · exact blockLog_snoc hlog (blockRecord_eq_ok.mpr ⟨canonical, hencode, hrecord⟩)
  · rw [haccepts.unchanged, ← heq hsound]

/-- A refused block changes at most the log, and then the node is faulted. -/
theorem submitBlock_refused (h : node.Consistent P params verifier accepted) {a : Acceptance}
    {append : AppendOutcome} {fault : Fault NodeError}
    (hsubmit : node.submitBlock P append a.block a.acceptedAt = (.error fault, node')) :
    node' = node ∨
      ∃ tail, node' = { node with log := node.log ++ tail, storageFaulted := true } := by
  rcases submitBlock_ends h a append with ⟨_, _, heq⟩ | ⟨_, record, _, written, _, _, heq⟩ |
    ⟨_, _, _, _, _, heq, _⟩
  · rw [heq, Prod.mk.injEq] at hsubmit
    exact .inl hsubmit.2.symm
  · rw [heq, Prod.mk.injEq] at hsubmit
    exact .inr ⟨record.take written, hsubmit.2.symm⟩
  · rw [heq] at hsubmit
    cases hsubmit

/-- A transaction changes at most the pool. -/
theorem submitTransaction_unchanged {transaction : Transaction}
    {result : Outcome NodeError MempoolEntry}
    (hsubmit : node.submitTransaction P transaction = (result, node')) :
    node' = { node with mempool := node'.mempool } := by
  rw [Node.submitTransaction] at hsubmit
  split at hsubmit
  · obtain ⟨_, rfl⟩ := Prod.mk.inj hsubmit
    rfl
  · obtain ⟨_, rfl⟩ := Prod.mk.inj hsubmit
    rfl

/-- A transaction that is not admitted changes nothing. -/
theorem submitTransaction_fails {transaction : Transaction} {fault : Fault NodeError}
    (hsubmit : node.submitTransaction P transaction = (.error fault, node')) : node' = node := by
  rw [Node.submitTransaction] at hsubmit
  split at hsubmit
  · cases hsubmit
  · exact (Prod.mk.inj hsubmit).2.symm

theorem open_empty_eq_ok :
    Node.open P params verifier [] = .ok node ↔
      ∃ state, ChainState.new P params verifier = .ok state ∧
        node = { params, verifier, state, index := .new params.genesisHash, mempool := .empty
                 log := [], storageFaulted := false } := by
  simp only [Node.open, bind_eq_ok, mapErr_eq_ok, replayLog, List.length_nil, replayLoop,
    List.isEmpty_nil, if_true, pure_eq_ok, Prod.exists, Prod.mk.injEq]
  constructor
  · rintro ⟨state, hnew, _, _, ⟨rfl, rfl⟩, rfl⟩
    exact ⟨state, hnew, rfl⟩
  · rintro ⟨state, hnew, rfl⟩
    exact ⟨state, hnew, _, _, ⟨rfl, rfl⟩, rfl⟩

/-! ## What every run keeps -/

theorem NodeRun.consistent (h : NodeRun P params verifier accepted node) :
    node.Consistent P params verifier accepted := by
  induction h with
  | opened hopen =>
      obtain ⟨state, hnew, rfl⟩ := open_empty_eq_ok.mp hopen
      exact ⟨.new hnew, ⟨rfl, rfl⟩, [], rfl, fun _ => rfl⟩
  | accepted _ hsubmit ih =>
      obtain ⟨_, _, haccepts⟩ := submitBlock_accepted (a := ⟨_, _⟩) ih hsubmit
      exact haccepts.consistent ih
  | refused _ hsubmit ih =>
      obtain ⟨log, hlog, _⟩ := ih.log
      rcases submitBlock_refused (a := ⟨_, _⟩) ih hsubmit with rfl | ⟨tail, rfl⟩
      · exact ih
      · exact ⟨ih.follows, ih.constant, log, hlog, fun hsound => by cases hsound⟩
  | transaction _ hsubmit ih =>
      rw [submitTransaction_unchanged hsubmit]
      exact ⟨ih.follows, ih.constant, ih.log⟩

/-- The chain that a node is on. -/
theorem NodeRun.chain (h : NodeRun P params verifier accepted node) :
    ∃ blocks, ChainRun P params verifier blocks node.state := by
  obtain ⟨_, _, hstate, _⟩ := h.consistent.follows.live
  obtain ⟨blocks, hrun, _⟩ := stateAfter_run hstate
  exact ⟨blocks, hrun⟩

end

/-! ## A reorganisation of the sample network

A block, a rival of equal work, and a child of the rival that takes over. -/

def sampleNode₀ : Node where
  params := sampleParams
  verifier := sampleVerifier
  state := sampleGenesis
  index := .new sampleParams.genesisHash
  mempool := .empty
  log := []
  storageFaulted := false

theorem sampleNode₀_run : NodeRun samplePlatform sampleParams sampleVerifier [] sampleNode₀ :=
  .opened (open_empty_eq_ok.mpr ⟨sampleGenesis, sampleGenesis_new, rfl⟩)

/-- The node after these blocks, if it accepts every one and syncs its record. -/
def sampleSubmit (node : Node) : List Acceptance → Option Node
  | [] => some node
  | a :: rest =>
      match node.submitBlock samplePlatform .synced a.block a.acceptedAt with
      | (.ok _, node) => sampleSubmit node rest
      | (.error _, _) => none

theorem sampleSubmit_run {blocks accepted : List Acceptance} {node node' : Node}
    (h : NodeRun samplePlatform sampleParams sampleVerifier accepted node)
    (hsubmit : sampleSubmit node blocks = some node') :
    NodeRun samplePlatform sampleParams sampleVerifier (accepted ++ blocks) node' := by
  induction blocks generalizing accepted node with
  | nil =>
      obtain rfl := Option.some.inj hsubmit
      rwa [List.append_nil]
  | cons a rest ih =>
      rw [sampleSubmit] at hsubmit
      split at hsubmit
      · next hok =>
          rw [List.append_cons]
          exact ih (h.accepted hok) hsubmit
      · cases hsubmit

/-- The same for blocks that are known to be accepted. -/
theorem sampleSubmit_getD_run {blocks accepted : List Acceptance} {node : Node}
    (h : NodeRun samplePlatform sampleParams sampleVerifier accepted node)
    (hsome : (sampleSubmit node blocks).isSome = true) :
    NodeRun samplePlatform sampleParams sampleVerifier (accepted ++ blocks)
      ((sampleSubmit node blocks).getD node) := by
  obtain ⟨node', hnode⟩ := Option.isSome_iff_exists.mp hsome
  rw [hnode]
  exact sampleSubmit_run h hnode

def sampleFirst : Acceptance := ⟨sampleBlock₁, 1060⟩

def sampleRival : Acceptance := ⟨sampleBlock sampleGenesis 1061 0 [], 1061⟩

def sampleRivalChild : Acceptance :=
  ⟨sampleBlock (sampleApply sampleGenesis sampleRival.block) 1121 0 [], 1121⟩

def sampleFork : List Acceptance := [sampleFirst, sampleRival, sampleRivalChild]

def sampleNode : Node := (sampleSubmit sampleNode₀ sampleFork).getD sampleNode₀

theorem sampleNode_run :
    NodeRun samplePlatform sampleParams sampleVerifier sampleFork sampleNode := by
  have hsome : (sampleSubmit sampleNode₀ sampleFork).isSome := by decide +kernel
  exact sampleSubmit_getD_run sampleNode₀_run hsome

end CommonFoundry
