/-
# `CommonFoundry.Node.Restart` — a node is what its log says

Replaying the records of the accepted blocks takes every one of them through the
same two steps as when it arrived, against the same state and index, at the
recorded time.  So after the records of a run replay stands where the run does
(`NodeRun.replay`), whatever follows them in the file.

With nothing behind them that is a restart; with a part of a record behind them
it is a log that is cut, and is refused (`block_log_restores`).
-/
import CommonFoundry.Node.LogRead

namespace CommonFoundry

open Lib Lib.Outcome

variable {P : Platform} {params : NetworkParams} {verifier : ConsensusPowVerifier}
  {accepted : List Acceptance} {node node' : Node}

/-! ## Replaying one record -/

theorem blockRecord_length_pos {a : Acceptance} {record : List UInt8}
    (h : blockRecord P a = .ok record) : 0 < record.length := by
  obtain ⟨canonical, _, hrecord⟩ := blockRecord_eq_ok.mp h
  obtain ⟨blockLength, _, _, rfl⟩ := encodeRecord_eq_ok hrecord
  rw [List.length_append, length_recordHeader]
  exact Nat.add_pos_left (by decide) _

theorem Node.Accepts.blockRecord {a : Acceptance} {prepared : PreparedBlock}
    {record : List UInt8} {fees : UInt64}
    (h : node.Accepts P params verifier accepted a prepared record fees node') :
    blockRecord P a = .ok record := by
  obtain ⟨_, canonical, hencode, _, hrecord⟩ := stageBlock_eq_ok.mp h.staged
  exact blockRecord_eq_ok.mpr ⟨canonical, hencode, hrecord⟩

/-- A block that was accepted is replayed as it was accepted. -/
theorem Node.Accepts.replayRecord (hnode : node.Consistent P params verifier accepted)
    {a : Acceptance} {prepared : PreparedBlock} {record : List UInt8} {fees : UInt64}
    (h : node.Accepts P params verifier accepted a prepared record fees node')
    (recordIndex : Nat) (rest : List UInt8) :
    ∃ parsed, readRecord P params.networkId recordIndex (record ++ rest) = .ok (parsed, rest) ∧
      replayRecord P params verifier recordIndex node.state node.index parsed =
        .ok (node'.state, node'.index) := by
  obtain ⟨_, canonical, hencode, hprepare, _⟩ := stageBlock_eq_ok.mp h.staged
  rw [hnode.constant.1, hnode.constant.2] at hprepare
  obtain ⟨_, base, validated, hp⟩ := prepareBlock_prepared hnode.follows hencode hprepare
  have hnetwork : a.block.challenge.networkId = params.networkId := by
    rw [(validateBlock_validated hp.valid).network, stateAfter_params hp.baseState]
  obtain ⟨canonical', hencode', hread⟩ := readRecord_blockRecord h.blockRecord recordIndex rest
  obtain rfl := Except.ok.inj (hencode.symm.trans hencode')
  rw [hnetwork] at hread
  refine ⟨_, hread, ?_⟩
  simp only [CommonFoundry.replayRecord, hprepare, mapErr_ok, ok_bind, h.committed]
  rfl

theorem replayLoop_accepts (hnode : node.Consistent P params verifier accepted) {a : Acceptance}
    {prepared : PreparedBlock} {record : List UInt8} {fees : UInt64}
    (h : node.Accepts P params verifier accepted a prepared record fees node')
    {recordIndex turns : Nat} {rest : List UInt8} (hturns : (record ++ rest).length ≤ turns) :
    ∃ turns', rest.length ≤ turns' ∧
      replayLoop P params verifier turns recordIndex (record ++ rest) (node.state, node.index) =
        replayLoop P params verifier turns' (recordIndex + 1) rest (node'.state, node'.index) := by
  have hpos := blockRecord_length_pos h.blockRecord
  rw [List.length_append] at hturns
  obtain ⟨turns, rfl⟩ : ∃ n, turns = n + 1 := ⟨turns - 1, by omega⟩
  obtain ⟨parsed, hread, hreplay⟩ := h.replayRecord hnode recordIndex rest
  have hempty : ¬(record ++ rest).isEmpty := by
    rw [List.isEmpty_iff, ← List.length_eq_zero_iff, List.length_append]
    omega
  refine ⟨turns, by omega, ?_⟩
  rw [replayLoop, if_neg hempty]
  simp only [hread, ok_bind, hreplay]

/-! ## Replaying a run -/

theorem replayLoop_nil {turns recordIndex : Nat} {current : ChainState × BlockIndex} :
    replayLoop P params verifier turns recordIndex [] current = .ok current := by
  cases turns with
  | zero => rfl
  | succ turns => rfl

/-- After the records of a run, replay stands where the run does. -/
theorem NodeRun.replay (h : NodeRun P params verifier accepted node) {start : ChainState}
    (hnew : ChainState.new P params verifier = .ok start) :
    ∃ log, blockLog P accepted = .ok log ∧ ∀ rest turns, (log ++ rest).length ≤ turns →
      ∃ turns', rest.length ≤ turns' ∧
        replayLoop P params verifier turns 0 (log ++ rest) (start, .new params.genesisHash) =
          replayLoop P params verifier turns' accepted.length rest (node.state, node.index) := by
  induction h with
  | opened hopen =>
      obtain ⟨state, hnew', rfl⟩ := open_empty_eq_ok.mp hopen
      obtain rfl := Except.ok.inj (hnew.symm.trans hnew')
      exact ⟨[], rfl, fun rest turns hturns => ⟨turns, hturns, rfl⟩⟩
  | accepted hrun hsubmit ih =>
      obtain ⟨log, hlog, hreplay⟩ := ih
      obtain ⟨_, record, haccepts⟩ :=
        submitBlock_accepted (a := ⟨_, _⟩) hrun.consistent hsubmit
      refine ⟨log ++ record, blockLog_snoc hlog haccepts.blockRecord, fun rest turns hturns => ?_⟩
      rw [List.append_assoc] at hturns ⊢
      obtain ⟨turns₁, hturns₁, heq₁⟩ := hreplay (record ++ rest) turns hturns
      obtain ⟨turns₂, hturns₂, heq₂⟩ := replayLoop_accepts hrun.consistent haccepts hturns₁
      refine ⟨turns₂, hturns₂, ?_⟩
      rw [heq₁, heq₂, List.length_append, List.length_singleton]
  | refused hrun hsubmit ih =>
      rcases submitBlock_refused (a := ⟨_, _⟩) hrun.consistent hsubmit with rfl | ⟨_, rfl⟩
      · exact ih
      · exact ih
  | transaction _ hsubmit ih =>
      rw [submitTransaction_unchanged hsubmit]
      exact ih

/-- The node that `open` returns for what replay gave. -/
def Node.restored (params : NetworkParams) (verifier : ConsensusPowVerifier) (log : List UInt8)
    (replayed : ChainState × BlockIndex) : Node where
  params := params
  verifier := verifier
  state := replayed.1
  index := replayed.2
  mempool := .empty
  log := log
  storageFaulted := false

/-- Opening the log of a run, with anything behind its records. -/
theorem NodeRun.open_blockLog (h : NodeRun P params verifier accepted node) {log : List UInt8}
    (hlog : blockLog P accepted = .ok log) (rest : List UInt8) :
    ∃ turns, rest.length ≤ turns ∧ Node.open P params verifier (log ++ rest) =
      replayLoop P params verifier turns accepted.length rest (node.state, node.index) >>=
        fun replayed => pure (Node.restored params verifier (log ++ rest) replayed) := by
  obtain ⟨start, hnew⟩ := h.consistent.follows.tree.created
  obtain ⟨log', hlog', hreplay⟩ := h.replay hnew
  obtain rfl := Except.ok.inj (hlog.symm.trans hlog')
  obtain ⟨turns, hturns, heq⟩ := hreplay rest _ le_rfl
  refine ⟨turns, hturns, ?_⟩
  rw [Node.open, hnew, mapErr_ok, ok_bind, replayLog, heq]
  rfl

/-- A restart: the log of a run opens to its state and its index. -/
theorem NodeRun.reopen (h : NodeRun P params verifier accepted node) {log : List UInt8}
    (hlog : blockLog P accepted = .ok log) :
    Node.open P params verifier log =
      .ok (Node.restored params verifier log (node.state, node.index)) := by
  obtain ⟨_, _, heq⟩ := h.open_blockLog hlog []
  rw [List.append_nil, replayLoop_nil] at heq
  exact heq

/-! ## Cuts -/

/-- A cut of a log is behind a record or inside one. -/
theorem blockLog_take {accepted : List Acceptance} {log : List UInt8}
    (hlog : blockLog P accepted = .ok log) (cut : Nat) :
    ∃ pre post before, accepted = pre ++ post ∧ blockLog P pre = .ok before ∧
      (log.take cut = before ∨ ∃ a rest record inside, post = a :: rest ∧
        blockRecord P a = .ok record ∧ 0 < inside ∧ inside < record.length ∧
        log.take cut = before ++ record.take inside) := by
  induction accepted generalizing log cut with
  | nil =>
      obtain rfl := pure_eq_ok.mp hlog
      exact ⟨[], [], [], rfl, rfl, .inl (List.take_nil)⟩
  | cons a accepted ih =>
      obtain ⟨record, after, hrecord, hafter, rfl⟩ := blockLog_cons.mp hlog
      by_cases hcut : cut < record.length
      · refine ⟨[], a :: accepted, [], rfl, rfl, ?_⟩
        rw [List.take_append_of_le_length (Nat.le_of_lt hcut)]
        rcases Nat.eq_zero_or_pos cut with rfl | hpos
        · exact .inl rfl
        · exact .inr ⟨a, accepted, record, cut, rfl, hrecord, hpos, hcut, rfl⟩
      · obtain ⟨pre, post, before, rfl, hbefore, hcases⟩ := ih hafter (cut - record.length)
        refine ⟨a :: pre, post, record ++ before, rfl,
          blockLog_cons.mpr ⟨record, before, hrecord, hbefore, rfl⟩, ?_⟩
        rw [take_append_of_length_le (Nat.not_lt.mp hcut)]
        rcases hcases with htake | ⟨b, rest, record', inside, hpost, hrecord', hpos, hlt, htake⟩
        · exact .inl (by rw [htake])
        · refine .inr ⟨b, rest, record', inside, hpost, hrecord', hpos, hlt, ?_⟩
          rw [htake, List.append_assoc]

/-- Every prefix of the accepted blocks is what some earlier node had accepted. -/
theorem NodeRun.earlier (h : NodeRun P params verifier accepted node) :
    ∀ {pre post : List Acceptance}, accepted = pre ++ post →
      ∃ earlier, NodeRun P params verifier pre earlier := by
  induction h with
  | @opened node hopen =>
      intro pre post heq
      obtain ⟨rfl, -⟩ := List.append_eq_nil_iff.mp heq.symm
      exact ⟨node, .opened hopen⟩
  | @accepted accepted node node' append block acceptedAt fees hrun hsubmit ih =>
      intro pre post heq
      rcases List.eq_nil_or_concat post with rfl | ⟨post, last, rfl⟩
      · rw [List.append_nil] at heq
        exact ⟨node', heq ▸ hrun.accepted hsubmit⟩
      · rw [List.concat_eq_append, ← List.append_assoc] at heq
        exact ih (List.append_inj' heq rfl).1
  | refused _ _ ih => exact ih
  | transaction _ _ ih => exact ih

/-- Replay of a log that is cut inside a record. -/
theorem NodeRun.open_cut (h : NodeRun P params verifier accepted node) {before record : List UInt8}
    (hbefore : blockLog P accepted = .ok before) {a : Acceptance}
    (hrecord : blockRecord P a = .ok record) {inside : Nat} (hpos : 0 < inside)
    (hlt : inside < record.length) :
    ∃ fault, RecordFault.Truncated fault ∧
      Node.open P params verifier (before ++ record.take inside) =
        fail (.corruptRecord accepted.length fault) := by
  obtain ⟨turns, hturns, heq⟩ := h.open_blockLog hbefore (record.take inside)
  obtain ⟨fault, htruncated, hread⟩ :=
    readRecord_take hrecord params.networkId accepted.length hlt
  have hlength : (record.take inside).length = inside := List.length_take_of_le (by omega)
  obtain ⟨turns, rfl⟩ : ∃ n, turns = n + 1 := ⟨turns - 1, by omega⟩
  have hempty : ¬(record.take inside).isEmpty := by
    rw [List.isEmpty_iff, ← List.length_eq_zero_iff]
    omega
  refine ⟨fault, htruncated, ?_⟩
  rw [heq, replayLoop, if_neg hempty]
  simp only [hread, fail_bind]

/-- Replaying the log of a run restores its index and its state; a log cut behind
a record restores those of the run up to there; and a log cut inside a record is
refused, by an error that names the record. -/
theorem block_log_restores (h : NodeRun P params verifier accepted node) :
    ∃ log, blockLog P accepted = .ok log ∧
      (node.storageFaulted = false → node.log = log) ∧
      (∃ restarted, Node.open P params verifier log = .ok restarted ∧
        restarted.index = node.index ∧ restarted.state = node.state) ∧
      (∀ pre post, accepted = pre ++ post → ∃ cut restarted,
        blockLog P pre = .ok (log.take cut) ∧
        Node.open P params verifier (log.take cut) = .ok restarted ∧
        (∃ earlier, NodeRun P params verifier pre earlier) ∧
        ∀ earlier, NodeRun P params verifier pre earlier →
          restarted.index = earlier.index ∧ restarted.state = earlier.state) ∧
      (∀ cut, (∀ pre post, accepted = pre ++ post → blockLog P pre ≠ .ok (log.take cut)) →
        ∃ recordIndex fault, recordIndex < accepted.length ∧ RecordFault.Truncated fault ∧
          Node.open P params verifier (log.take cut) =
            fail (.corruptRecord recordIndex fault)) := by
  obtain ⟨log, hlog, hsound⟩ := h.consistent.log
  refine ⟨log, hlog, hsound, ⟨_, h.reopen hlog, rfl, rfl⟩, ?_, ?_⟩
  · intro pre post heq
    obtain ⟨before, after, hbefore, -, rfl⟩ := blockLog_append.mp (heq ▸ hlog)
    obtain ⟨earlier, hearlier⟩ := h.earlier heq
    refine ⟨before.length,
      .restored params verifier before (earlier.state, earlier.index), ?_⟩
    rw [List.take_left]
    refine ⟨hbefore, hearlier.reopen hbefore, ⟨earlier, hearlier⟩, fun other hother => ?_⟩
    have hopen := (hother.reopen hbefore).symm.trans (hearlier.reopen hbefore)
    have hnode := Except.ok.inj hopen
    exact ⟨(congrArg Node.index hnode).symm, (congrArg Node.state hnode).symm⟩
  · intro cut hinside
    obtain ⟨pre, post, before, heq, hbefore, htake | ⟨a, rest, record, inside, rfl, hrecord, hpos,
      hlt, htake⟩⟩ := blockLog_take hlog cut
    · exact absurd (htake ▸ hbefore) (hinside pre post heq)
    · obtain ⟨earlier, hearlier⟩ := h.earlier heq
      obtain ⟨fault, htruncated, hopen⟩ := hearlier.open_cut hbefore hrecord hpos hlt
      refine ⟨pre.length, fault, ?_, htruncated, htake ▸ hopen⟩
      rw [heq, List.length_append, List.length_cons]
      omega

theorem block_log_restores_sample :
    ∃ log, blockLog samplePlatform sampleFork = .ok log ∧
      (sampleNode.storageFaulted = false → sampleNode.log = log) ∧
      (∃ restarted, Node.open samplePlatform sampleParams sampleVerifier log = .ok restarted ∧
        restarted.index = sampleNode.index ∧ restarted.state = sampleNode.state) ∧
      (∀ pre post, sampleFork = pre ++ post → ∃ cut restarted,
        blockLog samplePlatform pre = .ok (log.take cut) ∧
        Node.open samplePlatform sampleParams sampleVerifier (log.take cut) = .ok restarted ∧
        (∃ earlier, NodeRun samplePlatform sampleParams sampleVerifier pre earlier) ∧
        ∀ earlier, NodeRun samplePlatform sampleParams sampleVerifier pre earlier →
          restarted.index = earlier.index ∧ restarted.state = earlier.state) ∧
      (∀ cut, (∀ pre post, sampleFork = pre ++ post →
          blockLog samplePlatform pre ≠ .ok (log.take cut)) →
        ∃ recordIndex fault, recordIndex < sampleFork.length ∧ RecordFault.Truncated fault ∧
          Node.open samplePlatform sampleParams sampleVerifier (log.take cut) =
            fail (.corruptRecord recordIndex fault)) :=
  block_log_restores sampleNode_run

end CommonFoundry
