/-
# `CommonFoundry.Node.Reopen` — a log that opens is the log of a run

`replay_log` trusts nothing that it reads: a record goes through the checks that a block from
outside goes through, and its bytes are those that `encode_record` would have written.  So
whatever the file holds, a node that opens is one that has accepted its blocks one after the other
(`log_opens_iff`), and every result about runs holds of it; and what is behind the records of a
run is replayed from where the run stands (`NodeRun.reopen_extends`).
-/
import CommonFoundry.Node.Restart

namespace CommonFoundry

open Lib Lib.Outcome

/-! ## A record that was read -/

theorem readExact_eq_ok {count : Nat} {bytes part rest : List UInt8} {error : NodeError}
    (h : readExact count bytes error = .ok (part, rest)) :
    bytes = part ++ rest ∧ part.length = count := by
  simp only [readExact, bind_eq_ok, require_eq_ok, pure_eq_ok, Prod.mk.injEq] at h
  obtain ⟨-, hle, rfl, rfl⟩ := h
  exact ⟨(List.take_append_drop count bytes).symm, List.length_take_of_le hle⟩

/-- A header with the fixed fields in place is what its other fields encode to. -/
theorem recordHeader_of_fields {header : List UInt8} (hlength : header.length = recordHeaderBytes)
    (hmagic : slice header 0 4 = recordMagic)
    (hversion : UInt16.ofNat (ofLe (slice header 4 6)) = recordVersion)
    (hflags : slice header 6 8 = [0, 0]) :
    ∃ blockLength : UInt32, blockLength.toNat = recordBlockLength header ∧
      header = recordHeader (recordAcceptedAt header) blockLength := by
  have hbytes : header.length = 20 := hlength
  obtain ⟨magic, rest, rfl, hrest⟩ := exists_array_append header 4 (by omega)
  obtain ⟨version, rest, rfl, hrest⟩ := exists_array_append rest 2 (by omega)
  obtain ⟨flags, rest, rfl, hrest⟩ := exists_array_append rest 2 (by omega)
  obtain ⟨acceptedAt, rest, rfl, hrest⟩ := exists_array_append rest 8 (by omega)
  obtain ⟨blockLength, rest, rfl, hrest⟩ := exists_array_append rest 4 (by omega)
  obtain rfl : rest = [] := List.length_eq_zero_iff.mp (by omega)
  -- each field is where it was written
  have hfirst : slice (magic.1 ++ (version.1 ++ (flags.1 ++ (acceptedAt.1 ++
      (blockLength.1 ++ []))))) 0 4 = magic.1 := slice_append List.length_nil (by rw [magic.2])
  rw [hfirst] at hmagic
  rw [slice_append magic.2 (by rw [version.2])] at hversion
  have hversion' : version.1 = leBytes16 recordVersion := by
    rw [← hversion, leBytes16_ofLe]
  rw [← List.append_assoc, slice_append (by rw [List.length_append, magic.2, version.2])
    (by rw [flags.2])] at hflags
  have hat : slice (magic.1 ++ (version.1 ++ (flags.1 ++ (acceptedAt.1 ++ (blockLength.1 ++ [])))))
      8 16 = acceptedAt.1 := by
    rw [← List.append_assoc, ← List.append_assoc]
    exact slice_append (by simp only [List.length_append, magic.2, version.2, flags.2])
      (by rw [acceptedAt.2])
  have hlen : slice (magic.1 ++ (version.1 ++ (flags.1 ++ (acceptedAt.1 ++ (blockLength.1 ++ [])))))
      16 20 = blockLength.1 := by
    rw [← List.append_assoc, ← List.append_assoc, ← List.append_assoc]
    exact slice_append (by simp only [List.length_append, magic.2, version.2, flags.2,
      acceptedAt.2]) (by rw [blockLength.2])
  refine ⟨UInt32.ofNat (ofLe blockLength.1), ?_, ?_⟩
  · rw [recordBlockLength, hlen, ← ofLe_leBytes32, leBytes32_ofLe]
  · rw [recordHeader, recordAcceptedAt, hat, leBytes64_ofLe, leBytes32_ofLe, hmagic, hversion',
      hflags]
    simp only [List.append_assoc, List.append_nil]
    rfl

/-- What `read_record` reads is what `encode_record` writes. -/
theorem readRecord_eq_ok {P : Platform} {networkId : Bytes32} {recordIndex : Nat}
    {log rest : List UInt8} {record : LogRecord}
    (h : readRecord P networkId recordIndex log = .ok (record, rest)) :
    ∃ bytes, log = bytes ++ rest ∧
      encodeRecord P record.acceptedAt record.canonical = .ok bytes ∧
      encodeBlock P record.block = .ok record.canonical := by
  simp only [readRecord, readRecordHeader, bind_eq_ok, require_eq_ok, pure_eq_ok, mapErr_eq_ok,
    Prod.exists, Prod.mk.injEq, not_or, not_not] at h
  obtain ⟨_, _, ⟨header, log₁, hheader, _, ⟨hmagic, hversion, hflags⟩, _, hlimit, rfl, rfl⟩,
    canonical, log₂, hcanonical, checksum, log₃, hchecksum, _, hvalid, block, _, reencoded,
    hencode, _, rfl, rfl, rfl⟩ := h
  obtain ⟨rfl, hlength⟩ := readExact_eq_ok hheader
  obtain ⟨rfl, hblock⟩ := readExact_eq_ok hcanonical
  obtain ⟨rfl, -⟩ := readExact_eq_ok hchecksum
  obtain ⟨blockLength, hword, hfields⟩ := recordHeader_of_fields hlength hmagic hversion hflags
  refine ⟨header ++ (reencoded ++ checksum), by simp only [List.append_assoc], ?_, hencode⟩
  have hfits : reencoded.length < 2 ^ 32 := by
    rw [hblock, ← hword]
    exact blockLength.toNat_lt
  have hword' : UInt32.ofNat reencoded.length = blockLength := by
    rw [hblock, ← hword]
    exact UInt32.ofNat_toNat
  rw [encodeRecord, require_pos hfits, ok_bind, require_pos (hblock ▸ hlimit), ok_bind, hword',
    ← hfields, hvalid, ← List.append_assoc]
  rfl

/-! ## Records as steps of a run -/

section

variable {P : Platform} {params : NetworkParams} {verifier : ConsensusPowVerifier}
  {accepted : List Acceptance} {node node' : Node} {log : List UInt8}
  {current after : ChainState × BlockIndex}

/-- A node that was restored accepts what goes through the two steps of `submit_block`. -/
theorem NodeRun.restored_accepts
    (h : NodeRun P params verifier accepted (.restored params verifier log current))
    {a : Acceptance} {canonical record : List UInt8} {prepared : PreparedBlock} {fees : UInt64}
    (hencode : encodeBlock P a.block = .ok canonical)
    (hprepare : prepareBlock P current.1 current.2 params verifier a.block a.acceptedAt canonical =
      .ok prepared)
    (hrecord : encodeRecord P a.acceptedAt canonical = .ok record)
    (hcommit : (commitPrepared current.1 current.2 prepared).result = .ok fees) :
    NodeRun P params verifier (accepted ++ [a]) (.restored params verifier (log ++ record)
      ((commitPrepared current.1 current.2 prepared).state,
        (commitPrepared current.1 current.2 prepared).index)) := by
  have hstage : (Node.restored params verifier log current).stageBlock P a.block a.acceptedAt =
      .ok (prepared, record) :=
    stageBlock_eq_ok.mpr ⟨rfl, canonical, hencode, hprepare, hrecord⟩
  have hresult : (commitPrepared (Node.restored params verifier log current).state
      (Node.restored params verifier log current).index prepared).result = .ok fees := hcommit
  have hsubmit : (Node.restored params verifier log current).submitBlock P .synced a.block
      a.acceptedAt = (.ok fees, .restored params verifier (log ++ record)
        ((commitPrepared current.1 current.2 prepared).state,
          (commitPrepared current.1 current.2 prepared).index)) := by
    rw [Node.submitBlock, hstage]
    dsimp only
    rw [Node.commitBlock]
    simp only [hresult]
    -- nothing is pending, at the old tip or at a new one
    split <;> rfl
  exact h.accepted hsubmit

/-- What a log holds behind the records of a run is more of that run. -/
theorem NodeRun.replayLoop {turns : Nat} :
    ∀ {accepted : List Acceptance} {log rest : List UInt8} {current : ChainState × BlockIndex}
      {recordIndex : Nat},
      NodeRun P params verifier accepted (.restored params verifier log current) →
      replayLoop P params verifier turns recordIndex rest current = .ok after →
      ∃ more, blockLog P more = .ok rest ∧
        NodeRun P params verifier (accepted ++ more)
          (.restored params verifier (log ++ rest) after) := by
  have hdone : ∀ {accepted : List Acceptance} {log : List UInt8},
      NodeRun P params verifier accepted (.restored params verifier log after) →
      ∃ more, blockLog P more = .ok [] ∧ NodeRun P params verifier (accepted ++ more)
        (.restored params verifier (log ++ []) after) := by
    intro accepted log h
    refine ⟨[], rfl, ?_⟩
    rwa [List.append_nil, List.append_nil]
  induction turns with
  | zero =>
      intro accepted log rest current recordIndex h hreplay
      rw [CommonFoundry.replayLoop] at hreplay
      split at hreplay
      · next hempty =>
          obtain rfl := List.isEmpty_iff.mp hempty
          obtain rfl := Except.ok.inj hreplay
          exact hdone h
      · cases hreplay
  | succ turns ih =>
      intro accepted log rest current recordIndex h hreplay
      rw [CommonFoundry.replayLoop] at hreplay
      split at hreplay
      · next hempty =>
          obtain rfl := List.isEmpty_iff.mp hempty
          obtain rfl := Except.ok.inj hreplay
          exact hdone h
      · obtain ⟨⟨record, rest'⟩, hread, hnext⟩ := bind_eq_ok.mp hreplay
        obtain ⟨middle, hrecord, hloop⟩ := bind_eq_ok.mp hnext
        obtain ⟨bytes, rfl, hbytes, hencode⟩ := readRecord_eq_ok hread
        simp only [replayRecord, bind_eq_ok, mapErr_eq_ok, pure_eq_ok] at hrecord
        obtain ⟨prepared, hprepare, fees, hcommit, rfl⟩ := hrecord
        obtain ⟨more, hmore, hrun⟩ :=
          ih (h.restored_accepts (a := ⟨record.block, record.acceptedAt⟩) hencode hprepare hbytes
            hcommit) hloop
        refine ⟨⟨record.block, record.acceptedAt⟩ :: more, ?_, ?_⟩
        · exact blockLog_cons.mpr ⟨bytes, rest',
            blockRecord_eq_ok.mpr ⟨record.canonical, hencode, hbytes⟩, hmore, rfl⟩
        · rwa [← List.append_assoc, List.append_cons]

theorem open_eq_ok :
    Node.open P params verifier log = .ok node ↔
      ∃ start replayed, ChainState.new P params verifier = .ok start ∧
        replayLog P params verifier log start (.new params.genesisHash) = .ok replayed ∧
        node = .restored params verifier log replayed := by
  simp only [Node.open, bind_eq_ok, mapErr_eq_ok, pure_eq_ok]
  constructor
  · rintro ⟨start, hnew, replayed, hreplay, rfl⟩
    exact ⟨start, replayed, hnew, hreplay, rfl⟩
  · rintro ⟨start, replayed, hnew, hreplay, rfl⟩
    exact ⟨start, hnew, replayed, hreplay, rfl⟩

theorem NodeRun.of_open (h : Node.open P params verifier log = .ok node) :
    ∃ accepted, blockLog P accepted = .ok log ∧ NodeRun P params verifier accepted node := by
  obtain ⟨start, replayed, hnew, hreplay, rfl⟩ := open_eq_ok.mp h
  have hempty : Node.open P params verifier [] =
      .ok (.restored params verifier [] (start, .new params.genesisHash)) :=
    open_empty_eq_ok.mpr ⟨start, hnew, rfl⟩
  exact (NodeRun.opened hempty).replayLoop hreplay

/-! ## Restarts -/

/-- A faulted node has the records of its run in front of its log. -/
theorem NodeRun.log_eq (h : NodeRun P params verifier accepted node) :
    ∃ log tail, blockLog P accepted = .ok log ∧ node.log = log ++ tail := by
  induction h with
  | opened hopen =>
      obtain ⟨state, hnew, rfl⟩ := open_empty_eq_ok.mp hopen
      exact ⟨[], [], rfl, rfl⟩
  | accepted hrun hsubmit ih =>
      obtain ⟨log, hlog, hsound⟩ := (hrun.accepted hsubmit).consistent.log
      obtain ⟨_, record, haccepts⟩ := submitBlock_accepted (a := ⟨_, _⟩) hrun.consistent hsubmit
      obtain ⟨hfaultless, -⟩ := stageBlock_eq_ok.mp haccepts.staged
      refine ⟨log, [], hlog, ?_⟩
      rw [List.append_nil]
      refine hsound ?_
      rw [haccepts.unchanged]
      exact hfaultless
  | refused hrun hsubmit ih =>
      obtain ⟨log, tail, hlog, heq⟩ := ih
      rcases submitBlock_refused (a := ⟨_, _⟩) hrun.consistent hsubmit with rfl | ⟨more, rfl⟩
      · exact ⟨log, tail, hlog, heq⟩
      · exact ⟨log, tail ++ more, hlog, by rw [heq, List.append_assoc]⟩
  | transaction _ hsubmit ih =>
      rw [submitTransaction_unchanged hsubmit]
      exact ih

/-- The node that opens the log of a run has made that run. -/
theorem NodeRun.restored (h : NodeRun P params verifier accepted node)
    (hlog : blockLog P accepted = .ok log) :
    NodeRun P params verifier accepted
      (.restored params verifier log (node.state, node.index)) := by
  induction h generalizing log with
  | opened hopen =>
      obtain ⟨state, hnew, rfl⟩ := open_empty_eq_ok.mp hopen
      obtain rfl := Except.ok.inj hlog
      exact .opened hopen
  | @accepted accepted node node' append block acceptedAt fees hrun hsubmit ih =>
      obtain ⟨_, record, haccepts⟩ :=
        submitBlock_accepted (a := ⟨block, acceptedAt⟩) hrun.consistent hsubmit
      obtain ⟨before, last, hbefore, hlast, rfl⟩ := blockLog_append.mp hlog
      obtain ⟨_, _, hrecord, hnil, rfl⟩ := blockLog_cons.mp hlast
      obtain rfl := Except.ok.inj (haccepts.blockRecord.symm.trans hrecord)
      obtain rfl := Except.ok.inj hnil
      obtain ⟨_, canonical, hencode, hprepare, hbytes⟩ := stageBlock_eq_ok.mp haccepts.staged
      rw [hrun.consistent.constant.1, hrun.consistent.constant.2] at hprepare
      have hcommitted := haccepts.committed
      have hnext := (ih hbefore).restored_accepts hencode hprepare hbytes
        (congrArg Committed.result hcommitted)
      rw [hcommitted] at hnext
      rwa [List.append_nil]
  | refused hrun hsubmit ih =>
      rcases submitBlock_refused (a := ⟨_, _⟩) hrun.consistent hsubmit with rfl | ⟨_, rfl⟩
      · exact ih hlog
      · exact ih hlog
  | transaction _ hsubmit ih =>
      rw [submitTransaction_unchanged hsubmit]
      exact ih hlog

/-- What stands behind the log of a run is more of the run, if the node opens again. -/
theorem NodeRun.reopen_extends (h : NodeRun P params verifier accepted node) {rest : List UInt8}
    (hopen : Node.open P params verifier (node.log ++ rest) = .ok node') :
    ∃ more, NodeRun P params verifier (accepted ++ more) node' := by
  obtain ⟨log, tail, hlog, heq⟩ := h.log_eq
  rw [heq, List.append_assoc] at hopen
  obtain ⟨turns, -, hturns⟩ := h.open_blockLog hlog (tail ++ rest)
  obtain ⟨replayed, hreplay, hnode⟩ := bind_eq_ok.mp (hturns.symm.trans hopen)
  obtain rfl := Except.ok.inj hnode
  obtain ⟨more, -, hrun⟩ := (h.restored hlog).replayLoop hreplay
  exact ⟨more, hrun⟩

/-- **A log opens if and only if it is the log of a run**, whatever is in the file: the node that
opens has accepted the blocks of its records one after the other, has nothing pending, and would
have written these bytes. -/
theorem log_opens_iff : Node.open P params verifier log = .ok node ↔
    (∃ accepted, blockLog P accepted = .ok log ∧ NodeRun P params verifier accepted node) ∧
      node.mempool = .empty ∧ node.storageFaulted = false := by
  constructor
  · intro h
    obtain ⟨_, _, -, -, hnode⟩ := open_eq_ok.mp h
    exact ⟨NodeRun.of_open h, by rw [hnode]; rfl, by rw [hnode]; rfl⟩
  · rintro ⟨⟨accepted, hlog, hrun⟩, hempty, hsound⟩
    obtain ⟨hparams, hverifier⟩ := hrun.consistent.constant
    obtain ⟨log', hlog', heq⟩ := hrun.consistent.log
    obtain rfl := Except.ok.inj (hlog'.symm.trans hlog)
    obtain ⟨_, _, state, index, mempool, _, storageFaulted⟩ := node
    obtain rfl := hparams
    obtain rfl := hverifier
    obtain rfl := hempty
    obtain rfl := hsound
    obtain rfl := heq rfl
    exact hrun.reopen hlog

end

end CommonFoundry
