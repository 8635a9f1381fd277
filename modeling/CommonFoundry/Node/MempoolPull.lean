/-
# `CommonFoundry.Node.MempoolPull` — one poll of a peer's mempool

A poll asks for the transactions of a peer in the order of their identifiers, skips those
that the node holds, and downloads at most 64 of the others.  Nothing is kept of a
transaction that the node refuses: the next poll asks for it again.

So a poll admits nothing exactly when none of these 64 fits (`pull_accepts_nothing`), and
then it leaves the node as it is.  `mempool_pull_iff` says when that is the end of it: when
none of the transactions behind them fits either.
-/
import CommonFoundry.Node.Admission

namespace CommonFoundry

open Lib Lib.Outcome Lib.Ledger

def maxTransactionsPerSync : Nat := 64

/-- `P2pError`, for the mempool part of a poll over a connection that holds. -/
inductive MempoolSyncError where
  | unknownRequestedTransaction (txid : Bytes32)
  | wrongTransaction (requested actual : Bytes32)

/-- The part of `SyncReport` that is about the mempool. -/
structure MempoolReport where
  transactionInventoryItems : Nat
  requestedTransactions : Nat
  acceptedTransactions : Nat
  alreadyKnownTransactions : Nat
  rejectedTransactions : Nat

/-- The answer to `GetMempool`. -/
def Node.transactionInventory (node : Node) : List Bytes32 :=
  node.mempool.entries.values.map (·.txid)

/-- The transactions of a peer's inventory that the node does not hold. -/
def Node.missingTransactions (node remote : Node) : List Bytes32 :=
  remote.transactionInventory.filter fun txid => txid ∉ node.transactionInventory

section

variable (P : Platform)

/-- The answer to `GetTransaction`. -/
def Node.serveTransaction (node : Node) (txid : Bytes32) :
    Outcome MempoolSyncError Transaction := do
  let entry ← okOr (node.mempool.entries.values.find? fun entry => entry.txid = txid)
    (.unknownRequestedTransaction txid)
  require (entry.transaction.txid P = txid) (.wrongTransaction txid (entry.transaction.txid P))
  pure entry.transaction

/-- The loop over what is requested, with the report so far. -/
def pullTransactions (remote : Node) :
    List Bytes32 → MempoolReport → Node → Outcome MempoolSyncError MempoolReport × Node
  | [], report, node => (.ok report, node)
  | requested :: rest, report, node =>
      match remote.serveTransaction P requested with
      | .error fault => (.error fault, node)
      | .ok transaction =>
          let report :=
            { report with requestedTransactions := report.requestedTransactions + 1 }
          if transaction.txid P = requested then
            match node.submitTransaction P transaction with
            | (.ok _, node) =>
                pullTransactions remote rest
                  { report with acceptedTransactions := report.acceptedTransactions + 1 } node
            | (.error _, node) =>
                pullTransactions remote rest
                  { report with rejectedTransactions := report.rejectedTransactions + 1 } node
          else (fail (.wrongTransaction requested (transaction.txid P)), node)

/-- The mempool part of `perform_sync_from_peer_once`. -/
def Node.pullMempool (node remote : Node) : Outcome MempoolSyncError MempoolReport × Node :=
  let inventory := remote.transactionInventory
  let known := node.transactionInventory
  pullTransactions P remote ((node.missingTransactions remote).take maxTransactionsPerSync)
    { transactionInventoryItems := inventory.length
      requestedTransactions := 0
      acceptedTransactions := 0
      alreadyKnownTransactions := inventory.countP fun txid => txid ∈ known
      rejectedTransactions := 0 }
    node

end

section

variable {P : Platform} {node remote : Node}

/-! ## What a peer serves -/

theorem PoolInvariant.serves (h : PoolInvariant P remote.state remote.mempool) {txid : Bytes32}
    (hmem : txid ∈ remote.transactionInventory) :
    ∃ entry, Pooled P remote.state txid entry ∧ entry.transaction.txid P = txid ∧
      entry.transaction ∈ remote.mempool.transactions ∧
      remote.serveTransaction P txid = .ok entry.transaction := by
  obtain ⟨found, hfound, heq⟩ := List.mem_map.mp hmem
  cases hsearch : remote.mempool.entries.values.find? fun entry => entry.txid = txid with
  | none => exact absurd (decide_eq_true heq) (List.find?_eq_none.mp hsearch found hfound)
  | some entry =>
      obtain ⟨item, hitem, rfl⟩ := List.mem_map.mp (List.mem_of_find?_eq_some hsearch)
      obtain rfl : item.2.txid = txid := of_decide_eq_true
        (List.find?_some (p := fun entry : MempoolEntry => decide (entry.txid = txid)) hsearch)
      have hpooled := h.pooled item hitem
      have hkey := hpooled.entered.txid
      have htxid : item.2.transaction.txid P = item.2.txid := by
        rw [hkey, ← hpooled.entered.key]
      refine ⟨item.2, hkey ▸ hpooled, htxid, ?_, ?_⟩
      · rw [transactions_eq]
        exact List.mem_map_of_mem hitem
      simp only [Node.serveTransaction, bind_eq_ok, okOr_eq_ok, require_eq_ok, pure_eq_ok]
      exact ⟨item.2, hsearch, (), htxid, rfl⟩

/-- The inventory is the identifiers of the pool's transactions, in their order. -/
theorem PoolInvariant.inventory (h : PoolInvariant P remote.state remote.mempool) :
    remote.transactionInventory = remote.mempool.transactions.map (·.txid P) ∧
      remote.transactionInventory.Pairwise (· < ·) := by
  have hkeys : remote.transactionInventory = remote.mempool.entries.entries.map (·.1) := by
    rw [Node.transactionInventory, KeyMap.values, List.map_map]
    exact List.map_congr_left fun item hitem => (h.pooled item hitem).entered.txid
  constructor
  · rw [hkeys, transactions_eq, List.map_map]
    exact List.map_congr_left fun item hitem => (h.pooled item hitem).entered.key
  · rw [hkeys]
    exact List.pairwise_map.mpr remote.mempool.entries.sorted

/-! ## The loop -/

/-- The transaction that the peer serves under an identifier is admitted. -/
def Node.AdmitsFrom (P : Platform) (node remote : Node) (txid : Bytes32) : Prop :=
  ∃ transaction, remote.serveTransaction P txid = .ok transaction ∧ node.Admits P transaction

/-- The transaction that the peer serves under an identifier fits the pool. -/
def Node.FitsFrom (P : Platform) (node remote : Node) (txid : Bytes32) : Prop :=
  ∃ transaction, remote.serveTransaction P txid = .ok transaction ∧
    node.mempool.Fits P node.state transaction

/-- The loop comes to its end.  It counts nothing as accepted exactly when nothing of what is
requested is admitted, and then the node is as it was. -/
theorem pullTransactions_spec (hremote : PoolInvariant P remote.state remote.mempool)
    {requested : List Bytes32} (hmem : requested ⊆ remote.transactionInventory) :
    ∀ (report : MempoolReport) (node : Node), ∃ report' node',
      pullTransactions P remote requested report node = (.ok report', node') ∧
        report.acceptedTransactions ≤ report'.acceptedTransactions ∧
        (report'.acceptedTransactions = report.acceptedTransactions ↔
          ∀ txid ∈ requested, ¬node.AdmitsFrom P remote txid) ∧
        (report'.acceptedTransactions = report.acceptedTransactions → node' = node) := by
  induction requested with
  | nil =>
      intro report node
      exact ⟨report, node, rfl, le_refl _,
        ⟨fun _ _ hnil => absurd hnil List.not_mem_nil, fun _ => rfl⟩, fun _ => rfl⟩
  | cons txid rest ih =>
      intro report node
      obtain ⟨hfirst, hrest⟩ := List.cons_subset.mp hmem
      obtain ⟨entry, hpooled, htxid, -, hserve⟩ := hremote.serves hfirst
      rw [pullTransactions, hserve]
      dsimp only
      rw [if_pos htxid]
      cases hsubmit : node.submitTransaction P entry.transaction with
      | mk result after =>
          cases result with
          | ok admitted =>
              obtain ⟨report', node', hpull, hle, -, -⟩ := ih hrest
                { report with
                  requestedTransactions := report.requestedTransactions + 1
                  acceptedTransactions := report.acceptedTransactions + 1 } after
              have hlt : report.acceptedTransactions < report'.acceptedTransactions := hle
              refine ⟨report', node', hpull, hlt.le, ⟨fun heq => absurd heq hlt.ne', fun hnone => ?_⟩,
                fun heq => absurd heq hlt.ne'⟩
              exact absurd ⟨_, hserve, admitted, after, hsubmit⟩ (hnone txid List.mem_cons_self)
          | error fault =>
              obtain rfl := submitTransaction_fails hsubmit
              obtain ⟨report', node', hpull, hle, hiff, hsame⟩ := ih hrest
                { report with
                  requestedTransactions := report.requestedTransactions + 1
                  rejectedTransactions := report.rejectedTransactions + 1 } after
              have hrefused : ¬after.AdmitsFrom P remote txid := by
                rintro ⟨transaction, hserve', _, _, hok⟩
                obtain rfl := Except.ok.inj (hserve.symm.trans hserve')
                rw [hsubmit] at hok
                cases hok
              refine ⟨report', node', hpull, hle, hiff.trans ?_, hsame⟩
              rw [List.forall_mem_cons]
              exact ⟨fun hlater => ⟨hrefused, hlater⟩, fun hall => hall.2⟩

end

/-! ## A poll -/

section

variable {P : Platform} {params : NetworkParams} {verifier : ConsensusPowVerifier}
  {accepted : List Acceptance} {node remote : Node}

theorem missingTransactions_subset :
    node.missingTransactions remote ⊆ remote.transactionInventory :=
  List.filter_subset_self _

/-- Once a poll admits nothing, nothing that the node lacks is admissible. -/
def Node.NeverStarves (P : Platform) (node remote : Node) : Prop :=
  ∀ report node', node.pullMempool P remote = (.ok report, node') →
    report.acceptedTransactions = 0 →
    ∀ txid ∈ node.missingTransactions remote, ¬node'.AdmitsFrom P remote txid

theorem pull_accepts_nothing (node : Node)
    (hremote : PoolInvariant P remote.state remote.mempool) :
    ∃ report node', node.pullMempool P remote = (.ok report, node') ∧
      (report.acceptedTransactions = 0 ↔
        ∀ txid ∈ (node.missingTransactions remote).take maxTransactionsPerSync,
          ¬node.AdmitsFrom P remote txid) ∧
      (report.acceptedTransactions = 0 → node' = node) := by
  obtain ⟨report, node', hpull, -, hiff, hsame⟩ := pullTransactions_spec hremote
    (fun txid hmem => missingTransactions_subset (List.mem_of_mem_take hmem)) _ node
  exact ⟨report, node', hpull, hiff, hsame⟩

/-- Where two nodes are at one state, what the one holds the other admits if it fits. -/
theorem admitsFrom_iff (hremote : PoolInvariant P remote.state remote.mempool)
    (hstate : node.state = remote.state) {txid : Bytes32}
    (hmem : txid ∈ node.missingTransactions remote) :
    node.AdmitsFrom P remote txid ↔ node.FitsFrom P remote txid := by
  obtain ⟨entry, hpooled, -, -, hserve⟩ := hremote.serves (missingTransactions_subset hmem)
  rw [← hstate] at hpooled
  constructor
  · rintro ⟨transaction, hserve', hadmits⟩
    obtain rfl := Except.ok.inj (hserve.symm.trans hserve')
    exact ⟨_, hserve, hpooled.admits_iff.mp hadmits⟩
  · rintro ⟨transaction, hserve', hfits⟩
    obtain rfl := Except.ok.inj (hserve.symm.trans hserve')
    exact ⟨_, hserve, hpooled.admits_iff.mpr hfits⟩

/-- The first page of what is missing has something that fits, or nothing behind it does. -/
def Node.PageFits (P : Platform) (node remote : Node) : Prop :=
  (∃ txid ∈ (node.missingTransactions remote).take maxTransactionsPerSync,
      node.FitsFrom P remote txid) ∨
    ∀ txid ∈ (node.missingTransactions remote).drop maxTransactionsPerSync,
      ¬node.FitsFrom P remote txid

theorem neverStarves_iff (hremote : PoolInvariant P remote.state remote.mempool)
    (hstate : node.state = remote.state) :
    node.NeverStarves P remote ↔ node.PageFits P remote := by
  obtain ⟨report, node', hpull, hiff, hsame⟩ := pull_accepts_nothing node hremote
  have hsplit := List.take_append_drop maxTransactionsPerSync (node.missingTransactions remote)
  have htake : ∀ txid ∈ (node.missingTransactions remote).take maxTransactionsPerSync,
      (node.AdmitsFrom P remote txid ↔ node.FitsFrom P remote txid) :=
    fun txid hmem => admitsFrom_iff hremote hstate (List.mem_of_mem_take hmem)
  have hdrop : ∀ txid ∈ (node.missingTransactions remote).drop maxTransactionsPerSync,
      (node.AdmitsFrom P remote txid ↔ node.FitsFrom P remote txid) :=
    fun txid hmem => admitsFrom_iff hremote hstate (List.mem_of_mem_drop hmem)
  constructor
  · intro h
    by_cases hpage : ∃ txid ∈ (node.missingTransactions remote).take maxTransactionsPerSync,
        node.FitsFrom P remote txid
    · exact .inl hpage
    · have hnone : report.acceptedTransactions = 0 := hiff.mpr fun txid hmem hadmits =>
        hpage ⟨txid, hmem, (htake txid hmem).mp hadmits⟩
      obtain rfl := hsame hnone
      refine .inr fun txid hmem hfits => ?_
      exact h report node' hpull hnone txid (List.mem_of_mem_drop hmem) ((hdrop txid hmem).mpr hfits)
  · intro h report₁ node₁ hpull₁ hnone txid hmem
    obtain ⟨hreport, rfl⟩ := Prod.mk.inj (hpull.symm.trans hpull₁)
    obtain rfl := Except.ok.inj hreport
    obtain rfl := hsame hnone
    have hpage := hiff.mp hnone
    rcases h with ⟨txid, hmem, hfits⟩ | hrest
    · exact absurd ((htake txid hmem).mpr hfits) (hpage txid hmem)
    · rw [← hsplit] at hmem
      rcases List.mem_append.mp hmem with hmem | hmem
      · exact hpage txid hmem
      · exact fun hadmits => hrest txid hmem ((hdrop txid hmem).mp hadmits)

/-- A peer with at most a page of what the node lacks never starves it. -/
theorem neverStarves_of_length_le (hremote : PoolInvariant P remote.state remote.mempool)
    (hstate : node.state = remote.state)
    (hle : (node.missingTransactions remote).length ≤ maxTransactionsPerSync) :
    node.NeverStarves P remote := by
  refine (neverStarves_iff hremote hstate).mpr (.inr fun txid hmem => ?_)
  rw [List.drop_eq_nil_of_le hle] at hmem
  cases hmem

/-- Any number of polls, one after the other. -/
def Node.polls (P : Platform) (remote : Node) : Nat → Node → Node
  | 0, node => node
  | count + 1, node => Node.polls P remote count (node.pullMempool P remote).2

/-- A poll of an honest peer at the same state comes to its end.  That it admits nothing means
that nothing is left to admit if and only if something of its page fits, or nothing behind the
page does.  Otherwise no number of polls changes the node. -/
theorem mempool_pull_iff (node : Node) (hremote : NodeRun P params verifier accepted remote)
    (hstate : node.state = remote.state) :
    (∃ report node', node.pullMempool P remote = (.ok report, node')) ∧
      (node.NeverStarves P remote ↔ node.PageFits P remote) ∧
      (¬node.PageFits P remote → ∀ count, Node.polls P remote count node = node) := by
  have hpool := hremote.poolInvariant
  obtain ⟨report, node', hpull, hiff, hsame⟩ := pull_accepts_nothing node hpool
  refine ⟨⟨report, node', hpull⟩, neverStarves_iff hpool hstate, fun hpage count => ?_⟩
  have hstays : (node.pullMempool P remote).2 = node := by
    rw [hpull]
    refine hsame (hiff.mpr fun txid hmem hadmits => hpage (.inl ⟨txid, hmem, ?_⟩))
    exact (admitsFrom_iff hpool hstate (List.mem_of_mem_take hmem)).mp hadmits
  induction count with
  | zero => rfl
  | succ count ih =>
      rw [Node.polls, hstays]
      exact ih

end

/-! ## A page of the sample network that does not fit -/

section

variable {state : ChainState} {key : Bytes32} {outpoints : List OutPoint} {outputs : List TxOutput}

/-- Signatures are no part of what is signed. -/
theorem sampleTransaction_signingDigest :
    (sampleTransaction key outpoints outputs).signingDigest samplePlatform =
      Transaction.signingDigest samplePlatform {
        networkId := toBytes 1
        version := transactionVersion
        inputs := outpoints.map fun previous => { previous, witness := .key key [] }
        outputs } := by
  simp only [Transaction.signingDigest, encodeUnsignedTransaction, sampleTransaction,
    List.flatMap_map, List.length_map]
  rfl

theorem sampleTransaction_wireSize :
    (sampleTransaction key outpoints outputs).wireSize =
      32 + (4 + (4 + (outpoints.length * 133 + (4 + outputs.length * 49)))) := by
  have hinputs : ((sampleTransaction key outpoints outputs).inputs.map fun input =>
      36 + input.witness.wireSize) = outpoints.map fun _ => 133 := by
    rw [sampleTransaction, List.map_map]
    rfl
  rw [Transaction.wireSize, hinputs, List.map_const', List.sum_replicate_nat]
  rfl

theorem sampleTransaction_consumed :
    (sampleTransaction key outpoints outputs).consumed = outpoints := by
  rw [Transaction.consumed, sampleTransaction, List.map_map]
  exact List.map_id outpoints

/-- The owner of outputs spends them. -/
theorem sampleTransaction_keySpend {fee : UInt64} (hnetwork : state.params.networkId = toBytes 1)
    (hinputs : outpoints ≠ []) (houtputs : outputs ≠ []) (hinputsLe : outpoints.length ≤ 128)
    (houtputsLe : outputs.length ≤ 128) (hnodup : outpoints.Nodup)
    (hget : ∀ outpoint ∈ outpoints, ∃ previous, state.utxos.get outpoint = some previous ∧
      previous.lock = .key key ∧ previous.spendableHeight ≤ state.nextHeight)
    (hpaid : ∀ output ∈ outputs, output.value ≠ 0 ∧ output.channel = none)
    (hbalance : held outputValue state.utxos.outputs outpoints = valueOf outputs + fee.toNat)
    (hfits : valueOf outputs + fee.toNat < 2 ^ 64)
    (hfree : ∀ kv ∈ (sampleTransaction key outpoints outputs).created samplePlatform,
      state.utxos.get kv.1 = none) :
    KeySpend samplePlatform state (sampleTransaction key outpoints outputs) fee := by
  have hsigned : ∀ input ∈ (sampleTransaction key outpoints outputs).inputs,
      ∃ previous, previous ∈ outpoints ∧ input = { previous, witness := .key key (samplePlatform.sign ⟨key⟩
        ((sampleTransaction key outpoints outputs).signingDigest samplePlatform)).1 } := by
    intro input hmem
    obtain ⟨previous, hprevious, rfl⟩ := List.mem_map.mp hmem
    exact ⟨previous, hprevious, by rw [sampleTransaction_signingDigest]⟩
  constructor
  · exact hnetwork.symm
  · rfl
  · exact fun hnil => hinputs (List.map_eq_nil_iff.mp hnil)
  · exact houtputs
  · refine ⟨?_, houtputsLe, fun input hmem => ?_⟩
    · rw [sampleTransaction, List.length_map]
      exact hinputsLe
    · obtain ⟨previous, -, rfl⟩ := hsigned input hmem
      exact require_eq_ok.mpr (samplePlatform.sign _ _).2
  · rw [sampleTransaction_wireSize]
    have hmax : maxTransactionBytes = 65536 := rfl
    have hheader : wireHeaderBytes = 16 := rfl
    omega
  · rw [sampleTransaction_consumed]
    exact hnodup
  · intro input hmem
    obtain ⟨previous, -, rfl⟩ := hsigned input hmem
    rfl
  · intro input hmem
    obtain ⟨outpoint, houtpoint, rfl⟩ := hsigned input hmem
    obtain ⟨previous, hprevious, hlock, hmature⟩ := hget outpoint houtpoint
    refine ⟨previous.value, ?_⟩
    simp only [checkKeyInput, bind_eq_ok, okOr_eq_ok, require_eq_ok]
    refine ⟨previous, hprevious, (), UInt64.not_lt.mpr hmature, ?_⟩
    rw [hlock]
    simp only [bind_eq_ok, require_eq_ok, pure_eq_ok]
    exact ⟨(), trivial, (), rfl, (), samplePlatform_signsCorrectly.signature ⟨key⟩ _, (),
      samplePlatform_signsCorrectly.verify ⟨key⟩ _, trivial⟩
  · exact hpaid
  · rw [sampleTransaction_consumed]
    exact hbalance
  · exact hfits
  · exact hfree

end

/-- Outpoints of one output each. -/
theorem held_of_const {utxos : UtxoSet} {outpoints : List OutPoint} {output : TxOutput}
    (h : ∀ outpoint ∈ outpoints, utxos.get outpoint = some output) :
    held outputValue utxos.outputs outpoints = outpoints.length * outputValue output := by
  induction outpoints with
  | nil => exact (Nat.zero_mul _).symm
  | cons outpoint rest ih =>
      obtain ⟨hfirst, hrest⟩ := List.forall_mem_cons.mp h
      have hlookup : utxos.outputs.lookup outpoint = some output := hfirst
      rw [held, List.map_cons, List.sum_cons, ← held, ih hrest, hlookup, Option.elim_some,
        List.length_cons, Nat.succ_mul, Nat.add_comm]

def sampleOutput (value : UInt64) : TxOutput :=
  { value, lock := .key (toBytes 3), spendableHeight := 2 }

/-- The steward of the first block splits the reward into 65 outputs. -/
def sampleSplit : Transaction :=
  sampleTransaction (toBytes 3) [⟨sampleBlock₁.coinbaseOutpointId samplePlatform, 1⟩]
    (List.replicate 65 (sampleOutput 1000))

def sampleSplitBlock : Acceptance := ⟨sampleBlock sampleState₁ 1120 35000 [sampleSplit], 1120⟩

def sampleSplitNode : Node :=
  (sampleSubmit sampleNode₀ [sampleFirst, sampleSplitBlock]).getD sampleNode₀

def samplePiece (index : Nat) : OutPoint :=
  ⟨sampleSplit.txid samplePlatform, UInt32.ofNat index⟩

/-- A transaction for each of the 65 outputs. -/
def sampleSpend (index : Nat) : Transaction :=
  sampleTransaction (toBytes 3) [samplePiece index] [sampleOutput 900]

/-- The output whose transaction has the greatest identifier. -/
def sampleGreatest : Nat := 34

def sampleSwept : List Nat := (List.range 65).filter (· ≠ sampleGreatest)

/-- One transaction for all outputs but that one. -/
def sampleSweep : Transaction :=
  sampleTransaction (toBytes 3) (sampleSwept.map samplePiece) [sampleOutput 60000]

def sampleCrowd : List Transaction := (List.range 65).map sampleSpend

/-- The peer holds a transaction for each output. -/
def sampleCrowdNode : Node := sampleSplitNode.submitTransactions samplePlatform sampleCrowd

/-- The node holds the one for 64 of them. -/
def sampleSweepNode : Node := sampleSplitNode.submitTransactions samplePlatform [sampleSweep]

/-- The identifiers of what is unspent there. -/
def sampleUnspent : List Bytes32 :=
  [sampleBlock₁.coinbaseOutpointId samplePlatform,
    sampleSplitBlock.block.coinbaseOutpointId samplePlatform, sampleSplit.txid samplePlatform]

theorem sampleSplitNode_facts :
    ((sampleSubmit sampleNode₀ [sampleFirst, sampleSplitBlock]).isSome ∧
      sampleSplitNode.mempool.entries.length = 0 ∧ sampleSplitNode.state.nextHeight = 3) ∧
    (∀ index < 65, sampleSplitNode.state.utxos.get (samplePiece index) =
      some (sampleOutput 1000)) ∧
    ∀ entry ∈ sampleSplitNode.state.utxos.outputs.entries, entry.1.txid ∈ sampleUnspent := by
  decide +kernel

theorem sampleSpend_facts :
    ((List.range 65).map fun index => (sampleSpend index).txid samplePlatform).Nodup ∧
    (∀ index < 65,
      (sampleSpend index).txid samplePlatform ≠ sampleSweep.txid samplePlatform ∧
      (sampleSpend index).txid samplePlatform ≤
        (sampleSpend sampleGreatest).txid samplePlatform) ∧
    (∀ index < 65, (sampleSpend index).txid samplePlatform ∉ sampleUnspent) ∧
    sampleSweep.txid samplePlatform ∉ sampleUnspent := by
  decide +kernel

theorem sampleSplitNode_get {txid : Bytes32} (h : txid ∉ sampleUnspent) :
    sampleSplitNode.state.utxos.get ⟨txid, 0⟩ = none := by
  obtain ⟨_, _, hunspent⟩ := sampleSplitNode_facts
  -- without its value, so that nothing computes it
  generalize sampleSplitNode.state.utxos = utxos at hunspent ⊢
  refine UtxoSet.get_eq_none_of_txid (fun entry hmem heq => h ?_) 0
  have hentry := hunspent entry hmem
  rwa [heq] at hentry

theorem sampleSplitNode_run : NodeRun samplePlatform sampleParams sampleVerifier
    [sampleFirst, sampleSplitBlock] sampleSplitNode :=
  sampleSubmit_getD_run sampleNode₀_run sampleSplitNode_facts.1.1

theorem samplePieces_nodup : ((List.range 65).map samplePiece).Nodup := by
  refine (List.nodup_map_iff_inj_on List.nodup_range).mpr fun i hi j hj heq => ?_
  have hindex := congrArg (fun outpoint : OutPoint => outpoint.index.toNat) heq
  have hi' := List.mem_range.mp hi
  have hj' := List.mem_range.mp hj
  simp only [samplePiece, UInt32.toNat_ofNat'] at hindex
  omega

/-- Some of the outputs are spent, and what they hold beyond the payment is burned. -/
theorem samplePieces_keySpend {indices : List Nat} {value fee : UInt64} (hne : indices ≠ [])
    (hlt : ∀ index ∈ indices, index < 65) (hnodup : indices.Nodup)
    (hvalue : value ≠ 0) (hbalance : indices.length * 1000 = value.toNat + fee.toNat)
    (hfree : sampleSplitNode.state.utxos.get ⟨(sampleTransaction (toBytes 3)
      (indices.map samplePiece) [sampleOutput value]).txid samplePlatform, 0⟩ = none) :
    KeySpend samplePlatform sampleSplitNode.state (sampleTransaction (toBytes 3)
      (indices.map samplePiece) [sampleOutput value]) fee := by
  have hget : ∀ index ∈ indices, sampleSplitNode.state.utxos.get (samplePiece index) =
      some (sampleOutput 1000) := fun index hmem => sampleSplitNode_facts.2.1 index (hlt index hmem)
  have hlength : indices.length ≤ 65 := by
    have hsub : indices.Subperm (List.range 65) :=
      List.subperm_of_subset hnodup fun index hmem => List.mem_range.mpr (hlt index hmem)
    exact hsub.length_le.trans_eq List.length_range
  have hpieces : (indices.map samplePiece).Nodup := by
    refine (List.nodup_map_iff_inj_on hnodup).mpr fun i hi j hj heq => ?_
    exact List.inj_on_of_nodup_map samplePieces_nodup (List.mem_range.mpr (hlt i hi))
      (List.mem_range.mpr (hlt j hj)) heq
  have hheld : held outputValue sampleSplitNode.state.utxos.outputs (indices.map samplePiece) =
      indices.length * 1000 := by
    have hall : ∀ outpoint ∈ indices.map samplePiece,
        sampleSplitNode.state.utxos.get outpoint = some (sampleOutput 1000) := by
      intro outpoint hmem
      obtain ⟨index, hindex, rfl⟩ := List.mem_map.mp hmem
      exact hget index hindex
    rw [held_of_const hall, List.length_map]
    rfl
  have hpaid : valueOf [sampleOutput value] = value.toNat := Nat.add_zero _
  refine sampleTransaction_keySpend ?_ ?_ (List.cons_ne_nil _ _) ?_ ?_ hpieces ?_ ?_ ?_ ?_ ?_
  · obtain ⟨_, hchain⟩ := sampleSplitNode_run.chain
    rw [hchain.constant.1]
    rfl
  · exact fun hnil => hne (List.map_eq_nil_iff.mp hnil)
  · rw [List.length_map]
    omega
  · exact Nat.le_of_ble_eq_true rfl
  · intro outpoint hmem
    obtain ⟨index, hindex, rfl⟩ := List.mem_map.mp hmem
    refine ⟨_, hget index hindex, rfl, ?_⟩
    rw [sampleSplitNode_facts.1.2.2]
    decide
  · intro output hmem
    obtain rfl := List.mem_singleton.mp hmem
    exact ⟨hvalue, rfl⟩
  · rw [hheld, hpaid]
    exact hbalance
  · rw [hpaid]
    omega
  · intro kv hmem
    obtain rfl := List.mem_singleton.mp hmem
    exact hfree

theorem sampleSpend_keySpend {index : Nat} (hlt : index < 65) :
    KeySpend samplePlatform sampleSplitNode.state (sampleSpend index) 100 := by
  have hspend := @samplePieces_keySpend [index] 900 100 (List.cons_ne_nil _ _)
    (fun other hmem => List.mem_singleton.mp hmem ▸ hlt) (List.nodup_singleton _) (by decide)
    (by rw [List.length_singleton]; decide)
  exact hspend (sampleSplitNode_get (sampleSpend_facts.2.2.1 index hlt))

theorem mem_sampleSwept {index : Nat} :
    index ∈ sampleSwept ↔ index < 65 ∧ index ≠ sampleGreatest := by
  rw [sampleSwept, List.mem_filter, List.mem_range, decide_eq_true_iff]

theorem sampleSweep_keySpend :
    KeySpend samplePlatform sampleSplitNode.state sampleSweep 4000 := by
  exact samplePieces_keySpend (by decide) (fun index hmem => (mem_sampleSwept.mp hmem).1)
    (List.nodup_range.filter _) (by decide) (by decide)
    (sampleSplitNode_get sampleSpend_facts.2.2.2)

theorem mem_sampleCrowd {transaction : Transaction} :
    transaction ∈ sampleCrowd ↔ ∃ index < 65, sampleSpend index = transaction := by
  simp only [sampleCrowd, List.mem_map, List.mem_range]

theorem sampleCrowd_apart : Apart samplePlatform sampleSplitNode.state sampleCrowd := by
  have hones : ∀ size : Transaction → Nat, (∀ index, size (sampleSpend index) = 1) →
      (sampleCrowd.map size).sum = 65 := by
    intro size hsize
    rw [sampleCrowd, List.map_map, show size ∘ sampleSpend = fun _ => 1 from funext hsize,
      List.map_const', List.sum_replicate_nat, List.length_range]
  have hlength : sampleCrowd.length = 65 := List.length_map _
  refine apart_of_keySpends 100 ?_ ?_ ?_ ?_ ?_ ?_ ?_
  · intro transaction hmem
    obtain ⟨index, hlt, rfl⟩ := mem_sampleCrowd.mp hmem
    exact ⟨100, sampleSpend_keySpend hlt, by decide⟩
  · rw [sampleCrowd, List.map_map]
    exact sampleSpend_facts.1
  · have hreferences : references sampleCrowd = (List.range 65).map samplePiece := by
      rw [references, sampleCrowd, List.flatMap_map, List.map_eq_flatMap]
      exact List.flatMap_congr fun index _ => sampleTransaction_consumed
    rw [hreferences]
    exact samplePieces_nodup
  · rw [hlength]
    decide
  · rw [hlength]
    decide
  · rw [hones _ fun _ => rfl]
    decide
  · rw [hones _ fun _ => rfl]
    decide

theorem sampleSpend_inj {i j : Nat} (hi : i < 65) (hj : j < 65)
    (h : (sampleSpend i).txid samplePlatform = (sampleSpend j).txid samplePlatform) : i = j :=
  List.inj_on_of_nodup_map sampleSpend_facts.1 (List.mem_range.mpr hi) (List.mem_range.mpr hj) h

/-- The greatest goes with the one for the others. -/
theorem sampleSweep_apart : Apart samplePlatform sampleSplitNode.state
    [sampleSpend sampleGreatest, sampleSweep] := by
  have hlt : sampleGreatest < 65 := by decide
  have hlength : sampleSweep.inputs.length = 64 := by
    rw [sampleSweep, sampleTransaction, List.length_map, List.length_map]
    decide
  refine apart_of_keySpends 4000 ?_ ?_ ?_ (by decide) (by decide) ?_ (by decide)
  · intro transaction hmem
    rcases List.mem_pair.mp hmem with rfl | rfl
    · exact ⟨100, sampleSpend_keySpend hlt, by decide⟩
    · exact ⟨4000, sampleSweep_keySpend, by decide⟩
  · refine List.nodup_cons.mpr ⟨fun hmem => ?_, List.nodup_singleton _⟩
    exact (sampleSpend_facts.2.1 sampleGreatest hlt).1 (List.mem_singleton.mp hmem)
  · have hreferences : references [sampleSpend sampleGreatest, sampleSweep] =
        (sampleGreatest :: sampleSwept).map samplePiece := by
      rw [references, List.flatMap_cons, List.flatMap_singleton, sampleSpend, sampleSweep,
        sampleTransaction_consumed, sampleTransaction_consumed]
      rfl
    have hnodup : (sampleGreatest :: sampleSwept).Nodup :=
      List.nodup_cons.mpr ⟨fun hmem => (mem_sampleSwept.mp hmem).2 rfl, List.nodup_range.filter _⟩
    rw [hreferences]
    refine (List.nodup_map_iff_inj_on hnodup).mpr fun i hi j hj heq => ?_
    have hrange : ∀ index ∈ sampleGreatest :: sampleSwept, index ∈ List.range 65 :=
      List.forall_mem_cons.mpr ⟨List.mem_range.mpr hlt,
        fun index hmem => List.mem_range.mpr (mem_sampleSwept.mp hmem).1⟩
    exact List.inj_on_of_nodup_map samplePieces_nodup (hrange i hi) (hrange j hj) heq
  · rw [List.map_cons, List.map_singleton, List.sum_cons, List.sum_singleton, hlength]
    decide

/-- Whatever is apart is admitted by a node that has seen the two blocks, and then it is what
the node holds. -/
theorem samplePool_submits {transactions : List Transaction}
    (hapart : Apart samplePlatform sampleSplitNode.state transactions)
    (hfees : ∀ transaction ∈ transactions, ∃ fee,
      KeySpend samplePlatform sampleSplitNode.state transaction fee ∧ 64 ≤ fee)
    (hsizes : (transactions.map (wireHeaderBytes + ·.wireSize)).sum ≤ maxMempoolBytes) :
    ∃ mempool, sampleSplitNode.submitTransactions samplePlatform transactions =
        { sampleSplitNode with mempool } ∧ mempool.transactions.Perm transactions ∧
      mempool.bytes = (transactions.map (wireHeaderBytes + ·.wireSize)).sum := by
  have hpool := sampleSplitNode_run.poolInvariant
  have hnil : sampleSplitNode.mempool.entries.entries = [] :=
    List.eq_nil_of_length_eq_zero sampleSplitNode_facts.1.2.1
  have htransactions : sampleSplitNode.mempool.transactions = [] := by
    rw [transactions_eq, hnil]
    rfl
  have hbytes : sampleSplitNode.mempool.bytes = 0 := by
    rw [hpool.bytes, encodedBytes_eq, hnil]
    rfl
  obtain ⟨_, hchain⟩ := sampleSplitNode_run.chain
  have hall : Apart samplePlatform sampleSplitNode.state
      (transactions ++ sampleSplitNode.mempool.transactions) := by
    rwa [htransactions, List.append_nil]
  have hrelay : ∀ transaction ∈ transactions, ∃ fee,
      Passes samplePlatform sampleSplitNode.state [transaction] fee ∧
        requiredRelayFee (wireHeaderBytes + transaction.wireSize) ≤ fee := by
    intro transaction hmem
    obtain ⟨fee, hspend, hfee⟩ := hfees transaction hmem
    exact ⟨fee, hspend.passes, UInt64.le_trans (requiredRelayFee_le hspend.small) hfee⟩
  obtain ⟨mempool, hsubmit, hperm, hsize⟩ := submitTransactions_spec hchain.registered
    sampleSplitNode rfl hpool hall hrelay (by rwa [hbytes, Nat.zero_add])
  rw [htransactions, List.append_nil] at hperm
  rw [hbytes, Nat.zero_add] at hsize
  exact ⟨mempool, hsubmit, hperm, hsize⟩

theorem sampleCrowdNode_pool : ∃ mempool, sampleCrowdNode = { sampleSplitNode with mempool } ∧
    mempool.transactions.Perm sampleCrowd := by
  have hfees : ∀ transaction ∈ sampleCrowd, ∃ fee,
      KeySpend samplePlatform sampleSplitNode.state transaction fee ∧ 64 ≤ fee := by
    intro transaction hmem
    obtain ⟨index, hlt, rfl⟩ := mem_sampleCrowd.mp hmem
    exact ⟨100, sampleSpend_keySpend hlt, by decide⟩
  have hsize : ∀ index, wireHeaderBytes + (sampleSpend index).wireSize = 242 := by
    intro index
    rw [sampleSpend, sampleTransaction_wireSize]
    rfl
  have hsum : (sampleCrowd.map (wireHeaderBytes + ·.wireSize)).sum = 65 * 242 := by
    rw [sampleCrowd, List.map_map, show (fun transaction : Transaction => wireHeaderBytes +
      transaction.wireSize) ∘ sampleSpend = fun _ => 242 from funext hsize, List.map_const',
      List.sum_replicate_nat, List.length_range]
  obtain ⟨mempool, hsubmit, hperm, -⟩ := samplePool_submits sampleCrowd_apart hfees
    (hsum.trans_le (by decide))
  exact ⟨mempool, hsubmit, hperm⟩

theorem sampleSweepNode_pool : ∃ mempool, sampleSweepNode = { sampleSplitNode with mempool } ∧
    mempool.transactions = [sampleSweep] ∧ mempool.bytes ≤ maxTransactionBytes := by
  have hsum : ([sampleSweep].map (wireHeaderBytes + ·.wireSize)).sum ≤ maxTransactionBytes := by
    rw [List.map_singleton, List.sum_singleton]
    exact sampleSweep_keySpend.small
  have hfees : ∀ transaction ∈ [sampleSweep], ∃ fee,
      KeySpend samplePlatform sampleSplitNode.state transaction fee ∧ 64 ≤ fee :=
    List.forall_mem_singleton.mpr ⟨4000, sampleSweep_keySpend, by decide⟩
  obtain ⟨mempool, hsubmit, hperm, hsize⟩ := samplePool_submits
    (sampleSweep_apart.sublist (List.sublist_cons_self _ _)) hfees (hsum.trans (by decide))
  exact ⟨mempool, hsubmit, List.perm_singleton.mp hperm, hsize.trans_le hsum⟩

/-- The last of increasing values is the greatest. -/
theorem drop_of_greatest {α : Type} [LinearOrder α] {l : List α} {n : Nat} {greatest : α}
    (hsorted : l.Pairwise (· < ·)) (hlength : l.length = n + 1) (hmem : greatest ∈ l)
    (hle : ∀ a ∈ l, a ≤ greatest) : greatest ∈ l.drop n ∧ greatest ∉ l.take n := by
  have hsplit := List.take_append_drop n l
  have hnot : greatest ∉ l.take n := by
    intro htake
    rw [← hsplit] at hsorted
    obtain ⟨a, ha⟩ := List.exists_mem_of_ne_nil (l.drop n)
      (List.ne_nil_of_length_pos (by rw [List.length_drop]; omega))
    have hlt := (List.pairwise_append.mp hsorted).2.2 greatest htake a ha
    exact absurd (hle a (List.mem_of_mem_drop ha)) (not_le.mpr hlt)
  rw [← hsplit] at hmem
  exact ⟨(List.mem_append.mp hmem).resolve_left hnot, hnot⟩

theorem state_of_pool {node node' : Node} {mempool : Mempool} (h : node' = { node with mempool }) :
    node'.state = node.state := by rw [h]

theorem sampleSweepNode_run : NodeRun samplePlatform sampleParams sampleVerifier
    [sampleFirst, sampleSplitBlock] sampleSweepNode :=
  sampleSplitNode_run.submitTransactions _

theorem sampleCrowdNode_run : NodeRun samplePlatform sampleParams sampleVerifier
    [sampleFirst, sampleSplitBlock] sampleCrowdNode :=
  sampleSplitNode_run.submitTransactions _

theorem sampleSweepNode_state : sampleSweepNode.state = sampleCrowdNode.state := by
  obtain ⟨_, hnode, -⟩ := sampleSweepNode_pool
  obtain ⟨_, hremote, -⟩ := sampleCrowdNode_pool
  exact (state_of_pool hnode).trans (state_of_pool hremote).symm

theorem sampleSweepNode_transactions : sampleSweepNode.mempool.transactions = [sampleSweep] := by
  obtain ⟨_, hnode, hpool, -⟩ := sampleSweepNode_pool
  rw [hnode]
  exact hpool

theorem sampleCrowdNode_transactions : sampleCrowdNode.mempool.transactions.Perm sampleCrowd := by
  obtain ⟨_, hnode, hpool⟩ := sampleCrowdNode_pool
  rw [hnode]
  exact hpool

theorem mem_sampleCrowdNode_inventory {txid : Bytes32} :
    txid ∈ sampleCrowdNode.transactionInventory ↔
      ∃ index < 65, (sampleSpend index).txid samplePlatform = txid := by
  rw [sampleCrowdNode_run.poolInvariant.inventory.1, List.mem_map]
  constructor
  · rintro ⟨transaction, hmem, rfl⟩
    obtain ⟨index, hlt, rfl⟩ := mem_sampleCrowd.mp (sampleCrowdNode_transactions.mem_iff.mp hmem)
    exact ⟨index, hlt, rfl⟩
  · rintro ⟨index, hlt, rfl⟩
    exact ⟨_, sampleCrowdNode_transactions.mem_iff.mpr (mem_sampleCrowd.mpr ⟨index, hlt, rfl⟩), rfl⟩

theorem sampleCrowdNode_serves {index : Nat} (hlt : index < 65) :
    sampleCrowdNode.serveTransaction samplePlatform ((sampleSpend index).txid samplePlatform) =
      .ok (sampleSpend index) := by
  obtain ⟨entry, -, htxid, hentry, hserve⟩ := sampleCrowdNode_run.poolInvariant.serves
    (mem_sampleCrowdNode_inventory.mpr ⟨index, hlt, rfl⟩)
  obtain ⟨other, hother, heq⟩ :=
    mem_sampleCrowd.mp (sampleCrowdNode_transactions.mem_iff.mp hentry)
  rw [← heq] at htxid
  rw [hserve, ← heq, sampleSpend_inj hother hlt htxid]

/-- The node lacks all that the peer has. -/
theorem sampleSweepNode_missing : sampleSweepNode.missingTransactions sampleCrowdNode =
    sampleCrowdNode.transactionInventory := by
  refine List.filter_eq_self.mpr fun txid hmem => decide_eq_true ?_
  obtain ⟨index, hlt, rfl⟩ := mem_sampleCrowdNode_inventory.mp hmem
  rw [sampleSweepNode_run.poolInvariant.inventory.1, sampleSweepNode_transactions,
    List.map_singleton, List.mem_singleton]
  exact (sampleSpend_facts.2.1 index hlt).1

/-- What the node holds meets the 64 transactions of the page, and not the one behind it. -/
theorem samplePage_not_fits : ¬sampleSweepNode.PageFits samplePlatform sampleCrowdNode := by
  have hlt : sampleGreatest < 65 := by decide
  have hinventory := sampleCrowdNode_run.poolInvariant.inventory
  have hlength : sampleCrowdNode.transactionInventory.length = maxTransactionsPerSync + 1 := by
    rw [hinventory.1, List.length_map, sampleCrowdNode_transactions.length_eq, sampleCrowd,
      List.length_map, List.length_range]
    rfl
  obtain ⟨hbehind, hpage⟩ := drop_of_greatest hinventory.2 hlength
    (mem_sampleCrowdNode_inventory.mpr ⟨_, hlt, rfl⟩) fun txid hmem => by
      obtain ⟨index, hlt, rfl⟩ := mem_sampleCrowdNode_inventory.mp hmem
      exact (sampleSpend_facts.2.1 index hlt).2
  rw [Node.PageFits, sampleSweepNode_missing]
  rintro (⟨txid, hmem, transaction, hserve, hfits⟩ | hrest)
  · obtain ⟨index, hlt, rfl⟩ := mem_sampleCrowdNode_inventory.mp (List.mem_of_mem_take hmem)
    obtain rfl := Except.ok.inj ((sampleCrowdNode_serves hlt).symm.trans hserve)
    have hother : index ≠ sampleGreatest := by
      rintro rfl
      exact hpage hmem
    refine hfits.unspent (samplePiece index) ?_ (mem_mempoolSpentInputs.mpr ?_)
    · rw [sampleSpend, sampleTransaction_consumed]
      exact List.mem_singleton_self _
    · rw [sampleSweepNode_transactions, references, List.flatMap_singleton, sampleSweep,
        sampleTransaction_consumed]
      exact List.mem_map_of_mem (mem_sampleSwept.mpr ⟨hlt, hother⟩)
  · obtain ⟨pool, hnode, -, hbytes⟩ := sampleSweepNode_pool
    obtain ⟨_, hchain⟩ := sampleSweepNode_run.chain
    have hstate := state_of_pool hnode
    refine hrest _ hbehind ⟨_, sampleCrowdNode_serves hlt,
      sampleSweepNode_run.poolInvariant.fits hchain.registered ?_ ?_⟩
    · rw [sampleSweepNode_transactions, hstate]
      exact sampleSweep_apart
    · have hpool : sampleSweepNode.mempool.bytes ≤ maxTransactionBytes := by
        rw [hnode]
        exact hbytes
      have htwo : maxTransactionBytes + maxTransactionBytes ≤ maxMempoolBytes := by decide
      exact (Nat.add_le_add hpool (sampleSpend_keySpend hlt).small).trans htwo

/-- A poll comes to its end, and no number of polls brings the node the transaction behind the
page. -/
theorem mempool_pull_iff_sample :
    (∃ report node',
      sampleSweepNode.pullMempool samplePlatform sampleCrowdNode = (.ok report, node')) ∧
    ∀ count, Node.polls samplePlatform sampleCrowdNode count sampleSweepNode = sampleSweepNode := by
  obtain ⟨hpull, -, hstays⟩ :=
    mempool_pull_iff sampleSweepNode sampleCrowdNode_run sampleSweepNode_state
  exact ⟨hpull, hstays samplePage_not_fits⟩

/-- A poll admits nothing, and the node would admit the transaction behind the page. -/
theorem mempool_pull_starves :
    NodeRun samplePlatform sampleParams sampleVerifier [sampleFirst, sampleSplitBlock]
        sampleSweepNode ∧
      NodeRun samplePlatform sampleParams sampleVerifier [sampleFirst, sampleSplitBlock]
        sampleCrowdNode ∧
      sampleSweepNode.state = sampleCrowdNode.state ∧
      ¬sampleSweepNode.NeverStarves samplePlatform sampleCrowdNode := by
  refine ⟨sampleSweepNode_run, sampleCrowdNode_run, sampleSweepNode_state, ?_⟩
  rw [neverStarves_iff sampleCrowdNode_run.poolInvariant sampleSweepNode_state]
  exact samplePage_not_fits

end CommonFoundry
