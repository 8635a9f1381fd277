/-
# `CommonFoundry.Node.MempoolInvariant` — what the pool of a node always is

The pool is changed in two places.  `submit_transaction` puts one transaction into
it, at the state it was made for; `revalidate_mempool` builds it anew at the state
of a new tip, out of what it was.  What the second needs of the old pool is only
what does not depend on a state (`Entered`), so nothing has to be known about how
far apart the two states are, and a reorganisation is like any other block.

`mempool_invariant` puts the two together over a run of a node.
-/
import CommonFoundry.Consensus.Preflight
import CommonFoundry.Node.NodeRun

namespace CommonFoundry

open Lib Lib.Outcome Lib.Ledger

variable {P : Platform} {state : ChainState}

/-- The transactions of the pool, in the order of their identifiers. -/
def Mempool.transactions (pool : Mempool) : List Transaction :=
  pool.entries.values.map (·.transaction)

/-- What an entry says of its transaction, whatever the state. -/
structure Entered (P : Platform) (key : Bytes32) (entry : MempoolEntry) : Prop where
  txid : entry.txid = key
  key : key = entry.transaction.txid P
  size : ∃ canonical, encodeTransaction P entry.transaction = .ok canonical ∧
    entry.encodedBytes = canonical.length

/-- What it says at a state: the inputs are unspent outputs, the transaction passes
by itself, and the recorded fee is what it burns. -/
structure Pooled (P : Platform) (state : ChainState) (key : Bytes32) (entry : MempoolEntry) :
    Prop where
  entered : Entered P key entry
  present : ∀ outpoint ∈ entry.transaction.consumed, ∃ output,
    state.utxos.get outpoint = some output
  passes : Passes P state [entry.transaction] entry.feeBurned
  burned : held outputValue state.utxos.outputs entry.transaction.consumed =
    valueOf entry.transaction.outputs + entry.feeBurned.toNat
  relay : requiredRelayFee entry.encodedBytes ≤ entry.feeBurned

structure PoolInvariant (P : Platform) (state : ChainState) (pool : Mempool) : Prop where
  pooled : ∀ item ∈ pool.entries.entries, Pooled P state item.1 item.2
  bytes : pool.bytes = (pool.entries.values.map (·.encodedBytes)).sum
  bytes_le : pool.bytes ≤ maxMempoolBytes
  count_le : pool.entries.length ≤ maxMempoolTransactions
  disjoint : (references pool.transactions).Nodup
  passes : ∃ fees, Passes P state pool.transactions fees

/-! ## What passes -/

/-- No outpoint is spent twice by transactions that pass together. -/
theorem Passes.nodup {transactions : List Transaction} {fees : UInt64}
    (h : Passes P state transactions fees) : (references transactions).Nodup := by
  obtain ⟨-, -, -, applied, happlied, -⟩ := passes_iff.mp h
  exact (applyTransactions_inPlace happlied).nodup

/-- The fee of a transaction that passes by itself is what its outputs leave. -/
theorem Passes.burned {transaction : Transaction} {fees : UInt64}
    (h : Passes P state [transaction] fees) :
    held outputValue state.utxos.outputs transaction.consumed =
      valueOf transaction.outputs + fees.toNat := by
  obtain ⟨-, -, -, applied, happlied, rfl⟩ := passes_singleton.mp h
  exact (applyTransaction_inPlace happlied).fee

theorem validateMempoolTransaction_eq_ok {transaction : Transaction} {encodedBytes : Nat}
    {spends : Finset OutPoint} {fee : UInt64} :
    validateMempoolTransaction P state transaction encodedBytes spends = .ok fee ↔
      (∀ outpoint ∈ transaction.consumed,
        (∃ output, state.utxos.get outpoint = some output) ∧ outpoint ∉ spends) ∧
      Passes P state [transaction] fee ∧ requiredRelayFee encodedBytes ≤ fee := by
  simp only [validateMempoolTransaction, bind_eq_ok, forM_eq_ok_iff, mapErr_eq_ok, require_eq_ok,
    pure_eq_ok, checkMempoolInput, okOr_eq_ok, UInt64.not_lt, Transaction.consumed,
    List.forall_mem_map, Passes]
  constructor
  · rintro ⟨_, hinputs, validation, hvalid, _, hfee, rfl⟩
    refine ⟨?_, ⟨validation, hvalid, rfl⟩, hfee⟩
    intro input hmem
    obtain ⟨output, hget, hunspent⟩ := hinputs input hmem
    exact ⟨⟨output, hget⟩, hunspent⟩
  · rintro ⟨hinputs, ⟨validation, hvalid, rfl⟩, hfee⟩
    refine ⟨(), ?_, validation, hvalid, (), hfee, rfl⟩
    intro input hmem
    obtain ⟨⟨output, hget⟩, hunspent⟩ := hinputs input hmem
    exact ⟨output, hget, hunspent⟩

/-! ## Admission -/

/-- The list that is tried is the pool with the new transaction in its place. -/
theorem orderedTransactions_eq {txid : Bytes32} {entry : MempoolEntry}
    {items : List (Bytes32 × MempoolEntry)} (hnew : ∀ item ∈ items, item.1 ≠ txid) :
    orderedTransactions txid entry.transaction items =
      (KeyMap.insertEntry txid entry items).map (·.2.transaction) := by
  induction items with
  | nil => rfl
  | cons item rest ih =>
      obtain ⟨hitem, hrest⟩ := List.forall_mem_cons.mp hnew
      rw [orderedTransactions, KeyMap.insertEntry]
      split
      · rfl
      · rw [if_neg (Ne.symm hitem), List.map_cons, ih hrest]

theorem transactions_eq (pool : Mempool) :
    pool.transactions = pool.entries.entries.map (·.2.transaction) := by
  rw [Mempool.transactions, KeyMap.values, List.map_map]
  rfl

theorem encodedBytes_eq (pool : Mempool) :
    pool.entries.values.map (·.encodedBytes) = pool.entries.entries.map (·.2.encodedBytes) := by
  rw [KeyMap.values, List.map_map]
  rfl

theorem PoolInvariant.submit {pool pool' : Mempool} {transaction : Transaction}
    {entry : MempoolEntry} (h : PoolInvariant P state pool)
    (hsubmit : pool.submit P state transaction = .ok (entry, pool')) :
    PoolInvariant P state pool' := by
  simp only [Mempool.submit, bind_eq_ok, mapErr_eq_ok, require_eq_ok, pure_eq_ok,
    validateMempoolTransaction_eq_ok, Prod.mk.injEq] at hsubmit
  obtain ⟨canonical, hencode, _, hnew, _, hcount, _, hbytes, fee, ⟨hinputs, hpasses, hrelay⟩,
    validation, hvalid, rfl, rfl⟩ := hsubmit
  have hkeys := KeyMap.not_contains_iff.mp hnew
  generalize hentry : MempoolEntry.mk (transaction.txid P) transaction canonical.length fee = entry
    at *
  have htransaction : entry.transaction = transaction := by rw [← hentry]
  have hsize : entry.encodedBytes = canonical.length := by rw [← hentry]
  have hperm : (KeyMap.insertEntry (transaction.txid P) entry pool.entries.entries).Perm
      ((transaction.txid P, entry) :: pool.entries.entries) := KeyMap.insertEntry_perm hkeys
  have hall : ∃ fees, Passes P state ((KeyMap.insertEntry (transaction.txid P) entry
      pool.entries.entries).map (·.2.transaction)) fees := by
    rw [← orderedTransactions_eq hkeys, htransaction]
    exact ⟨_, validation, hvalid, rfl⟩
  constructor
  · intro item hmem
    rcases KeyMap.mem_insertEntry hmem with rfl | hmem
    · rw [← hentry]
      exact ⟨⟨rfl, rfl, canonical, hencode, rfl⟩, fun outpoint hmem => (hinputs outpoint hmem).1,
        hpasses, hpasses.burned, hrelay⟩
    · exact h.pooled item hmem
  · rw [encodedBytes_eq]
    have hsum := (hperm.map (·.2.encodedBytes)).sum_nat
    rw [List.map_cons, List.sum_cons, ← encodedBytes_eq, ← h.bytes, hsize, Nat.add_comm] at hsum
    exact hsum.symm
  · exact Nat.not_lt.mp hbytes
  · have hlength := hperm.length_eq
    rw [List.length_cons] at hlength
    show (KeyMap.insertEntry _ _ _).length ≤ _
    rw [hlength]
    exact Nat.lt_of_not_ge hcount
  · rw [transactions_eq]
    exact hall.choose_spec.nodup
  · rw [transactions_eq]
    exact hall

/-! ## Revalidation -/

/-- An entry under its key, without its fee: what revalidation does not change. -/
def unpriced (item : Bytes32 × MempoolEntry) : Bytes32 × Transaction × Nat :=
  (item.1, item.2.transaction, item.2.encodedBytes)

/-- What the loop has kept of the entries it has seen. -/
structure Keeps (P : Platform) (state : ChainState) (seen : List (Bytes32 × MempoolEntry))
    (retained : Retained) : Prop where
  pooled : ∀ item ∈ retained.mempool.entries.entries, Pooled P state item.1 item.2
  bytes : retained.mempool.bytes = (retained.mempool.entries.values.map (·.encodedBytes)).sum
  kept : (retained.mempool.entries.entries.map unpriced).Sublist (seen.map unpriced)
  transactions : retained.transactions = retained.mempool.transactions
  spends : retained.spends = (references retained.transactions).toFinset
  passes : ∃ fees, Passes P state retained.transactions fees

theorem Keeps.skip {seen : List (Bytes32 × MempoolEntry)} {retained : Retained}
    (h : Keeps P state seen retained) (item : Bytes32 × MempoolEntry) :
    Keeps P state (seen ++ [item]) retained := by
  refine ⟨h.pooled, h.bytes, ?_, h.transactions, h.spends, h.passes⟩
  rw [List.map_append]
  exact h.kept.trans (List.sublist_append_left _ _)

/-- The keys seen so far are smaller, so an entry that stays goes to the end. -/
theorem Keeps.insert_eq {seen : List (Bytes32 × MempoolEntry)} {retained : Retained}
    (h : Keeps P state seen retained) {txid : Bytes32} (hlast : ∀ item ∈ seen, item.1 < txid)
    (entry : MempoolEntry) :
    (retained.mempool.entries.insert txid entry).entries =
      retained.mempool.entries.entries ++ [(txid, entry)] := by
  refine KeyMap.insertEntry_last fun item hmem => ?_
  obtain ⟨other, hother, heq⟩ :=
    List.mem_map.mp (h.kept.subset (List.mem_map_of_mem hmem))
  rw [← (Prod.mk.inj heq).1]
  exact hlast other hother

/-- One turn of the loop. -/
theorem Keeps.retain {seen : List (Bytes32 × MempoolEntry)} {retained : Retained}
    (h : Keeps P state seen retained) {txid : Bytes32} {entry : MempoolEntry}
    (hentered : Entered P txid entry) (hlast : ∀ item ∈ seen, item.1 < txid)
    (confirmedTxids : Finset Bytes32) :
    Keeps P state (seen ++ [(txid, entry)])
      (retainEntry P state confirmedTxids retained (txid, entry)) := by
  simp only [retainEntry]
  split
  · exact h.skip _
  split
  · exact h.skip _
  · next fee hfee =>
      split
      · exact h.skip _
      · next validation hvalid =>
          obtain ⟨hinputs, hpasses, hrelay⟩ := validateMempoolTransaction_eq_ok.mp hfee
          have hinsert := h.insert_eq hlast { entry with feeBurned := fee }
          have htransactions : retained.transactions ++ [entry.transaction] =
              (retained.mempool.entries.insert txid
                { entry with feeBurned := fee }).entries.map (·.2.transaction) := by
            rw [hinsert, List.map_append, h.transactions, transactions_eq]
            rfl
          refine ⟨?_, ?_, ?_, ?_, ?_, _, validation, hvalid, rfl⟩
          · intro item hmem
            rw [hinsert] at hmem
            rcases List.mem_append.mp hmem with hmem | hmem
            · exact h.pooled item hmem
            · obtain rfl := List.mem_singleton.mp hmem
              exact ⟨⟨hentered.txid, hentered.key, hentered.size⟩,
                fun outpoint hmem => (hinputs outpoint hmem).1, hpasses, hpasses.burned, hrelay⟩
          · rw [encodedBytes_eq, hinsert, List.map_append, List.sum_append, ← encodedBytes_eq,
              ← h.bytes]
            rfl
          · rw [hinsert, List.map_append, List.map_append]
            exact h.kept.append (List.Sublist.refl _)
          · rw [transactions_eq]
            exact htransactions
          · rw [h.spends, references, references, List.flatMap_append, List.toFinset_append,
              List.flatMap_singleton]
            rfl

/-- The loop, from what it has kept of the entries before. -/
theorem Keeps.loop {confirmedTxids : Finset Bytes32} {items : List (Bytes32 × MempoolEntry)} :
    ∀ {seen : List (Bytes32 × MempoolEntry)} {retained : Retained},
      (seen ++ items).Pairwise (fun a b => a.1 < b.1) →
      (∀ item ∈ items, Entered P item.1 item.2) → Keeps P state seen retained →
      Keeps P state (seen ++ items)
        (items.foldl (retainEntry P state confirmedTxids) retained) := by
  induction items with
  | nil =>
      intro seen retained _ _ hkeeps
      rwa [List.append_nil]
  | cons item rest ih =>
      intro seen retained hsorted hitems hkeeps
      have hlast : ∀ earlier ∈ seen, earlier.1 < item.1 := by
        intro earlier hmem
        exact (List.pairwise_append.mp hsorted).2.2 earlier hmem item List.mem_cons_self
      rw [List.append_cons] at hsorted ⊢
      obtain ⟨hitem, hrest⟩ := List.forall_mem_cons.mp hitems
      exact ih hsorted hrest (hkeeps.retain hitem hlast confirmedTxids)

theorem keeps_nil (state : ChainState) :
    Keeps P state [] { mempool := .empty, transactions := [], spends := ∅ } :=
  ⟨fun _ hmem => (by cases hmem), rfl, .slnil, rfl, rfl, 0, passes_nil state⟩

/-- The pool that a new tip leaves. -/
theorem revalidate_invariant {pool : Mempool}
    (hentered : ∀ item ∈ pool.entries.entries, Entered P item.1 item.2)
    (hbytes : (pool.entries.values.map (·.encodedBytes)).sum ≤ maxMempoolBytes)
    (hcount : pool.entries.length ≤ maxMempoolTransactions) (confirmedTxids : Finset Bytes32) :
    PoolInvariant P state (pool.revalidate P state confirmedTxids) := by
  have hkeeps : Keeps P state pool.entries.entries
      (pool.entries.entries.foldl (retainEntry P state confirmedTxids) _) :=
    @Keeps.loop P state confirmedTxids _ [] _ pool.entries.sorted hentered (keeps_nil state)
  obtain ⟨fees, hpasses⟩ := hkeeps.passes
  rw [hkeeps.transactions] at hpasses
  have hlength := hkeeps.kept.length_le
  rw [List.length_map, List.length_map] at hlength
  refine ⟨hkeeps.pooled, hkeeps.bytes, ?_, hlength.trans hcount, hpasses.nodup, fees, hpasses⟩
  have hsum := (hkeeps.kept.map fun item => item.2.2).sum_le_sum (fun _ _ => Nat.zero_le _)
  rw [List.map_map, List.map_map] at hsum
  refine le_trans ?_ hbytes
  rw [encodedBytes_eq pool, show (pool.revalidate P state confirmedTxids).bytes = _ from
    hkeeps.bytes, encodedBytes_eq]
  exact hsum

/-! ## A run of a node -/

section

variable {params : NetworkParams} {verifier : ConsensusPowVerifier} {accepted : List Acceptance}
  {node node' : Node}

/-- An accepted block that leaves the tip where it is leaves the state as it is: the
identifier of a new block is not that of the tip. -/
theorem Node.Accepts.state_of_tip (h : node.Consistent P params verifier accepted)
    {a : Acceptance} {prepared : PreparedBlock} {record : List UInt8} {fees : UInt64}
    (haccepts : node.Accepts P params verifier accepted a prepared record fees node')
    (htip : node'.state.tip = node.state.tip) : node'.state = node.state := by
  obtain ⟨_, canonical, hencode, hprepare, _⟩ := stageBlock_eq_ok.mp haccepts.staged
  rw [h.constant.1, h.constant.2] at hprepare
  obtain ⟨branch, base, validated, hp⟩ := prepareBlock_prepared h.follows hencode hprepare
  have hcommit := haccepts.committed.symm.trans (hp.commit h.follows)
  rw [Committed.mk.injEq] at hcommit
  obtain ⟨-, hstate, -⟩ := hcommit
  split at hstate
  · refine absurd ?_ hp.fresh
    have hnext : node'.state.tip = a.id P := by
      rw [hstate]
      exact (validateBlock_validated hp.valid).nextTip
    rw [← hnext, htip]
    exact h.follows.best.mem
  · exact hstate

theorem PoolInvariant.accepts (h : node.Consistent P params verifier accepted)
    (hpool : PoolInvariant P node.state node.mempool) {a : Acceptance} {prepared : PreparedBlock}
    {record : List UInt8} {fees : UInt64}
    (haccepts : node.Accepts P params verifier accepted a prepared record fees node') :
    PoolInvariant P node'.state node'.mempool := by
  have hmempool : node'.mempool = if node'.state.tip ≠ node.state.tip then
      node.mempool.revalidate P node'.state (a.block.transactions.map (·.txid P)).toFinset
    else node.mempool := by
    conv_lhs => rw [haccepts.unchanged]
  rw [hmempool]
  split
  · refine revalidate_invariant (fun item hmem => (hpool.pooled item hmem).entered) ?_
      hpool.count_le _
    rw [← hpool.bytes]
    exact hpool.bytes_le
  · next htip =>
      rw [haccepts.state_of_tip h (not_not.mp htip)]
      exact hpool

theorem NodeRun.poolInvariant (h : NodeRun P params verifier accepted node) :
    PoolInvariant P node.state node.mempool := by
  induction h with
  | opened hopen =>
      obtain ⟨state, hnew, rfl⟩ := open_empty_eq_ok.mp hopen
      exact ⟨fun _ hmem => (by cases hmem), rfl, Nat.zero_le _, Nat.zero_le _, List.nodup_nil, 0,
        passes_nil state⟩
  | accepted hrun hsubmit ih =>
      obtain ⟨_, _, haccepts⟩ := submitBlock_accepted (a := ⟨_, _⟩) hrun.consistent hsubmit
      exact ih.accepts hrun.consistent haccepts
  | refused hrun hsubmit ih =>
      rcases submitBlock_refused (a := ⟨_, _⟩) hrun.consistent hsubmit with rfl | ⟨tail, rfl⟩
      · exact ih
      · exact ih
  | transaction hrun hsubmit ih =>
      rw [Node.submitTransaction] at hsubmit
      split at hsubmit
      · next entry mempool hadmit =>
          obtain ⟨-, rfl⟩ := Prod.mk.inj hsubmit
          exact ih.submit hadmit
      · obtain ⟨-, rfl⟩ := Prod.mk.inj hsubmit
        exact ih

/-- The pool invariant holds after any sequence of calls, and a transaction that is
not admitted changes nothing. -/
theorem mempool_invariant (h : NodeRun P params verifier accepted node) :
    PoolInvariant P node.state node.mempool ∧
      ∀ transaction fault node',
        node.submitTransaction P transaction = (.error fault, node') → node' = node := by
  refine ⟨h.poolInvariant, ?_⟩
  intro transaction fault node' hsubmit
  exact submitTransaction_fails hsubmit

end

/-! ## A pool of the sample network -/

def sampleNode₁ : Node := (sampleSubmit sampleNode₀ [sampleFirst]).getD sampleNode₀

theorem sampleNode₁_run :
    NodeRun samplePlatform sampleParams sampleVerifier [sampleFirst] sampleNode₁ := by
  have hsome : (sampleSubmit sampleNode₀ [sampleFirst]).isSome := by decide +kernel
  exact sampleSubmit_getD_run sampleNode₀_run hsome

/-- The first sample block is accepted, and then the funding transaction is. -/
def samplePool : Node := (sampleNode₁.submitTransaction samplePlatform sampleFunding).2

theorem samplePool_run :
    NodeRun samplePlatform sampleParams sampleVerifier [sampleFirst] samplePool :=
  sampleNode₁_run.transaction Prod.mk.eta.symm

theorem mempool_invariant_sample :
    PoolInvariant samplePlatform samplePool.state samplePool.mempool ∧
      samplePool.mempool.transactions = [sampleFunding] :=
  ⟨(mempool_invariant samplePool_run).1, by decide +kernel⟩

end CommonFoundry
