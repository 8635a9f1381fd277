/-
# `CommonFoundry.Node.Admission` — which transactions a pool takes

A transaction is admitted if it passes by itself, pays its fee, and fits the pool
(`admits_iff`).  What one pool holds has passed by itself and paid already, so that another
pool at the same state takes it exactly if it fits there (`Pooled.admits_iff`).

Transactions that are apart from each other and from a pool can all be submitted to it, one
after the other (`submitTransactions_spec`).
-/
import CommonFoundry.Consensus.KeySpend
import CommonFoundry.Node.MempoolInvariant

namespace CommonFoundry

open Lib Lib.Outcome Lib.Ledger

variable {P : Platform} {node : Node}

/-- `submit_transaction` takes the transaction. -/
def Node.Admits (P : Platform) (node : Node) (transaction : Transaction) : Prop :=
  ∃ entry node', node.submitTransaction P transaction = (.ok entry, node')

/-- There is room for a transaction in the pool, none of its inputs is spent there, and the
pool passes with it in its place. -/
structure Mempool.Fits (P : Platform) (state : ChainState) (pool : Mempool)
    (transaction : Transaction) : Prop where
  new : ¬pool.entries.contains (transaction.txid P) = true
  count : pool.entries.length < maxMempoolTransactions
  bytes : ∀ canonical, encodeTransaction P transaction = .ok canonical →
    pool.bytes + canonical.length ≤ maxMempoolBytes
  unspent : ∀ outpoint ∈ transaction.consumed, outpoint ∉ mempoolSpentInputs pool.entries
  together : ∃ fees, Passes P state
    (orderedTransactions (transaction.txid P) transaction pool.entries.entries) fees

theorem admits_iff {transaction : Transaction} :
    node.Admits P transaction ↔
      ∃ canonical fee, encodeTransaction P transaction = .ok canonical ∧
        (∀ outpoint ∈ transaction.consumed, ∃ output,
          node.state.utxos.get outpoint = some output) ∧
        Passes P node.state [transaction] fee ∧ requiredRelayFee canonical.length ≤ fee ∧
        node.mempool.Fits P node.state transaction := by
  have hsubmit : node.Admits P transaction ↔
      ∃ result, node.mempool.submit P node.state transaction = .ok result := by
    rw [Node.Admits, Node.submitTransaction]
    constructor
    · rintro ⟨entry, node', h⟩
      split at h
      · next entry' mempool hok => exact ⟨_, hok⟩
      · cases h
    · rintro ⟨result, hok⟩
      rw [hok]
      exact ⟨_, _, rfl⟩
  rw [hsubmit]
  simp only [Mempool.submit, bind_eq_ok, mapErr_eq_ok, require_eq_ok, pure_eq_ok,
    validateMempoolTransaction_eq_ok]
  constructor
  · rintro ⟨_, canonical, hencode, _, hnew, _, hcount, _, hbytes, fee, ⟨hinputs, hpasses, hrelay⟩,
      validation, hvalid, -⟩
    refine ⟨canonical, fee, hencode, fun outpoint hmem => (hinputs outpoint hmem).1, hpasses,
      hrelay, hnew, Nat.lt_of_not_ge hcount, fun canonical' hencode' => ?_,
      fun outpoint hmem => (hinputs outpoint hmem).2, _, validation, hvalid, rfl⟩
    obtain rfl := Except.ok.inj (hencode.symm.trans hencode')
    exact Nat.not_lt.mp hbytes
  · rintro ⟨canonical, fee, hencode, hpresent, hpasses, hrelay, hfits⟩
    obtain ⟨fees, validation, hvalid, -⟩ := hfits.together
    exact ⟨_, canonical, hencode, (), hfits.new, (), Nat.not_le.mpr hfits.count, (),
      Nat.not_lt.mpr (hfits.bytes canonical hencode), fee,
      ⟨fun outpoint hmem => ⟨hpresent outpoint hmem, hfits.unspent outpoint hmem⟩, hpasses, hrelay⟩,
      validation, hvalid, rfl⟩

/-- What one pool holds at a state, another takes at that state if there is room for it. -/
theorem Pooled.admits_iff {key : Bytes32} {entry : MempoolEntry}
    (h : Pooled P node.state key entry) :
    node.Admits P entry.transaction ↔ node.mempool.Fits P node.state entry.transaction := by
  rw [CommonFoundry.admits_iff]
  constructor
  · rintro ⟨_, _, _, _, _, _, hfits⟩
    exact hfits
  · intro hfits
    obtain ⟨canonical, hencode, hsize⟩ := h.entered.size
    exact ⟨canonical, entry.feeBurned, hencode, h.present, h.passes, hsize ▸ h.relay, hfits⟩

/-- What the pool spends is what its transactions consume. -/
theorem mem_mempoolSpentInputs {pool : Mempool} {outpoint : OutPoint} :
    outpoint ∈ mempoolSpentInputs pool.entries ↔ outpoint ∈ references pool.transactions := by
  rw [mempoolSpentInputs, List.mem_toFinset, references, Mempool.transactions, List.flatMap_map]
  rfl

/-- A transaction that is apart from those of the pool fits. -/
theorem PoolInvariant.fits {state : ChainState} {pool : Mempool} {transaction : Transaction}
    (h : PoolInvariant P state pool) (hregistered : Registered TxOutput.channel state.utxos.ledger)
    (hapart : Apart P state (transaction :: pool.transactions))
    (hbytes : pool.bytes + (wireHeaderBytes + transaction.wireSize) ≤ maxMempoolBytes) :
    pool.Fits P state transaction := by
  have hkeys : ∀ item ∈ pool.entries.entries, item.1 ≠ transaction.txid P := by
    intro item hitem heq
    refine (List.nodup_cons.mp hapart.ids).1 (List.mem_map.mpr ⟨item.2.transaction, ?_, ?_⟩)
    · rw [transactions_eq]
      exact List.mem_map_of_mem hitem
    · rw [← (h.pooled item hitem).entered.key, heq]
  constructor
  · exact KeyMap.not_contains_iff.mpr hkeys
  · have hcount := hapart.limits.count
    rw [List.length_cons, transactions_eq, List.length_map] at hcount
    exact hcount
  · intro canonical hencode
    rw [encodeTransaction_length hencode]
    exact hbytes
  · intro outpoint hconsumed hspent
    have hnodup := hapart.inputs
    rw [references_cons] at hnodup
    exact List.disjoint_of_nodup_append hnodup hconsumed (mem_mempoolSpentInputs.mp hspent)
  · let entry : MempoolEntry :=
      { txid := transaction.txid P, transaction, encodedBytes := 0, feeBurned := 0 }
    have hordered : orderedTransactions (transaction.txid P) entry.transaction
        pool.entries.entries = (KeyMap.insertEntry (transaction.txid P) entry
          pool.entries.entries).map (·.2.transaction) := orderedTransactions_eq hkeys
    have hperm : (KeyMap.insertEntry (transaction.txid P) entry pool.entries.entries).Perm
        ((transaction.txid P, entry) :: pool.entries.entries) := KeyMap.insertEntry_perm hkeys
    have hall := hperm.map (·.2.transaction)
    rw [← hordered, List.map_cons, ← transactions_eq] at hall
    exact (hapart.perm hall.symm).passes hregistered

/-- What an admitted transaction changes. -/
theorem Node.Admits.adds {transaction : Transaction} (h : node.Admits P transaction) :
    ∃ mempool, (node.submitTransaction P transaction).2 = { node with mempool } ∧
      (PoolInvariant P node.state node.mempool → PoolInvariant P node.state mempool) ∧
      mempool.transactions.Perm (transaction :: node.mempool.transactions) ∧
      mempool.bytes = node.mempool.bytes + (wireHeaderBytes + transaction.wireSize) := by
  obtain ⟨entry, node', h⟩ := h
  rw [h]
  rw [Node.submitTransaction] at h
  split at h
  · next entry' mempool hsubmit =>
      obtain ⟨-, rfl⟩ := Prod.mk.inj h
      refine ⟨mempool, rfl, fun hpool => hpool.submit hsubmit, ?_⟩
      simp only [Mempool.submit, bind_eq_ok, mapErr_eq_ok, require_eq_ok, pure_eq_ok,
        Prod.mk.injEq] at hsubmit
      obtain ⟨canonical, hencode, _, hnew, _, _, _, _, fee, _, _, _, rfl, rfl⟩ := hsubmit
      have hperm := (KeyMap.insertEntry_perm (KeyMap.not_contains_iff.mp hnew) :
        (KeyMap.insertEntry (transaction.txid P) (MempoolEntry.mk (transaction.txid P) transaction
          canonical.length fee) node.mempool.entries.entries).Perm _)
      constructor
      · rw [transactions_eq, transactions_eq]
        exact hperm.map (·.2.transaction)
      · rw [← encodeTransaction_length hencode]
  · cases h

/-! ## One after the other -/

/-- A transaction of at most 64 kibibytes need not burn more than 64. -/
theorem requiredRelayFee_le {encodedBytes : Nat} (h : encodedBytes ≤ maxTransactionBytes) :
    requiredRelayFee encodedBytes ≤ 64 := by
  have hmax : maxTransactionBytes = 65536 := rfl
  obtain ⟨kib, hkib, hle⟩ : ∃ kib, min (encodedBytes + 1023) (2 ^ 64 - 1) / 1024 = kib ∧ kib ≤ 64 :=
    ⟨_, rfl, by omega⟩
  have hlt : kib < 2 ^ 64 := by omega
  have hrate : minRelayFeePerKib.toNat = 1 := rfl
  have hword : (UInt64.ofNat kib).toNat = kib := UInt64.toNat_ofNat_of_lt' hlt
  rw [requiredRelayFee, hkib]
  simp only [tryWord64, if_pos hlt, Option.bind_some, hrate, hword, Nat.mul_one, Option.getD_some]
  show (if UInt64.ofNat kib ≤ minRelayFeePerKib then minRelayFeePerKib else UInt64.ofNat kib) ≤ 64
  split
  · decide
  · rw [UInt64.le_iff_toNat_le, hword]
    exact hle

/-- Transactions submitted one after the other. -/
def Node.submitTransactions (P : Platform) : List Transaction → Node → Node
  | [], node => node
  | transaction :: rest, node =>
      Node.submitTransactions P rest (node.submitTransaction P transaction).2

theorem NodeRun.submitTransactions {params : NetworkParams} {verifier : ConsensusPowVerifier}
    {accepted : List Acceptance} (transactions : List Transaction) :
    ∀ {node : Node}, NodeRun P params verifier accepted node →
      NodeRun P params verifier accepted (node.submitTransactions P transactions) := by
  induction transactions with
  | nil => exact fun h => h
  | cons transaction rest ih =>
      intro node h
      exact ih (h.transaction Prod.mk.eta.symm)

/-- Transactions apart from each other and from the pool are all admitted. -/
theorem submitTransactions_spec {state : ChainState} {transactions : List Transaction}
    (hregistered : Registered TxOutput.channel state.utxos.ledger) :
    ∀ node : Node, node.state = state → PoolInvariant P state node.mempool →
      Apart P state (transactions ++ node.mempool.transactions) →
      (∀ transaction ∈ transactions, ∃ fee, Passes P state [transaction] fee ∧
        requiredRelayFee (wireHeaderBytes + transaction.wireSize) ≤ fee) →
      node.mempool.bytes + (transactions.map (wireHeaderBytes + ·.wireSize)).sum ≤
        maxMempoolBytes →
      ∃ mempool, node.submitTransactions P transactions = { node with mempool } ∧
        mempool.transactions.Perm (transactions ++ node.mempool.transactions) ∧
        mempool.bytes =
          node.mempool.bytes + (transactions.map (wireHeaderBytes + ·.wireSize)).sum := by
  induction transactions with
  | nil => exact fun _ _ _ _ _ _ => ⟨_, rfl, .refl _, rfl⟩
  | cons transaction rest ih =>
      rintro node rfl hpool hapart hrelay hbytes
      obtain ⟨⟨fee, hpasses, hfee⟩, hrelay⟩ := List.forall_mem_cons.mp hrelay
      rw [List.map_cons, List.sum_cons] at hbytes
      have hfirst : Apart P node.state (transaction :: node.mempool.transactions) :=
        hapart.sublist ((List.sublist_append_right _ _).cons_cons _)
      have hfits := hpool.fits hregistered hfirst (by omega)
      obtain ⟨-, -, ⟨canonical, hencode⟩, applied, happlied, -⟩ := passes_singleton.mp hpasses
      have hadmits : node.Admits P transaction := admits_iff.mpr ⟨canonical, fee, hencode,
        (applyTransaction_inPlace happlied).step.present, hpasses,
        encodeTransaction_length hencode ▸ hfee, hfits⟩
      obtain ⟨mempool, hnext, hkeeps, hperm, hsize⟩ := hadmits.adds
      have hlater : (rest ++ mempool.transactions).Perm
          ((transaction :: rest) ++ node.mempool.transactions) :=
        (hperm.append_left rest).trans List.perm_middle
      obtain ⟨final, hfinal, hall, htotal⟩ := ih { node with mempool } rfl (hkeeps hpool)
        (hapart.perm hlater.symm) hrelay (by
          show mempool.bytes + _ ≤ _
          omega)
      refine ⟨final, ?_, hall.trans hlater, ?_⟩
      · rw [Node.submitTransactions, hnext, hfinal]
      · rw [htotal, List.map_cons, List.sum_cons, ← Nat.add_assoc, ← hsize]

end CommonFoundry
