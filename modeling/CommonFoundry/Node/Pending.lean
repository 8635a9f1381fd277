/-
# `CommonFoundry.Node.Pending` — what a block on the tip does to the pool

A block that has nothing to do with a pending transaction leaves an ordinary one in
the pool, with the same fee: it passes at the new tip by itself
(`Untouched.of_block`), and together with whatever the loop of `revalidate_mempool`
has kept before it, because the old pool was valid as a whole.

A pending settlement or refund leaves the pool with the next block, whatever that
block is: its outputs name the height it was made for.
-/
import CommonFoundry.Consensus.Unrelated
import CommonFoundry.Node.Extend
import CommonFoundry.Node.MempoolInvariant

namespace CommonFoundry

open Lib Lib.Outcome Lib.Ledger

variable {P : Platform} {state state' : ChainState} {pool : Mempool}

/-! ## One entry of a pool, and those before it -/

/-- The transactions of a pool have nothing to do with each other. -/
theorem PoolInvariant.unrelated (h : PoolInvariant P state pool)
    (hregistered : Registered TxOutput.channel state.utxos.ledger)
    {seen rest : List (Bytes32 × MempoolEntry)} {item : Bytes32 × MempoolEntry}
    (hsplit : pool.entries.entries = seen ++ item :: rest) :
    ∀ earlier ∈ seen, item.2.transaction.Unrelated P earlier.2.transaction := by
  intro earlier hmem
  have htransactions : pool.transactions = seen.map (·.2.transaction) ++
      item.2.transaction :: rest.map (·.2.transaction) := by
    rw [transactions_eq, hsplit, List.map_append, List.map_cons]
  have hearlier : earlier.2.transaction ∈ seen.map (·.2.transaction) :=
    List.mem_map.mpr ⟨earlier, hmem, rfl⟩
  constructor
  · -- keys increase along the pool
    have hsorted := pool.entries.sorted
    rw [hsplit] at hsorted
    have hlt := (List.pairwise_append.mp hsorted).2.2 earlier hmem item List.mem_cons_self
    have hpooled : ∀ other ∈ seen ++ item :: rest, other.1 = other.2.transaction.txid P :=
      fun other hother => (h.pooled other (hsplit ▸ hother)).entered.key
    rw [← hpooled earlier (List.mem_append_left _ hmem),
      ← hpooled item (List.mem_append_right _ List.mem_cons_self)]
    exact ne_of_lt hlt
  · intro outpoint hconsumed hother
    have hnodup := h.disjoint
    rw [htransactions, references, List.flatMap_append, List.flatMap_cons] at hnodup
    exact List.disjoint_of_nodup_append hnodup
      (List.mem_flatMap.mpr ⟨_, hearlier, hother⟩) (List.mem_append_left _ hconsumed)
  · intro channelId hfunded hother
    obtain ⟨fees, hpasses⟩ := h.passes
    obtain ⟨-, -, -, applied, happlied, -⟩ := passes_iff.mp hpasses
    have hnodup := ((applyTransactions_inPlace happlied).run.opens_fresh hregistered).1
    have hopens : ∀ transactions : List Transaction,
        (transactions.map (·.entry P)).flatMap (Entry.opens TxOutput.channel) =
          transactions.flatMap Transaction.funded := by
      intro transactions
      rw [List.flatMap_map]
      exact List.flatMap_congr fun transaction _ => opens_outpointsOf _ _
    rw [hopens, htransactions, List.flatMap_append, List.flatMap_cons] at hnodup
    exact List.disjoint_of_nodup_append hnodup
      (List.mem_flatMap.mpr ⟨_, hearlier, hother⟩) (List.mem_append_left _ hfunded)

/-- What pooled transactions consume is there. -/
theorem present_of_pooled (h : ∀ item ∈ pool.entries.entries, Pooled P state item.1 item.2) :
    ∀ outpoint ∈ references pool.transactions, ∃ output,
      state.utxos.get outpoint = some output := by
  intro outpoint hmem
  obtain ⟨transaction, htransaction, hconsumed⟩ := List.mem_flatMap.mp hmem
  rw [transactions_eq] at htransaction
  obtain ⟨item, hitem, rfl⟩ := List.mem_map.mp htransaction
  exact (h item hitem).present outpoint hconsumed

/-- The fees of part of a pool add up to less than a word holds. -/
theorem PoolInvariant.burns_lt (h : PoolInvariant P state pool) {part : List Transaction}
    (hsub : part.Sublist pool.transactions) : (part.map (·.burns state.utxos)).sum < 2 ^ 64 := by
  obtain ⟨fees, hpasses⟩ := h.passes
  have hall := hpasses.fees (present_of_pooled h.pooled)
  have hle := (hsub.map (·.burns state.utxos)).sum_le_sum fun _ _ => Nat.zero_le _
  have hlt := toNat_lt fees
  omega

/-- What the loop has kept is part of what it has seen, in the same order. -/
theorem Keeps.sublist {seen : List (Bytes32 × MempoolEntry)} {retained : Retained}
    (h : Keeps P state seen retained) :
    retained.transactions.Sublist (seen.map (·.2.transaction)) := by
  have hsub := h.kept.map fun content => content.2.1
  rw [List.map_map, List.map_map] at hsub
  rw [h.transactions, transactions_eq]
  exact hsub

/-! ## Two states -/

/-- Where both states have an output, it is the same one. -/
def Agree (state state' : ChainState) : Prop :=
  ∀ outpoint output output', state.utxos.get outpoint = some output →
    state'.utxos.get outpoint = some output' → output = output'

/-- Transactions whose inputs both states have burn the same fees at both. -/
theorem Agree.burns (h : Agree state state') {transactions : List Transaction}
    (hpresent : ∀ outpoint ∈ references transactions, ∃ output,
      state.utxos.get outpoint = some output)
    (hpresent' : ∀ outpoint ∈ references transactions, ∃ output,
      state'.utxos.get outpoint = some output) :
    transactions.map (·.burns state'.utxos) = transactions.map (·.burns state.utxos) := by
  refine List.map_congr_left fun transaction hmem => burns_congr fun outpoint hconsumed => ?_
  have href : outpoint ∈ references transactions := List.mem_flatMap.mpr ⟨_, hmem, hconsumed⟩
  obtain ⟨output, hget⟩ := hpresent outpoint href
  obtain ⟨output', hget'⟩ := hpresent' outpoint href
  rw [hget, hget', h outpoint output output' hget hget']

/-- Part of a pool burns less than a word holds at the other state too. -/
theorem PoolInvariant.burns_lt_at (h : PoolInvariant P state pool) (hagree : Agree state state')
    {part : List Transaction} (hsub : part.Sublist pool.transactions)
    (hpresent : ∀ outpoint ∈ references part, ∃ output, state'.utxos.get outpoint = some output) :
    (part.map (·.burns state'.utxos)).sum < 2 ^ 64 := by
  have hold : ∀ outpoint ∈ references part, ∃ output,
      state.utxos.get outpoint = some output := by
    intro outpoint hmem
    obtain ⟨transaction, htransaction, hconsumed⟩ := List.mem_flatMap.mp hmem
    exact present_of_pooled h.pooled outpoint
      (List.mem_flatMap.mpr ⟨_, hsub.subset htransaction, hconsumed⟩)
  rw [hagree.burns hold hpresent]
  exact h.burns_lt hsub

/-! ## The turn of an entry -/

/-- What one turn has kept stays through the others. -/
theorem retainEntry_mem {confirmedTxids : Finset Bytes32} {retained : Retained}
    {item other : Bytes32 × MempoolEntry} (h : item ∈ retained.mempool.entries.entries)
    (hne : item.1 ≠ other.1) :
    item ∈ (retainEntry P state confirmedTxids retained other).mempool.entries.entries := by
  simp only [retainEntry]
  split
  · exact h
  split
  · exact h
  split
  · exact h
  · exact KeyMap.mem_insertEntry_of_ne h hne

theorem retainEntries_mem {confirmedTxids : Finset Bytes32} {others : List (Bytes32 × MempoolEntry)}
    {item : Bytes32 × MempoolEntry} : ∀ {retained : Retained},
      item ∈ retained.mempool.entries.entries → (∀ other ∈ others, item.1 ≠ other.1) →
      item ∈ (others.foldl (retainEntry P state confirmedTxids)
        retained).mempool.entries.entries := by
  induction others with
  | nil => exact fun h _ => h
  | cons other rest ih =>
      intro retained h hne
      obtain ⟨hfirst, hrest⟩ := List.forall_mem_cons.mp hne
      exact ih (retainEntry_mem h hfirst) hrest

/-- An entry that is valid by itself and after what was kept before it is kept. -/
theorem retainEntry_self {confirmedTxids : Finset Bytes32} {retained : Retained}
    {seen : List (Bytes32 × MempoolEntry)} {item : Bytes32 × MempoolEntry}
    (hkeeps : Keeps P state seen retained) (hlast : ∀ earlier ∈ seen, earlier.1 < item.1)
    (hconfirmed : item.1 ∉ confirmedTxids)
    (hpresent : ∀ outpoint ∈ item.2.transaction.consumed, ∃ output,
      state.utxos.get outpoint = some output)
    (hunspent : ∀ outpoint ∈ item.2.transaction.consumed, outpoint ∉ retained.spends)
    (hpasses : Passes P state [item.2.transaction] item.2.feeBurned)
    (hrelay : requiredRelayFee item.2.encodedBytes ≤ item.2.feeBurned)
    (htogether : ∃ fees, Passes P state (retained.transactions ++ [item.2.transaction]) fees) :
    item ∈ (retainEntry P state confirmedTxids retained item).mempool.entries.entries := by
  obtain ⟨txid, entry⟩ := item
  have halone : validateMempoolTransaction P state entry.transaction entry.encodedBytes
      retained.spends = .ok entry.feeBurned :=
    validateMempoolTransaction_eq_ok.mpr
      ⟨fun outpoint hmem => ⟨hpresent outpoint hmem, hunspent outpoint hmem⟩, hpasses, hrelay⟩
  obtain ⟨_, validation, hvalidation, -⟩ := htogether
  simp only [retainEntry, if_neg hconfirmed, halone, hvalidation]
  rw [hkeeps.insert_eq hlast]
  exact List.mem_append_right _ List.mem_cons_self

/-! ## Revalidation at another state -/

/-- An ordinary entry that is still valid by itself stays in the pool. -/
theorem revalidate_mem (h : PoolInvariant P state pool)
    (hregistered : Registered TxOutput.channel state.utxos.ledger)
    (hregistered' : Registered TxOutput.channel state'.utxos.ledger) (hagree : Agree state state')
    {confirmedTxids : Finset Bytes32} {item : Bytes32 × MempoolEntry}
    (hitem : item ∈ pool.entries.entries) (hkeyed : item.2.transaction.Keyed)
    (hconfirmed : item.1 ∉ confirmedTxids)
    (hpresent : ∀ outpoint ∈ item.2.transaction.consumed, ∃ output,
      state'.utxos.get outpoint = some output)
    (hpasses : Passes P state' [item.2.transaction] item.2.feeBurned) :
    item ∈ (pool.revalidate P state' confirmedTxids).entries.entries := by
  obtain ⟨seen, rest, hsplit⟩ := List.append_of_mem hitem
  have hsorted := pool.entries.sorted
  have hentered : ∀ other ∈ seen ++ item :: rest, Entered P other.1 other.2 :=
    fun other hother => (h.pooled other (hsplit ▸ hother)).entered
  have hpooled := h.pooled item hitem
  rw [hsplit] at hsorted
  obtain ⟨hseenSorted, hrestSorted, hacross⟩ := List.pairwise_append.mp hsorted
  have hlast : ∀ earlier ∈ seen, earlier.1 < item.1 :=
    fun earlier hmem => hacross earlier hmem item List.mem_cons_self
  generalize hretained : seen.foldl (retainEntry P state' confirmedTxids)
    { mempool := .empty, transactions := [], spends := ∅ } = retained
  have hkeeps : Keeps P state' seen retained := by
    rw [← hretained]
    exact @Keeps.loop P state' confirmedTxids seen [] _ hseenSorted
      (fun other hother => hentered other (List.mem_append_left _ hother)) (keeps_nil state')
  have hunrelated : ∀ other ∈ retained.transactions, item.2.transaction.Unrelated P other := by
    intro other hother
    obtain ⟨earlier, hmem, rfl⟩ := List.mem_map.mp (hkeeps.sublist.subset hother)
    exact h.unrelated hregistered hsplit earlier hmem
  have hunspent : ∀ outpoint ∈ item.2.transaction.consumed, outpoint ∉ retained.spends := by
    intro outpoint hmem hspent
    rw [hkeeps.spends, List.mem_toFinset] at hspent
    obtain ⟨other, hother, hconsumed⟩ := List.mem_flatMap.mp hspent
    exact (hunrelated other hother).inputs outpoint hmem hconsumed
  have hsub : (retained.transactions ++ [item.2.transaction]).Sublist pool.transactions := by
    rw [transactions_eq, hsplit, List.map_append, List.map_cons]
    exact hkeeps.sublist.append (List.singleton_sublist.mpr List.mem_cons_self)
  have hothersPresent : ∀ outpoint ∈ references retained.transactions, ∃ output,
      state'.utxos.get outpoint = some output := by
    rw [hkeeps.transactions]
    exact present_of_pooled hkeeps.pooled
  have hself : references [item.2.transaction] = item.2.transaction.consumed :=
    List.flatMap_singleton _ _
  obtain ⟨fees, hothers⟩ := hkeeps.passes
  have hsum : fees.toNat + item.2.feeBurned.toNat < 2 ^ 64 := by
    have hlt := h.burns_lt_at hagree hsub fun outpoint hmem => by
      rw [references, List.flatMap_append] at hmem
      exact (List.mem_append.mp hmem).elim (hothersPresent outpoint)
        fun hmem => hpresent outpoint (hself ▸ hmem)
    rw [List.map_append, List.sum_append] at hlt
    rw [hothers.fees hothersPresent, hpasses.fees (hself ▸ hpresent)]
    exact hlt
  have hresources : ∃ totals, validateTransactionSetResources
      (retained.transactions ++ [item.2.transaction]) = .ok totals := by
    obtain ⟨_, hall⟩ := h.passes
    exact validateTransactionSetResources_sublist hsub (passes_iff.mp hall).1
  have hturn := retainEntry_self hkeeps hlast hconfirmed hpresent hunspent hpasses hpooled.relay
    ⟨_, hothers.snoc hregistered' hpasses hkeyed hresources hunrelated hsum⟩
  rw [Mempool.revalidate, hsplit, List.foldl_append, List.foldl_cons, hretained]
  refine retainEntries_mem hturn fun other hother => ?_
  exact ne_of_lt ((List.pairwise_cons.mp hrestSorted).1 other hother)

/-! ## A block on the tip -/

/-- The identifiers of the block name no unspent output: they are digests. -/
structure FreshBlock (P : Platform) (state : ChainState) (block : Block) : Prop where
  transactions : ∀ transaction ∈ block.transactions, FreshTxid P state transaction
  coinbase : ∀ index, state.utxos.get { txid := block.coinbaseOutpointId P, index } = none

theorem agree_of_block {block : Block} {context : BlockValidationContext}
    {validated : ValidatedBlock} (hvalid : state.validateBlock P block context = .ok validated)
    (hfresh : FreshBlock P state block) : Agree state (state.advance validated) := by
  intro outpoint output output' hget hget'
  have hrun := (validateBlock_validated hvalid).applied.run
  rcases (hrun.lookup_iff outpoint output').mp hget' with ⟨hkept, -⟩ | ⟨pre, entry, post, hsplit,
    hcreated, -⟩
  · exact Option.some.inj (hget.symm.trans hkept)
  · have hmem : entry ∈ block.entries P := by
      rw [hsplit]
      exact List.mem_append_right _ List.mem_cons_self
    have hnone : state.utxos.get outpoint = none := by
      rcases List.mem_append.mp hmem with hmem | hmem
      · obtain ⟨transaction, htransaction, rfl⟩ := List.mem_map.mp hmem
        have hfree := hfresh.transactions transaction htransaction outpoint.index
        rwa [← (mem_outpointsOf hcreated).1] at hfree
      · obtain rfl := List.mem_singleton.mp hmem
        have hfree := hfresh.coinbase outpoint.index
        rwa [← (mem_outpointsOf hcreated).1] at hfree
    rw [hget] at hnone
    cases hnone

section

variable {params : NetworkParams} {verifier : ConsensusPowVerifier} {accepted : List Acceptance}
  {node node' : Node}

theorem NodeRun.registered (h : NodeRun P params verifier accepted node) :
    Registered TxOutput.channel node.state.utxos.ledger := by
  obtain ⟨_, hrun⟩ := h.chain
  exact hrun.registered

/-- What an accepted block on the tip leaves of the pool. -/
theorem NodeRun.revalidated (h : NodeRun P params verifier accepted node) {append : AppendOutcome}
    {block : Block} {acceptedAt fees : UInt64}
    (hsubmit : node.submitBlock P append block acceptedAt = (.ok fees, node'))
    (htip : block.challenge.previousBlock = node.state.tip) :
    ∃ validated, node.state.validateBlock P block ⟨acceptedAt⟩ = .ok validated ∧
      node'.state = node.state.advance validated ∧
      node'.mempool =
        node.mempool.revalidate P node'.state (block.transactions.map (·.txid P)).toFinset := by
  obtain ⟨prepared, record, haccepts⟩ :=
    submitBlock_accepted (a := ⟨block, acceptedAt⟩) h.consistent hsubmit
  obtain ⟨validated, hvalid, hextended⟩ := haccepts.extended h.consistent htip
  refine ⟨validated, hvalid, hextended.state, ?_⟩
  have hmoved : node'.state.tip ≠ node.state.tip := by
    intro heq
    have hsame : node'.state.nextHeight = node.state.nextHeight := by
      rw [haccepts.state_of_tip h.consistent heq]
    have hnext := (validateBlock_validated hvalid).nextHeight
    rw [hextended.state] at hsame
    have hheight : validated.nextHeight.toNat = node.state.nextHeight.toNat :=
      congrArg UInt64.toNat hsame
    omega
  conv_lhs => rw [haccepts.unchanged]
  exact if_pos hmoved

/-- What becomes of an entry when a block with which it has nothing to do moves the
tip: an ordinary transaction passes with the fee it had and stays, a closing one is
refused and leaves. -/
structure Outlives (P : Platform) (node' : Node) (item : Bytes32 × MempoolEntry) : Prop where
  keyed : item.2.transaction.Keyed →
    Passes P node'.state [item.2.transaction] item.2.feeBurned ∧
      item ∈ node'.mempool.entries.entries
  closing : ¬item.2.transaction.Keyed →
    (∀ fee, ¬Passes P node'.state [item.2.transaction] fee) ∧
      item.2.transaction ∉ node'.mempool.transactions

/-- The ordinary ones stay, with the fee they had. -/
theorem NodeRun.keyed_outlives (h : NodeRun P params verifier accepted node)
    {append : AppendOutcome} {block : Block} {acceptedAt fees : UInt64}
    {item : Bytes32 × MempoolEntry} (hitem : item ∈ node.mempool.entries.entries)
    (hsubmit : node.submitBlock P append block acceptedAt = (.ok fees, node'))
    (htip : block.challenge.previousBlock = node.state.tip)
    (hunrelated : block.Unrelated P item.2.transaction) (hfresh : FreshBlock P node.state block)
    (hkeyed : item.2.transaction.Keyed) :
    Passes P node'.state [item.2.transaction] item.2.feeBurned ∧
      item ∈ node'.mempool.entries.entries := by
  obtain ⟨validated, hvalid, hstate, hmempool⟩ := h.revalidated hsubmit htip
  have hrun' : NodeRun P params verifier (accepted ++ [⟨block, acceptedAt⟩]) node' :=
    h.accepted hsubmit
  have hpooled := h.poolInvariant.pooled item hitem
  have hpasses : Passes P node'.state [item.2.transaction] item.2.feeBurned := by
    rw [hstate]
    exact (hpooled.passes.next h.registered hvalid hunrelated).mpr hkeyed
  refine ⟨hpasses, ?_⟩
  obtain ⟨-, -, -, applied, happlied, -⟩ := passes_singleton.mp hpasses
  rw [hmempool]
  refine revalidate_mem h.poolInvariant h.registered hrun'.registered ?_ hitem hkeyed ?_
    (applyTransaction_inPlace happlied).step.present hpasses
  · rw [hstate]
    exact agree_of_block hvalid hfresh
  · rw [List.mem_toFinset, hpooled.entered.key]
    intro hmem
    obtain ⟨other, hother, heq⟩ := List.mem_map.mp hmem
    exact (hunrelated.transactions other hother).txid heq

/-- The closing ones leave: the height they were made for has passed. -/
theorem NodeRun.closing_leaves (h : NodeRun P params verifier accepted node)
    {append : AppendOutcome} {block : Block} {acceptedAt fees : UInt64}
    {item : Bytes32 × MempoolEntry} (hitem : item ∈ node.mempool.entries.entries)
    (hsubmit : node.submitBlock P append block acceptedAt = (.ok fees, node'))
    (htip : block.challenge.previousBlock = node.state.tip)
    (hclosing : ¬item.2.transaction.Keyed) :
    (∀ fee, ¬Passes P node'.state [item.2.transaction] fee) ∧
      item.2.transaction ∉ node'.mempool.transactions := by
  obtain ⟨validated, hvalid, hstate, -⟩ := h.revalidated hsubmit htip
  have hrun' : NodeRun P params verifier (accepted ++ [⟨block, acceptedAt⟩]) node' :=
    h.accepted hsubmit
  have hrefused : ∀ fee, ¬Passes P node'.state [item.2.transaction] fee := by
    intro fee
    refine closing_refused (h.poolInvariant.pooled item hitem).passes hclosing fun heq => ?_
    have hheight := (validateBlock_validated hvalid).nextHeight
    rw [hstate] at heq
    have hsame : validated.nextHeight.toNat = node.state.nextHeight.toNat :=
      congrArg UInt64.toNat heq
    omega
  refine ⟨hrefused, fun hmem => ?_⟩
  rw [transactions_eq] at hmem
  obtain ⟨other, hother, heq⟩ := List.mem_map.mp hmem
  have hpasses := (hrun'.poolInvariant.pooled other hother).passes
  rw [heq] at hpasses
  exact hrefused _ hpasses

theorem NodeRun.outlives (h : NodeRun P params verifier accepted node) {append : AppendOutcome}
    {block : Block} {acceptedAt fees : UInt64} {item : Bytes32 × MempoolEntry}
    (hitem : item ∈ node.mempool.entries.entries)
    (hsubmit : node.submitBlock P append block acceptedAt = (.ok fees, node'))
    (htip : block.challenge.previousBlock = node.state.tip)
    (hunrelated : block.Unrelated P item.2.transaction) (hfresh : FreshBlock P node.state block) :
    Outlives P node' item where
  keyed hkeyed := h.keyed_outlives hitem hsubmit htip hunrelated hfresh hkeyed
  closing hclosing := h.closing_leaves hitem hsubmit htip hclosing

/-- Pending transactions and unrelated blocks on the tip. -/
theorem pending_outlives (h : NodeRun P params verifier accepted node) {append : AppendOutcome}
    {block : Block} {acceptedAt fees : UInt64}
    (hsubmit : node.submitBlock P append block acceptedAt = (.ok fees, node'))
    (htip : block.challenge.previousBlock = node.state.tip) (hfresh : FreshBlock P node.state block) :
    ∀ item ∈ node.mempool.entries.entries, block.Unrelated P item.2.transaction →
      Outlives P node' item :=
  fun _ hitem hunrelated => h.outlives hitem hsubmit htip hunrelated hfresh

end

/-! ## Pending transactions of the sample network -/

/-- A block without transactions on the tip of a sample node, when it is submitted. -/
def sampleEmpty (node : Node) (timestamp : UInt64) : Outcome NodeError UInt64 × Node :=
  node.submitBlock samplePlatform .synced (sampleBlock node.state timestamp 0 []) timestamp

theorem sampleEmpty_eq {node : Node} {timestamp : UInt64}
    (h : (sampleEmpty node timestamp).1.isOk) :
    ∃ fees, node.submitBlock samplePlatform .synced (sampleBlock node.state timestamp 0 [])
      timestamp = (.ok fees, (sampleEmpty node timestamp).2) := by
  cases hresult : (sampleEmpty node timestamp).1 with
  | ok fees => exact ⟨fees, Prod.ext hresult rfl⟩
  | error fault =>
      rw [hresult] at h
      cases h

theorem sampleBlock_previous (state : ChainState) (timestamp fees : UInt64)
    (transactions : List Transaction) :
    (sampleBlock state timestamp fees transactions).challenge.previousBlock = state.tip := rfl

/-- A transaction is all that is pending, and an empty block that has nothing to do
with it is accepted. -/
structure SamplePending (node : Node) (timestamp : UInt64) (transaction : Transaction) : Prop where
  transactions : node.mempool.transactions = [transaction]
  accepted : (sampleEmpty node timestamp).1.isOk = true
  fresh : ∀ entry ∈ node.state.utxos.outputs.entries,
    entry.1.txid ≠ (sampleBlock node.state timestamp 0 []).coinbaseOutpointId samplePlatform
  coinbase : (sampleBlock node.state timestamp 0 []).coinbaseOutpointId samplePlatform ≠
    transaction.txid samplePlatform

instance (node : Node) (timestamp : UInt64) (transaction : Transaction) :
    Decidable (SamplePending node timestamp transaction) :=
  decidable_of_iff (_ ∧ _ ∧ _ ∧ _)
    ⟨fun ⟨ha, hb, hc, hd⟩ => ⟨ha, hb, hc, hd⟩, fun ⟨ha, hb, hc, hd⟩ => ⟨ha, hb, hc, hd⟩⟩

theorem SamplePending.item {node : Node} {timestamp : UInt64} {transaction : Transaction}
    (h : SamplePending node timestamp transaction) :
    ∃ item ∈ node.mempool.entries.entries, item.2.transaction = transaction := by
  have hmem : transaction ∈ node.mempool.transactions := by
    rw [h.transactions]
    exact List.mem_cons_self
  rw [transactions_eq] at hmem
  exact List.mem_map.mp hmem

theorem SamplePending.unrelated {node : Node} {timestamp : UInt64} {transaction : Transaction}
    (h : SamplePending node timestamp transaction) :
    (sampleBlock node.state timestamp 0 []).Unrelated samplePlatform transaction :=
  ⟨fun _ hmem => (by cases hmem), h.coinbase⟩

theorem SamplePending.freshBlock {node : Node} {timestamp : UInt64} {transaction : Transaction}
    (h : SamplePending node timestamp transaction) :
    FreshBlock samplePlatform node.state (sampleBlock node.state timestamp 0 []) :=
  ⟨fun _ hmem => (by cases hmem), UtxoSet.get_eq_none_of_txid h.fresh⟩

theorem samplePool_pending : SamplePending samplePool 1120 sampleFunding := by
  decide +kernel

/-- The funding transaction is still pending after a block without it. -/
theorem pending_outlives_sample :
    ∃ item ∈ samplePool.mempool.entries.entries, item.2.transaction = sampleFunding ∧
      item ∈ (sampleEmpty samplePool 1120).2.mempool.entries.entries := by
  obtain ⟨item, hitem, heq⟩ := samplePool_pending.item
  obtain ⟨fees, hsubmit⟩ := sampleEmpty_eq samplePool_pending.accepted
  have houtlives := pending_outlives samplePool_run hsubmit (sampleBlock_previous _ _ _ _)
    samplePool_pending.freshBlock item hitem (heq ▸ samplePool_pending.unrelated)
  have hkeyed : sampleFunding.Keyed := by
    rw [Transaction.keyed_iff]
    decide
  exact ⟨item, hitem, heq, (houtlives.keyed (heq ▸ hkeyed)).2⟩

/-- The node after the block that funds the sample channel, with its refund pending. -/
def samplePending : Node :=
  (((sampleSubmit sampleNode₁ [⟨sampleBlock₂, 1120⟩]).getD sampleNode₁).submitTransaction
    samplePlatform sampleRefund).2

theorem samplePending_run : NodeRun samplePlatform sampleParams sampleVerifier
    [sampleFirst, ⟨sampleBlock₂, 1120⟩] samplePending := by
  have hsome : (sampleSubmit sampleNode₁ [⟨sampleBlock₂, 1120⟩]).isSome := by decide +kernel
  exact (sampleSubmit_getD_run sampleNode₁_run hsome).transaction Prod.mk.eta.symm

theorem samplePending_pending : SamplePending samplePending 1180 sampleRefund := by
  decide +kernel

/-- The pending refund is dropped by a block that has nothing to do with it. -/
theorem pending_refund_dropped :
    ∃ item ∈ samplePending.mempool.entries.entries, item.2.transaction = sampleRefund ∧
      (∃ fees, samplePending.submitBlock samplePlatform .synced
        (sampleBlock samplePending.state 1180 0 []) 1180 =
          (.ok fees, (sampleEmpty samplePending 1180).2)) ∧
      (sampleBlock samplePending.state 1180 0 []).challenge.previousBlock =
        samplePending.state.tip ∧
      (sampleBlock samplePending.state 1180 0 []).Unrelated samplePlatform sampleRefund ∧
      (∀ fee, ¬Passes samplePlatform (sampleEmpty samplePending 1180).2.state [sampleRefund] fee) ∧
      sampleRefund ∉ (sampleEmpty samplePending 1180).2.mempool.transactions := by
  obtain ⟨item, hitem, heq⟩ := samplePending_pending.item
  obtain ⟨fees, hsubmit⟩ := sampleEmpty_eq samplePending_pending.accepted
  have hclosing : ¬sampleRefund.Keyed := by
    rw [Transaction.keyed_iff, not_not]
    rfl
  have houtlives := samplePending_run.outlives hitem hsubmit (sampleBlock_previous _ _ _ _)
    (heq ▸ samplePending_pending.unrelated) samplePending_pending.freshBlock
  have hdropped := houtlives.closing (heq ▸ hclosing)
  rw [heq] at hdropped
  exact ⟨item, hitem, heq, ⟨fees, hsubmit⟩, sampleBlock_previous _ _ _ _,
    samplePending_pending.unrelated, hdropped⟩

end CommonFoundry
