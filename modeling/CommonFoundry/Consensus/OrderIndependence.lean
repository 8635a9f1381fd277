/-
# `CommonFoundry.Consensus.OrderIndependence` — transaction sets in any order

The mempool and the block template keep transactions in the order of their
identifiers, whatever order they arrived in.  That is sound because the preflight
does not depend on the order, as long as every input is confirmed: such a list
passes exactly when each transaction passes by itself, no two spend one output or
fund one channel, and the fees fit their word (`applyTransactions_iff`), and none of
these conditions knows an order.

Two transactions meet in the overlay in one way only that these conditions do not
show: one may create what the other finds in the set.  Then the two have one
identifier, or the creator is a transaction of the chain over again, and its inputs
are gone.  A closing transaction and one that funds the channel it closes never pass
together, since the channel is active before both.
-/
import CommonFoundry.Consensus.Outpoints
import CommonFoundry.Consensus.Unrelated

namespace CommonFoundry

open Lib Lib.Outcome Lib.Ledger

variable {P : Platform} {transaction : Transaction} {networkId : Bytes32} {height : UInt64}

/-! ## A closing transaction elsewhere -/

theorem applyChannelTransaction_frame {utxos utxos' : UtxoSet} {spent spent' : Finset OutPoint}
    {applied : Applied UtxoSet}
    (h : applyChannelTransaction P utxos transaction height networkId spent = .ok applied)
    (hvalues : ∀ kv ∈ transaction.created P, kv.2.value ≠ 0)
    (huntouched : Untouched P utxos utxos' transaction)
    (hunspent : ∀ outpoint ∈ transaction.consumed, outpoint ∉ spent') :
    ∃ applied', applyChannelTransaction P utxos' transaction height networkId spent' =
      .ok applied' ∧ applied'.fee = applied.fee := by
  have hstep := (applyChannelTransaction_inPlace h).step
  simp only [applyChannelTransaction, bind_eq_ok, require_eq_ok, pure_eq_ok, okOr_eq_ok,
    soleInput_eq_ok, markSpent_eq_ok, lockedChannel_eq_ok] at h ⊢
  obtain ⟨input, hinput, _, -, previous, hget, _, hmature, channelId, hlock, ⟨outputs, fee⟩,
    hpayout, _, houtputs, total, htotal, paid, hpaid, _, hvalue, view, -, rfl⟩ := h
  have hconsumed : transaction.consumed = [input.previous] := by
    rw [Transaction.consumed, hinput]
    rfl
  have hmem : input.previous ∈ transaction.consumed := by
    rw [hconsumed]
    exact List.mem_cons_self
  have hget' : utxos'.get input.previous = some previous :=
    (huntouched.inputs _ hmem).trans hget
  have hfresh := huntouched.fresh (fresh_iff.mp hstep.fresh).1
  rw [hconsumed] at hfresh
  -- the payouts go to keys, so no channel is funded
  have hnone : (transaction.created P).filterMap (fun kv => kv.2.channel) = [] := by
    rw [Transaction.created, opens_outpointsOf, List.filterMap_eq_nil_iff, houtputs]
    exact (closePayout_satisfied hlock hpayout houtputs).2
  obtain ⟨view', hview'⟩ : ∃ view', insertOutputs (UtxoView.stageRetiredChannel
      (UtxoView.stageActiveChannel (UtxoView.stageOutput utxos' input.previous none) channelId
        false) channelId true) (transaction.txid P) transaction.outputs = .ok view' := by
    refine insertOutputs_ok hvalues hfresh ?_ ?_
    · exact hnone ▸ List.nodup_nil
    · intro channelId hmem
      rw [show (outpointsOf (transaction.txid P) transaction.outputs).filterMap
        (fun kv => kv.2.channel) = [] from hnone] at hmem
      cases hmem
  exact ⟨_, ⟨input, hinput, _, ⟨hunspent _ hmem, rfl⟩, previous, hget', (), hmature, channelId,
    hlock, (outputs, fee), hpayout, (), houtputs, total, htotal, paid, hpaid, (), hvalue, view',
    hview', rfl⟩, rfl⟩

/-- At one height a transaction of either kind applies wherever nothing it depends on
has changed, for the same fee. -/
theorem applyTransaction_frame {utxos utxos' : UtxoSet} {spent spent' : Finset OutPoint}
    {applied : Applied UtxoSet}
    (h : applyTransaction P utxos transaction height networkId spent = .ok applied)
    (huntouched : Untouched P utxos utxos' transaction)
    (hunspent : ∀ outpoint ∈ transaction.consumed, outpoint ∉ spent') :
    ∃ applied', applyTransaction P utxos' transaction height networkId spent' = .ok applied' ∧
      applied'.fee = applied.fee := by
  by_cases hkeyed : transaction.Keyed
  · exact applyTransaction_untouched h hkeyed (UInt64.le_refl _) huntouched hunspent
  · have hclosing := hkeyed
    rw [Transaction.keyed_iff, not_not] at hclosing
    simp only [applyTransaction, bind_eq_ok, require_eq_ok, if_pos hclosing] at h ⊢
    obtain ⟨_, hnetwork, _, hversion, _, hinputs, _, houtputs, _, hvalues, happly⟩ := h
    obtain ⟨applied', happly', hfee⟩ := applyChannelTransaction_frame happly
      (created_ne_zero hvalues) huntouched hunspent
    exact ⟨applied', ⟨(), hnetwork, (), hversion, (), hinputs, (), houtputs, (), hvalues, happly'⟩,
      hfee⟩

/-! ## Conditions without an order -/

/-- What a set has to be for transactions that only spend what it holds: channels in
step, every input there, every outpoint to be created free, and no two transactions
under one identifier that spend different outputs. -/
structure Confirmed (P : Platform) (utxos : UtxoSet) (transactions : List Transaction) :
    Prop where
  registered : Registered TxOutput.channel utxos.ledger
  present : ∀ transaction ∈ transactions, ∀ outpoint ∈ transaction.consumed,
    ∃ output, utxos.get outpoint = some output
  free : ∀ transaction ∈ transactions, ∀ kv ∈ transaction.created P, utxos.get kv.1 = none
  ids : ∀ a ∈ transactions, ∀ b ∈ transactions, a.txid P = b.txid P → a.consumed = b.consumed

theorem Confirmed.sub {utxos : UtxoSet} {some all : List Transaction} (h : Confirmed P utxos all)
    (hsub : ∀ transaction ∈ some, transaction ∈ all) : Confirmed P utxos some where
  registered := h.registered
  present transaction hmem := h.present transaction (hsub transaction hmem)
  free transaction hmem := h.free transaction (hsub transaction hmem)
  ids a ha b hb := h.ids a (hsub a ha) b (hsub b hb)

/-- Each transaction applies by itself, nothing is spent twice and no channel funded
twice, and the fees fit their word. -/
structure Independent (P : Platform) (networkId : Bytes32) (height : UInt64) (utxos : UtxoSet)
    (transactions : List Transaction) : Prop where
  alone : ∀ transaction ∈ transactions, ∃ applied,
    applyTransaction P utxos transaction height networkId ∅ = .ok applied
  inputs : (references transactions).Nodup
  channels : (transactions.flatMap Transaction.funded).Nodup
  fees : (transactions.map (·.burns utxos)).sum < 2 ^ 64

theorem Independent.perm {utxos : UtxoSet} {transactions permuted : List Transaction}
    (h : Independent P networkId height utxos transactions)
    (hperm : transactions.Perm permuted) : Independent P networkId height utxos permuted where
  alone transaction hmem := h.alone transaction (hperm.mem_iff.mpr hmem)
  inputs := (hperm.flatMap_right Transaction.consumed).nodup_iff.mp h.inputs
  channels := (hperm.flatMap_right Transaction.funded).nodup_iff.mp h.channels
  fees := by
    rw [← (hperm.map (·.burns utxos)).sum_eq]
    exact h.fees

section

variable {utxos : UtxoSet} {transactions : List Transaction}

/-- What a transaction burns by itself is its fee. -/
theorem TransactionApplied.burns {spent : Finset OutPoint} {applied : Applied UtxoSet}
    (h : TransactionApplied P networkId height utxos spent transaction applied) :
    transaction.burns utxos = applied.fee.toNat := by
  rw [Transaction.burns, h.fee, Nat.add_sub_cancel_left]

/-- A transaction of a list that applies would apply before the others as well. -/
theorem Confirmed.alone (h : Confirmed P utxos transactions) {applied : Applied UtxoSet}
    (happlied : applyTransactions P height networkId { fee := 0, view := utxos, spent := ∅ }
      transactions = .ok applied) (hmem : transaction ∈ transactions) :
    ∃ one, applyTransaction P utxos transaction height networkId ∅ = .ok one := by
  have hall := applyTransactions_inPlace happlied
  obtain ⟨pre, post, rfl⟩ := List.append_of_mem hmem
  obtain ⟨middle, hpre, hpost⟩ := applyTransactions_append.mp happlied
  obtain ⟨one, -, hone, -⟩ := applyTransactions_cons.mp hpost
  have hrun := (applyTransactions_inPlace hpre).run
  have hback : Untouched P middle.view utxos transaction := by
    constructor
    · intro outpoint hconsumed
      obtain ⟨output, hget⟩ := h.present transaction hmem outpoint hconsumed
      rw [hget]
      refine (hrun.kept hget fun entry hentry hbefore => ?_).symm
      obtain ⟨other, hother, rfl⟩ := List.mem_map.mp hentry
      have hnodup := hall.nodup
      rw [references, List.flatMap_append] at hnodup
      refine List.disjoint_of_nodup_append hnodup (List.mem_flatMap.mpr ⟨other, hother, hbefore⟩) ?_
      exact List.mem_flatMap.mpr ⟨transaction, List.mem_cons_self, hconsumed⟩
    · exact fun kv hcreated _ => h.free transaction hmem kv hcreated
    · intro channelId hfunded
      refine (hall.run.opens_fresh h.registered).2 channelId (List.mem_flatMap.mpr
        ⟨transaction.entry P, List.mem_map_of_mem hmem, ?_⟩)
      rw [show (transaction.entry P).opens TxOutput.channel = transaction.funded from
        opens_outpointsOf _ _]
      exact hfunded
  obtain ⟨first, hfirst, -⟩ := applyTransaction_frame hone hback
    fun outpoint _ => Finset.notMem_empty outpoint
  exact ⟨first, hfirst⟩

theorem Confirmed.independent (h : Confirmed P utxos transactions) {applied : Applied UtxoSet}
    (happlied : applyTransactions P height networkId { fee := 0, view := utxos, spent := ∅ }
      transactions = .ok applied) :
    Independent P networkId height utxos transactions ∧
      applied.fee.toNat = (transactions.map (·.burns utxos)).sum := by
  have hall := applyTransactions_inPlace happlied
  have hfee : applied.fee.toNat = (transactions.map (·.burns utxos)).sum := by
    rw [applyTransactions_fee happlied ?_]
    · exact Nat.zero_add _
    · intro outpoint hreferenced
      obtain ⟨transaction, hmem, hconsumed⟩ := mem_references.mp hreferenced
      exact h.present transaction hmem outpoint hconsumed
  refine ⟨⟨fun transaction hmem => h.alone happlied hmem, hall.nodup, ?_, ?_⟩, hfee⟩
  · have hopens := (hall.run.opens_fresh h.registered).1
    rw [List.flatMap_map] at hopens
    refine Eq.mp (congrArg List.Nodup (List.flatMap_congr fun transaction _ => ?_)) hopens
    exact opens_outpointsOf _ _
  · rw [← hfee]
    exact toNat_lt applied.fee

/-- Two transactions that are independent have nothing to do with each other. -/
theorem Confirmed.unrelated (h : Confirmed P utxos transactions) {others : List Transaction}
    (hmem : transaction ∈ transactions) (hothers : ∀ other ∈ others, other ∈ transactions)
    (hindependent : Independent P networkId height utxos (others ++ [transaction])) :
    ∀ other ∈ others, transaction.Unrelated P other := by
  have hinputs := hindependent.inputs
  have hchannels := hindependent.channels
  rw [references, List.flatMap_append, List.flatMap_singleton] at hinputs
  rw [List.flatMap_append, List.flatMap_singleton] at hchannels
  obtain ⟨one, hone⟩ := hindependent.alone transaction
    (List.mem_append_right _ List.mem_cons_self)
  intro other hother
  have hdisjoint : ∀ outpoint ∈ transaction.consumed, outpoint ∉ other.consumed := by
    intro outpoint hconsumed hbefore
    exact List.disjoint_of_nodup_append hinputs
      (List.mem_flatMap.mpr ⟨other, hother, hbefore⟩) hconsumed
  refine ⟨?_, hdisjoint, ?_⟩
  · -- one identifier would mean the same inputs
    intro heq
    have hsame := h.ids other (hothers other hother) transaction hmem heq
    obtain ⟨outpoint, hconsumed⟩ := List.exists_mem_of_ne_nil _ (applyTransaction_consumed hone)
    exact hdisjoint outpoint hconsumed (hsame ▸ hconsumed)
  · intro channelId hfunded hbefore
    exact List.disjoint_of_nodup_append hchannels
      (List.mem_flatMap.mpr ⟨other, hother, hbefore⟩) hfunded

/-- Independent transactions apply one after the other. -/
theorem Independent.applies (hindependent : Independent P networkId height utxos transactions)
    (h : Confirmed P utxos transactions) : ∃ applied,
    applyTransactions P height networkId { fee := 0, view := utxos, spent := ∅ } transactions =
      .ok applied := by
  induction transactions using List.reverseRecOn with
  | nil => exact ⟨_, rfl⟩
  | append_singleton others transaction ih =>
      have hlast : transaction ∈ others ++ [transaction] :=
        List.mem_append_right _ List.mem_cons_self
      have hbefore : ∀ other ∈ others, other ∈ others ++ [transaction] :=
        fun other hother => List.mem_append_left _ hother
      have hinputs := hindependent.inputs
      have hchannels := hindependent.channels
      have hfees := hindependent.fees
      rw [references, List.flatMap_append] at hinputs
      rw [List.flatMap_append] at hchannels
      rw [List.map_append, List.sum_append, List.map_singleton, List.sum_singleton] at hfees
      have hfirst : Independent P networkId height utxos others :=
        ⟨fun other hother => hindependent.alone other (hbefore other hother),
          (List.nodup_append.mp hinputs).1, (List.nodup_append.mp hchannels).1, by omega⟩
      obtain ⟨middle, hmiddle⟩ := ih hfirst (h.sub hbefore)
      obtain ⟨-, hfee⟩ := (h.sub hbefore).independent hmiddle
      obtain ⟨one, hone⟩ := hindependent.alone transaction hlast
      have hunrelated := h.unrelated hlast hbefore hindependent
      have huntouched := Untouched.of_transactions (applyTransaction_inPlace hone) h.registered
        hmiddle hunrelated
      have hunspent : ∀ outpoint ∈ transaction.consumed, outpoint ∉ middle.spent := by
        intro outpoint hconsumed hspent
        rw [(applyTransactions_inPlace hmiddle).spent_eq, Finset.empty_union, List.mem_toFinset]
          at hspent
        obtain ⟨other, hother, hother'⟩ := mem_references.mp hspent
        exact (hunrelated other hother).inputs outpoint hconsumed hother'
      obtain ⟨last, hlast, hsame⟩ := applyTransaction_frame hone huntouched hunspent
      have hburns := (applyTransaction_inPlace hone).burns
      have hadd : checkedAdd middle.fee last.fee = some (middle.fee + last.fee) := by
        rw [hsame, checkedAdd_eq_some, toNat_add_of_lt (by omega)]
      exact ⟨_, applyTransactions_append.mpr ⟨middle, hmiddle,
        applyTransactions_cons.mpr ⟨last, _, hlast, hadd, rfl⟩⟩⟩

/-- The loop of the preflight, without an order. -/
theorem applyTransactions_iff (h : Confirmed P utxos transactions) {fees : UInt64} :
    (∃ applied, applyTransactions P height networkId { fee := 0, view := utxos, spent := ∅ }
      transactions = .ok applied ∧ applied.fee = fees) ↔
    Independent P networkId height utxos transactions ∧
      fees.toNat = (transactions.map (·.burns utxos)).sum := by
  constructor
  · rintro ⟨applied, happlied, rfl⟩
    exact h.independent happlied
  · rintro ⟨hindependent, hfees⟩
    obtain ⟨applied, happlied⟩ := hindependent.applies h
    refine ⟨applied, happlied, UInt64.toNat_inj.mp ?_⟩
    rw [hfees, (h.independent happlied).2]

end

/-! ## The preflight -/

section

variable {params : NetworkParams} {verifier : ConsensusPowVerifier}
  {accepted : List AcceptedBlock} {state : ChainState} {calls : List HashCall}
  {transactions permuted : List Transaction} {fees : UInt64}

/-- On top of a chain, transactions that spend what it left unspent create nothing
that is there. -/
theorem ChainRun.confirmed (hrun : ChainRun P params verifier accepted state)
    (hhash : P.CollisionFree calls)
    (hcalls : ∀ a ∈ accepted, ∀ call ∈ a.block.hashCalls P, call ∈ calls)
    (hhashed : ∀ transaction ∈ transactions, transaction.Hashed P calls)
    (hsome : ∀ transaction ∈ transactions, transaction.consumed ≠ [])
    (hpresent : ∀ transaction ∈ transactions, ∀ outpoint ∈ transaction.consumed,
      ∃ output, state.utxos.get outpoint = some output) :
    Confirmed P state.utxos transactions := by
  refine ⟨hrun.registered, hpresent, ?_, ?_⟩
  · intro transaction hmem kv hcreated
    refine (hrun.oneTime hhash hcalls).absent (e := transaction.entry P)
      (hpresent transaction hmem) ?_ kv.1 (List.mem_map_of_mem hcreated)
    exact hrun.recreates hhash hcalls (hhashed transaction hmem) (hsome transaction hmem)
  · intro a ha b hb heq
    obtain ⟨hsized, hcall⟩ := hhashed a ha
    obtain ⟨hsized', hcall'⟩ := hhashed b hb
    rw [Transaction.idBytes_inj hsized hsized' (hhash.bytes_eq hcall hcall' heq).2]

theorem validateTransactionSetResources_perm (hperm : transactions.Perm permuted)
    (h : ∃ totals, validateTransactionSetResources transactions = .ok totals) :
    ∃ totals, validateTransactionSetResources permuted = .ok totals := by
  obtain ⟨totals, htotals⟩ := h
  obtain ⟨hsized, hlimits, -⟩ := validateTransactionSetResources_iff.mp htotals
  exact ⟨_, validateTransactionSetResources_iff.mpr
    ⟨fun transaction hmem => hsized transaction (hperm.mem_iff.mpr hmem), hlimits.perm hperm, rfl⟩⟩

theorem Passes.perm (hrun : ChainRun P params verifier accepted state)
    (hhash : P.CollisionFree calls)
    (hcalls : ∀ a ∈ accepted, ∀ call ∈ a.block.hashCalls P, call ∈ calls)
    (htransactions : ∀ transaction ∈ transactions, (txIdDomain, transaction.idBytes P) ∈ calls)
    (hpresent : ∀ transaction ∈ transactions, ∀ outpoint ∈ transaction.consumed,
      ∃ output, state.utxos.get outpoint = some output)
    (hperm : transactions.Perm permuted) (h : Passes P state transactions fees) :
    Passes P state permuted fees := by
  obtain ⟨hresources, hheaders, hencoded, applied, happlied, hfees⟩ := passes_iff.mp h
  obtain ⟨totals, htotals⟩ := hresources
  have hsized := (validateTransactionSetResources_iff.mp htotals).1
  have hconfirmed : Confirmed P state.utxos transactions :=
    hrun.confirmed hhash hcalls
      (fun transaction hmem => ⟨hsized transaction hmem, htransactions transaction hmem⟩)
      (applyTransactions_consumed happlied) hpresent
  obtain ⟨hindependent, hburns⟩ :=
    (applyTransactions_iff hconfirmed).mp ⟨applied, happlied, hfees⟩
  have hpermuted := (applyTransactions_iff (hconfirmed.sub fun transaction hmem =>
    hperm.mem_iff.mpr hmem)).mpr ⟨hindependent.perm hperm, by
      rw [hburns, (hperm.map (·.burns state.utxos)).sum_eq]⟩
  refine passes_iff.mpr ⟨validateTransactionSetResources_perm hperm ⟨totals, htotals⟩, ?_, ?_,
    hpermuted⟩
  · rw [checkTransactionHeaders, forM_eq_ok_iff] at hheaders ⊢
    exact fun transaction hmem => hheaders transaction (hperm.mem_iff.mpr hmem)
  · exact fun transaction hmem => hencoded transaction (hperm.mem_iff.mpr hmem)

/-- On every reachable state, transactions whose inputs are all confirmed pass in one
order if they pass in another, and burn the same fees. -/
theorem preflight_perm (hrun : ChainRun P params verifier accepted state)
    (hhash : P.CollisionFree (accepted.flatMap (·.block.hashCalls P) ++
      transactions.map fun transaction => (txIdDomain, transaction.idBytes P)))
    (hconfirmed : ∀ transaction ∈ transactions, ∀ input ∈ transaction.inputs,
      ∃ output, state.utxos.get input.previous = some output)
    (hperm : transactions.Perm permuted) (fees : UInt64) :
    (∃ validation, state.validateTransactionsForNextBlock P permuted = .ok validation ∧
      validation.totalBurnedFees = fees) ↔
    ∃ validation, state.validateTransactionsForNextBlock P transactions = .ok validation ∧
      validation.totalBurnedFees = fees := by
  have hcalls : ∀ a ∈ accepted, ∀ call ∈ a.block.hashCalls P, call ∈
      accepted.flatMap (·.block.hashCalls P) ++
        transactions.map fun transaction => (txIdDomain, transaction.idBytes P) :=
    fun a ha call hcall => List.mem_append_left _ (List.mem_flatMap.mpr ⟨a, ha, hcall⟩)
  have htransactions : ∀ transaction ∈ transactions, (txIdDomain, transaction.idBytes P) ∈
      accepted.flatMap (·.block.hashCalls P) ++
        transactions.map fun transaction => (txIdDomain, transaction.idBytes P) :=
    fun transaction hmem => List.mem_append_right _ (List.mem_map_of_mem hmem)
  have hpresent : ∀ transaction ∈ transactions, ∀ outpoint ∈ transaction.consumed,
      ∃ output, state.utxos.get outpoint = some output := by
    intro transaction hmem outpoint hconsumed
    obtain ⟨input, hinput, rfl⟩ := List.mem_map.mp hconsumed
    exact hconfirmed transaction hmem input hinput
  constructor
  · intro h
    exact Passes.perm hrun hhash hcalls
      (fun transaction hmem => htransactions transaction (hperm.mem_iff.mpr hmem))
      (fun transaction hmem => hpresent transaction (hperm.mem_iff.mpr hmem)) hperm.symm h
  · exact Passes.perm hrun hhash hcalls htransactions hpresent hperm

end

/-! ## One channel opened, another closed -/

/-- The community of the first block funds a channel of its own. -/
def sampleCommunityFunding : Transaction :=
  sampleTransaction (toBytes 4) [⟨sampleBlock₁.coinbaseOutpointId samplePlatform, 2⟩]
    [{ value := 90000, lock := .inferenceChannel (toBytes 9), spendableHeight := 3 }]

/-- The sample channel is refunded and the other one funded, in either order. -/
theorem preflight_perm_sample :
    ∃ validation, sampleState₂.validateTransactionsForNextBlock samplePlatform
      [sampleCommunityFunding, sampleRefund] = .ok validation ∧ validation.totalBurnedFees = 10100 := by
  have hhash : samplePlatform.CollisionFree
      (sampleAccepted.flatMap (·.block.hashCalls samplePlatform) ++
        [sampleRefund, sampleCommunityFunding].map fun transaction =>
          (txIdDomain, transaction.idBytes samplePlatform)) := by
    decide +kernel
  have hfound : ∀ transaction ∈ [sampleRefund, sampleCommunityFunding], ∀ input ∈ transaction.inputs,
      (sampleState₂.utxos.get input.previous).isSome := by
    decide +kernel
  have hpasses : sampleState₂.validateTransactionsForNextBlock samplePlatform
      [sampleRefund, sampleCommunityFunding] = .ok {
        totalBurnedFees := 10100, aggregateInputs := 2, aggregateOutputs := 2
        signatureChecks := 1 } := by
    decide +kernel
  refine (preflight_perm sampleRun hhash ?_ (List.Perm.swap _ _ _) 10100).mpr ⟨_, hpasses, rfl⟩
  intro transaction hmem input hinput
  exact Option.isSome_iff_exists.mp (hfound transaction hmem input hinput)

end CommonFoundry
