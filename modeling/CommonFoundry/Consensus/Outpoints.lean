/-
# `CommonFoundry.Consensus.Outpoints` — no outpoint is created twice

`insert_output` looks for a collision in the unspent set only; an outpoint that was
spent is not there any more.  Over a whole chain no outpoint is created twice all the
same, if the hashes behind the identifiers do not collide:

  * a transaction with the identifier of an earlier one is that transaction, and would
    spend its inputs again;
  * a coinbase outpoint hashes the identifier of its block, which commits to the height;
  * transactions and coinbases are hashed under different domains.

So the chain, as a ledger, is `OneTime` (`ChainRun.oneTime`), and the rejection of a
collision is never reached (`validateBlock_avoids`, `validateTransactions_avoids`).
-/
import CommonFoundry.Consensus.Identity
import CommonFoundry.Consensus.Spending
import CommonFoundry.Lib.OneTime

namespace CommonFoundry

open Lib Lib.Outcome Lib.Codec Lib.Ledger

variable {P : Platform} {calls : List HashCall}

/-! ## Entries that could share an outpoint -/

theorem keys_entry {transaction : Transaction} {k : OutPoint}
    (h : k ∈ (transaction.entry P).keys) : k.txid = transaction.txid P := by
  obtain ⟨kv, hkv, rfl⟩ := List.mem_map.mp h
  exact (mem_outpointsOf hkv).1

theorem keys_coinbaseEntry {block : Block} {k : OutPoint} (h : k ∈ (block.coinbaseEntry P).keys) :
    k.txid = block.coinbaseOutpointId P := by
  obtain ⟨kv, hkv, rfl⟩ := List.mem_map.mp h
  exact (mem_outpointsOf hkv).1

/-- A transaction whose hash is among the calls. -/
def Transaction.Hashed (P : Platform) (calls : List HashCall) (transaction : Transaction) : Prop :=
  transaction.Sized ∧ (txIdDomain, transaction.idBytes P) ∈ calls

/-- A block whose identifier and coinbase outpoint are hashed among the calls. -/
def Block.Hashed (P : Platform) (calls : List HashCall) (block : Block) : Prop :=
  (blockIdDomain, block.idBytes) ∈ calls ∧
    (coinbaseOutpointDomain, block.outpointBytes P) ∈ calls

theorem Block.hashed (block : Block) (h : ∀ call ∈ block.hashCalls P, call ∈ calls) :
    block.Hashed P calls :=
  ⟨h _ List.mem_cons_self, h _ (List.mem_cons_of_mem _ List.mem_cons_self)⟩

theorem recreates_transactions (hhash : P.CollisionFree calls) {a b : Transaction}
    (ha : a.Hashed P calls) (hb : b.Hashed P calls) (hinputs : b.consumed ≠ []) :
    Recreates (a.entry P) (b.entry P) := by
  intro k hk hk'
  have hid : a.txid P = b.txid P := (keys_entry hk).symm.trans (keys_entry hk')
  have hsame := Transaction.idBytes_inj ha.1 hb.1 (hhash.bytes_eq ha.2 hb.2 hid).2
  exact ⟨by rw [hsame], hinputs⟩

theorem recreates_transaction_coinbase (hhash : P.CollisionFree calls) {a : Transaction}
    {b : Block} (ha : a.Hashed P calls) (hb : b.Hashed P calls) :
    Recreates (a.entry P) (b.coinbaseEntry P) := by
  intro k hk hk'
  have hid := (keys_entry hk).symm.trans (keys_coinbaseEntry hk')
  exact absurd (hhash.bytes_eq ha.2 hb.2 hid).1 (by decide)

theorem recreates_coinbase_transaction (hhash : P.CollisionFree calls) {a : Block}
    {b : Transaction} (ha : a.Hashed P calls) (hb : b.Hashed P calls) :
    Recreates (a.coinbaseEntry P) (b.entry P) := by
  intro k hk hk'
  have hid := (keys_coinbaseEntry hk).symm.trans (keys_entry hk')
  exact absurd (hhash.bytes_eq ha.2 hb.2 hid).1 (by decide)

theorem recreates_coinbases (hhash : P.CollisionFree calls) {a b : Block}
    (ha : a.Hashed P calls) (hb : b.Hashed P calls)
    (hheight : a.challenge.height ≠ b.challenge.height) :
    Recreates (a.coinbaseEntry P) (b.coinbaseEntry P) := by
  intro k hk hk'
  have hid := (keys_coinbaseEntry hk).symm.trans (keys_coinbaseEntry hk')
  obtain ⟨_, hblock⟩ := array_append_inj (x := (a.blockId P).1) (y := (b.blockId P).1)
    (hhash.bytes_eq ha.2 hb.2 hid).2
  obtain ⟨_, hchallenge, _⟩ := Block.idBytes_inj
    (hhash.bytes_eq ha.1 hb.1 (Subtype.ext hblock)).2
  exact absurd (congrArg BlockChallenge.height hchallenge) hheight

/-! ## Blocks -/

theorem mem_entries {block : Block} {e : Entry OutPoint TxOutput} :
    e ∈ block.entries P ↔
      (∃ transaction ∈ block.transactions, e = transaction.entry P) ∨
        e = block.coinbaseEntry P := by
  simp only [Block.entries, List.mem_append, List.mem_map, List.mem_singleton]
  exact or_congr_left (exists_congr fun _ => and_congr_right fun _ => eq_comm)

theorem Block.WellFormed.hashed {block : Block} (h : block.WellFormed P)
    (hcalls : ∀ call ∈ block.hashCalls P, call ∈ calls) {transaction : Transaction}
    (hmem : transaction ∈ block.transactions) : transaction.Hashed P calls :=
  ⟨h.sized transaction hmem, mem_txid transaction hmem hcalls⟩

/-- Within one block. -/
theorem Block.WellFormed.pairwise_entries {block : Block} (h : block.WellFormed P)
    (hhash : P.CollisionFree calls) (hcalls : ∀ call ∈ block.hashCalls P, call ∈ calls) :
    (block.entries P).Pairwise Recreates := by
  refine List.pairwise_append.mpr ⟨?_, List.pairwise_singleton _ _, ?_⟩
  · refine List.pairwise_iff_forall_sublist.mpr fun {e e'} hsub => ?_
    obtain ⟨a, ha, rfl⟩ := List.mem_map.mp (hsub.subset List.mem_cons_self)
    obtain ⟨b, hb, rfl⟩ := List.mem_map.mp
      (hsub.subset (List.mem_cons_of_mem _ List.mem_cons_self))
    exact recreates_transactions hhash (h.hashed hcalls ha) (h.hashed hcalls hb) (h.inputs b hb)
  · intro e he e' he'
    obtain ⟨a, ha, rfl⟩ := List.mem_map.mp he
    rw [List.mem_singleton.mp he']
    exact recreates_transaction_coinbase hhash (h.hashed hcalls ha) (block.hashed hcalls)

/-- Between blocks of different heights. -/
theorem Block.WellFormed.recreates {a b : Block} (ha : a.WellFormed P) (hb : b.WellFormed P)
    (hhash : P.CollisionFree calls) (hcalls : ∀ call ∈ a.hashCalls P, call ∈ calls)
    (hcalls' : ∀ call ∈ b.hashCalls P, call ∈ calls)
    (hheight : a.challenge.height ≠ b.challenge.height) :
    ∀ e ∈ a.entries P, ∀ e' ∈ b.entries P, Recreates e e' := by
  intro e he e' he'
  rcases mem_entries.mp he with ⟨t, ht, rfl⟩ | rfl
  · rcases mem_entries.mp he' with ⟨t', ht', rfl⟩ | rfl
    · exact recreates_transactions hhash (ha.hashed hcalls ht) (hb.hashed hcalls' ht')
        (hb.inputs t' ht')
    · exact recreates_transaction_coinbase hhash (ha.hashed hcalls ht) (b.hashed hcalls')
  · rcases mem_entries.mp he' with ⟨t', ht', rfl⟩ | rfl
    · exact recreates_coinbase_transaction hhash (a.hashed hcalls) (hb.hashed hcalls' ht')
    · exact recreates_coinbases hhash (a.hashed hcalls) (b.hashed hcalls') hheight

/-! ## Chains -/

section

variable {params : NetworkParams} {verifier : ConsensusPowVerifier}
  {accepted : List AcceptedBlock} {state : ChainState}

/-- The ledger entries of a chain, in order. -/
def chainEntries (P : Platform) (accepted : List AcceptedBlock) : List (Entry OutPoint TxOutput) :=
  accepted.flatMap fun a => a.block.entries P

/-- The blocks of a chain are well formed, each below the next height. -/
theorem ChainRun.blocks (h : ChainRun P params verifier accepted state) :
    ∀ a ∈ accepted, a.block.WellFormed P ∧
      a.block.challenge.height.toNat < state.nextHeight.toNat := by
  induction h with
  | new _ => exact fun a ha => absurd ha (List.not_mem_nil)
  | step _ happly ih =>
      obtain ⟨validated, hvalid, _, rfl⟩ := validateAndApply_eq_ok.mp happly
      have hblock := validateBlock_validated hvalid
      have hnext := hblock.nextHeight
      intro a ha
      rcases List.mem_append.mp ha with ha | ha
      · obtain ⟨hwell, hlt⟩ := ih a ha
        exact ⟨hwell, hlt.trans (by
          show _ < validated.nextHeight.toNat
          omega)⟩
      · rw [List.mem_singleton.mp ha]
        refine ⟨validateBlock_wellFormed hvalid, ?_⟩
        show _ < validated.nextHeight.toNat
        rw [hblock.height]
        omega

/-- A chain is a ledger whose outpoints are created once and spent once. -/
theorem ChainRun.oneTime (h : ChainRun P params verifier accepted state)
    (hhash : P.CollisionFree calls)
    (hcalls : ∀ a ∈ accepted, ∀ call ∈ a.block.hashCalls P, call ∈ calls) :
    OneTime (chainEntries P accepted) state.utxos.ledger := by
  induction h with
  | new hnew =>
      rw [(new_eq_ok hnew).2.2.2.2.1]
      exact .empty fun _ => rfl
  | @step accepted state state' block context fees hrun happly ih =>
      obtain ⟨validated, hvalid, _, rfl⟩ := validateAndApply_eq_ok.mp happly
      have hblock := validateBlock_validated hvalid
      have hwell := validateBlock_wellFormed hvalid
      have hmine := hcalls ⟨block, context, fees⟩ (List.mem_append_right _ List.mem_cons_self)
      have hold := ih fun a ha => hcalls a (List.mem_append_left _ ha)
      rw [chainEntries, List.flatMap_append, List.flatMap_singleton]
      refine hold.run hblock.applied.run ?_ (hwell.pairwise_entries hhash hmine)
      intro e he
      obtain ⟨a, ha, hea⟩ := List.mem_flatMap.mp he
      obtain ⟨hwella, hlt⟩ := hrun.blocks a ha
      refine hwella.recreates hwell hhash (hcalls a (List.mem_append_left _ ha)) hmine ?_ e hea
      intro heq
      rw [heq, hblock.height] at hlt
      exact Nat.lt_irrefl _ hlt

end

/-! ## The rejection of a collision -/

/-- Outputs under free outpoints do not collide. -/
theorem insertOutputs_avoids {created : List (OutPoint × TxOutput)} :
    ∀ {utxos : UtxoSet}, Fresh utxos.outputs created →
      Avoids .txidCollision (created.foldlM
        (fun view (outpoint, output) => insertOutput view outpoint output) utxos) := by
  induction created with
  | nil => exact fun _ => .ok
  | cons kv created ih =>
      intro utxos hfresh
      obtain ⟨habsent, hrest⟩ := hfresh
      have hfree : ¬(UtxoView.get utxos kv.1).isSome := by
        rw [Option.not_isSome_iff_eq_none]
        exact habsent
      rw [List.foldlM_cons]
      refine Avoids.bind ?_ fun utxos' hinsert => ?_
      · refine (Avoids.require (by simp)).bind fun _ _ => (Avoids.require (by simp)).bind fun _ _ => ?_
        rw [require_pos hfree]
        exact .ok
      · obtain ⟨_, _, houtputs, _, _⟩ := insertOutput_inPlace hinsert
        exact ih (houtputs ▸ hrest)

theorem insertOutputs_avoids_of {utxos : UtxoSet} {txid : Bytes32} {outputs : List TxOutput}
    (hcount : outputs.length ≤ 2 ^ 32)
    (hfree : ∀ k ∈ (outpointsOf txid outputs).map Prod.fst, utxos.outputs.lookup k = none) :
    Avoids .txidCollision (insertOutputs utxos txid outputs) :=
  insertOutputs_avoids (fresh_iff.mpr ⟨nodup_outpointsOf txid hcount,
    fun _ hkv => hfree _ (List.mem_map_of_mem hkv)⟩)

theorem outputTotal_avoids (outputs : List TxOutput) :
    Avoids .txidCollision (outputTotal outputs) :=
  Avoids.foldlM fun _ _ _ => Avoids.okOr (by simp)

theorem markSpent_avoids (spent : Finset OutPoint) (outpoint : OutPoint) :
    Avoids .txidCollision (markSpent spent outpoint) :=
  (Avoids.require (by simp)).bind fun _ _ => .ok

theorem checkKeyInput_avoids {utxos : UtxoSet} {height : UInt64} {digest : Bytes32}
    (input : TxInput) : Avoids .txidCollision (checkKeyInput P utxos height digest input) := by
  refine (Avoids.okOr (by simp)).bind fun previous _ => (Avoids.require (by simp)).bind fun _ _ => ?_
  split
  · exact (Avoids.require (by simp)).bind fun _ _ => (Avoids.require (by simp)).bind fun _ _ =>
      (Avoids.require (by simp)).bind fun _ _ => (Avoids.require (by simp)).bind fun _ _ => .ok
  · exact .fail (by simp)

section

variable {utxos : UtxoSet} {transaction : Transaction} {height : UInt64} {networkId : Bytes32}
  {spent : Finset OutPoint} {es : List (Entry OutPoint TxOutput)}

/-- The outpoints of a transaction that finds its inputs are free. -/
theorem created_free (h : OneTime es utxos.ledger)
    (hes : ∀ e ∈ es, Recreates e (transaction.entry P))
    (hpresent : ∀ input ∈ transaction.inputs, ∃ previous, utxos.get input.previous = some previous) :
    ∀ k ∈ (outpointsOf (transaction.txid P) transaction.outputs).map Prod.fst,
      utxos.outputs.lookup k = none := by
  refine h.absent (e := transaction.entry P) (fun k hk => ?_) hes
  obtain ⟨input, hinput, rfl⟩ := List.mem_map.mp hk
  exact hpresent input hinput

theorem applyKeyTransaction_avoids (h : OneTime es utxos.ledger)
    (hes : ∀ e ∈ es, Recreates e (transaction.entry P)) (hsized : transaction.Sized) :
    Avoids .txidCollision (applyKeyTransaction P utxos transaction height spent) := by
  refine Avoids.bind (Avoids.foldlM fun _ _ _ => ?_) fun paid hpaid => ?_
  · exact (markSpent_avoids _ _).bind fun _ _ => (checkKeyInput_avoids _).bind fun _ _ =>
      (Avoids.okOr (by simp)).bind fun _ _ => .ok
  obtain ⟨_, _, _, hchecks, _⟩ := spendKeyInputs_inPlace hpaid
  have hcount : maxTransactionOutputs ≤ 2 ^ 32 := by decide
  refine (outputTotal_avoids _).bind fun _ _ => (Avoids.require (by simp)).bind fun _ _ =>
    (insertOutputs_avoids_of (hsized.outputs.trans hcount) fun k hk => ?_).bind fun _ _ => .ok
  rw [eraseInputs_inPlace, lookup_consume]
  split
  · rfl
  · refine created_free h hes (fun input hinput => ?_) k hk
    obtain ⟨_, hcheck⟩ := hchecks input hinput
    obtain ⟨previous, _, _, hget, _⟩ := checkKeyInput_inPlace hcheck
    exact ⟨previous, hget⟩

theorem closePayout_avoids (witness : InputWitness) (channelId : Bytes32) (value : UInt64) :
    Avoids .txidCollision (closePayout P witness networkId channelId value height) := by
  have hterms : ∀ terms : ChannelTerms,
      Avoids .txidCollision (checkTerms P terms networkId channelId value) := fun _ =>
    (Avoids.require (by simp)).bind fun _ _ => (Avoids.mapErr (by simp)).bind fun _ _ =>
      (Avoids.require (by simp)).bind fun _ _ => Avoids.require (by simp)
  cases witness with
  | key publicKey signature => exact .fail (by simp)
  | inferenceSettlement terms settlement =>
      exact (hterms terms).bind fun _ _ => (Avoids.mapErr (by simp)).bind fun _ _ => .ok
  | inferenceRefund terms =>
      exact (hterms terms).bind fun _ _ => (Avoids.mapErr (by simp)).bind fun _ _ => .ok

theorem applyChannelTransaction_avoids (h : OneTime es utxos.ledger)
    (hes : ∀ e ∈ es, Recreates e (transaction.entry P)) (hsized : transaction.Sized) :
    Avoids .txidCollision
      (applyChannelTransaction P utxos transaction height networkId spent) := by
  have hsole : Avoids .txidCollision (soleInput transaction) := by
    unfold soleInput
    split
    · exact .ok
    · exact .fail (by simp)
  have hcount : maxTransactionOutputs ≤ 2 ^ 32 := by decide
  refine hsole.bind fun input hinput => (markSpent_avoids _ _).bind fun _ _ =>
    (Avoids.okOr (by simp)).bind fun previous hprevious =>
    (Avoids.require (by simp)).bind fun _ _ => (Avoids.okOr (by simp)).bind fun _ _ =>
    (closePayout_avoids _ _ _).bind fun _ _ => (Avoids.require (by simp)).bind fun _ _ =>
    (outputTotal_avoids _).bind fun _ _ => (Avoids.okOr (by simp)).bind fun _ _ =>
    (Avoids.require (by simp)).bind fun _ _ =>
    (insertOutputs_avoids_of (hsized.outputs.trans hcount) fun k hk => ?_).bind fun _ _ => .ok
  show (utxos.outputs.erase input.previous).lookup k = none
  have hpresent : ∀ other ∈ transaction.inputs,
      ∃ previous, utxos.get other.previous = some previous := by
    rw [soleInput_eq_ok.mp hinput]
    intro other hother
    rw [List.mem_singleton.mp hother]
    exact ⟨previous, okOr_eq_ok.mp hprevious⟩
  have habsent := created_free h hes hpresent k hk
  by_cases hk : k = input.previous
  · rw [hk, Finmap.lookup_erase]
  · rw [Finmap.lookup_erase_ne hk, habsent]

theorem applyTransaction_avoids (h : OneTime es utxos.ledger)
    (hes : transaction.consumed ≠ [] → ∀ e ∈ es, Recreates e (transaction.entry P))
    (hsized : transaction.Sized) :
    Avoids .txidCollision (applyTransaction P utxos transaction height networkId spent) := by
  refine (Avoids.require (by simp)).bind fun _ _ => (Avoids.require (by simp)).bind fun _ _ =>
    (Avoids.require (by simp)).bind fun _ hinputs => (Avoids.require (by simp)).bind fun _ _ =>
    (Avoids.require (by simp)).bind fun _ _ => ?_
  have hsome : transaction.consumed ≠ [] := by
    rw [require_eq_ok, List.isEmpty_iff] at hinputs
    rwa [Transaction.consumed, ne_eq, List.map_eq_nil_iff]
  split
  · exact applyChannelTransaction_avoids h (hes hsome) hsized
  · exact applyKeyTransaction_avoids h (hes hsome) hsized

/-- The transaction loop, behind entries it could not repeat. -/
theorem applyTransactions_avoids {transactions : List Transaction} {acc : Applied UtxoSet}
    (hhash : P.CollisionFree calls) (h : OneTime es acc.view.ledger)
    (hes : ∀ e ∈ es, ∀ transaction ∈ transactions, transaction.consumed ≠ [] →
      Recreates e (transaction.entry P))
    (hhashed : ∀ transaction ∈ transactions, transaction.Hashed P calls) :
    Avoids .txidCollision (applyTransactions P height networkId acc transactions) := by
  induction transactions generalizing acc es with
  | nil => exact .ok
  | cons transaction rest ih =>
      obtain ⟨hfirst, hrest⟩ := List.forall_mem_cons.mp hhashed
      rw [applyTransactions, List.foldlM_cons]
      refine Avoids.bind ?_ fun next hnext => ?_
      · refine (applyTransaction_avoids h (fun hsome e he =>
          hes e he transaction List.mem_cons_self hsome) hfirst.1).bind fun _ _ => ?_
        exact (Avoids.okOr (by simp)).bind fun _ _ => .ok
      · simp only [bind_eq_ok, pure_eq_ok] at hnext
        obtain ⟨one, hone, fee, _, rfl⟩ := hnext
        have hconsumed := applyTransaction_consumed hone
        have hnow := h.step (applyTransaction_inPlace hone).step fun e he =>
          hes e he transaction List.mem_cons_self hconsumed
        refine ih hnow (fun e he later hlater hsome => ?_) hrest
        rcases List.mem_append.mp he with he | he
        · exact hes e he later (List.mem_cons_of_mem _ hlater) hsome
        · rw [List.mem_singleton.mp he]
          exact recreates_transactions hhash hfirst (hrest later hlater) hsome

end

theorem validateTransactionResources_avoids (transactions : List Transaction) :
    Avoids .txidCollision (validateTransactionResources transactions) := by
  refine (Avoids.foldlM fun totals transaction _ => ?_).bind fun _ _ =>
    (Avoids.require (by simp)).bind fun _ _ => (Avoids.require (by simp)).bind fun _ _ => .ok
  refine (Avoids.require (by simp)).bind fun _ _ => (Avoids.require (by simp)).bind fun _ _ =>
    (Avoids.foldlM fun total input _ => ?_).bind fun _ _ => .ok
  have hlengths : Avoids .txidCollision (checkSignatureLengths input.witness) := by
    cases input.witness with
    | key publicKey signature => exact .require (by simp)
    | inferenceSettlement terms settlement => exact .require (by simp)
    | inferenceRefund terms => exact .ok
  exact hlengths.bind fun _ _ => .ok

theorem checkTransactionHeaders_avoids (networkId : Bytes32) (transactions : List Transaction) :
    Avoids .txidCollision (checkTransactionHeaders networkId transactions) :=
  Avoids.forM fun _ _ => (Avoids.require (by simp)).bind fun _ _ => Avoids.require (by simp)

theorem validateBlockHeader_avoids (block : Block) (verifier : ConsensusPowVerifier)
    (params : NetworkParams) :
    Avoids .txidCollision (validateBlockHeader P block verifier params) := by
  have hresources : Avoids .txidCollision (validateBlockResources block) :=
    (Avoids.require (by simp)).bind fun _ _ => (Avoids.require (by simp)).bind fun _ _ =>
      (validateTransactionResources_avoids _).bind fun _ _ => .ok
  have hpow : ∀ error, mapPowError error ≠ .txidCollision := by
    intro error
    cases error <;> simp [mapPowError]
  exact hresources.bind fun _ _ => (Avoids.require (by simp)).bind fun _ _ =>
    (Avoids.require (by simp)).bind fun _ _ => (checkTransactionHeaders_avoids _ _).bind fun _ _ =>
    (Avoids.mapErr (by simp)).bind fun _ _ => (Avoids.require (by simp)).bind fun _ _ =>
    (Avoids.require (by simp)).bind fun _ _ => Avoids.mapErr hpow

theorem validateCoinbase_avoids (coinbase : Coinbase) (allocation : Allocation)
    (fixedDestinations : FixedRewardDestinations) :
    Avoids .txidCollision (validateCoinbase P coinbase allocation fixedDestinations) := by
  have hminer : Avoids .txidCollision (minerDestination coinbase) := by
    unfold minerDestination
    split
    · exact .ok
    · exact .fail (by simp)
  exact hminer.bind fun _ _ => (Avoids.require (by simp)).bind fun _ _ =>
    (Avoids.require (by simp)).bind fun _ _ => Avoids.require (by simp)

/-- What the overlay does not return the set did not. -/
theorem Tracks.avoids {α β : Type} {good : α → Prop} {f : α → β} {x : Outcome ChainError α}
    {y : Outcome ChainError β} {error : ChainError} (h : Tracks good f x y)
    (hy : Avoids error y) : Avoids error x := by
  obtain ⟨rfl, -⟩ := h
  rintro rfl
  exact hy rfl

section

variable {params : NetworkParams} {verifier : ConsensusPowVerifier}
  {accepted : List AcceptedBlock} {state : ChainState}

/-- Transactions on top of a chain, as entries that it could hold. -/
theorem ChainRun.recreates (h : ChainRun P params verifier accepted state)
    (hhash : P.CollisionFree calls)
    (hcalls : ∀ a ∈ accepted, ∀ call ∈ a.block.hashCalls P, call ∈ calls)
    {transaction : Transaction} (hhashed : transaction.Hashed P calls)
    (hsome : transaction.consumed ≠ []) :
    ∀ e ∈ chainEntries P accepted, Recreates e (transaction.entry P) := by
  intro e he
  obtain ⟨a, ha, hea⟩ := List.mem_flatMap.mp he
  rcases mem_entries.mp hea with ⟨old, hold, rfl⟩ | rfl
  · exact recreates_transactions hhash ((h.blocks a ha).1.hashed (hcalls a ha) hold) hhashed hsome
  · exact recreates_coinbase_transaction hhash (a.block.hashed (hcalls a ha)) hhashed

/-- The coinbase of the next block, behind the chain and its own transactions. -/
theorem ChainRun.recreates_coinbase (h : ChainRun P params verifier accepted state)
    (hhash : P.CollisionFree calls)
    (hcalls : ∀ a ∈ accepted, ∀ call ∈ a.block.hashCalls P, call ∈ calls) {block : Block}
    (hblock : block.Hashed P calls) (hheight : block.challenge.height = state.nextHeight)
    (hhashed : ∀ transaction ∈ block.transactions, transaction.Hashed P calls) :
    ∀ e ∈ chainEntries P accepted ++ block.transactions.map (·.entry P),
      Recreates e (block.coinbaseEntry P) := by
  intro e he
  rcases List.mem_append.mp he with he | he
  · obtain ⟨a, ha, hea⟩ := List.mem_flatMap.mp he
    obtain ⟨hwell, hlt⟩ := h.blocks a ha
    rcases mem_entries.mp hea with ⟨old, hold, rfl⟩ | rfl
    · exact recreates_transaction_coinbase hhash (hwell.hashed (hcalls a ha) hold) hblock
    · refine recreates_coinbases hhash (a.block.hashed (hcalls a ha)) hblock ?_
      intro heq
      rw [heq, hheight] at hlt
      exact Nat.lt_irrefl _ hlt
  · obtain ⟨transaction, hmem, rfl⟩ := List.mem_map.mp he
    exact recreates_transaction_coinbase hhash (hhashed transaction hmem) hblock

/-- Validation never finds that an outpoint it creates exists. -/
theorem validateBlock_avoids (h : ChainRun P params verifier accepted state)
    (hhash : P.CollisionFree calls)
    (hcalls : ∀ a ∈ accepted, ∀ call ∈ a.block.hashCalls P, call ∈ calls) {block : Block}
    (hblock : ∀ call ∈ block.hashCalls P, call ∈ calls) (context : BlockValidationContext) :
    Avoids .txidCollision (state.validateBlock P block context) := by
  refine (Avoids.require (by simp)).bind fun _ _ => (Avoids.require (by simp)).bind fun _ _ =>
    (Avoids.require (by simp)).bind fun _ hheight => (Avoids.okOr (by simp)).bind fun _ _ =>
    (Avoids.okOr (by simp)).bind fun _ _ => (Avoids.require (by simp)).bind fun _ _ =>
    (Avoids.require (by simp)).bind fun _ _ => (Avoids.okOr (by simp)).bind fun _ _ =>
    (Avoids.require (by simp)).bind fun _ _ => (Avoids.mapErr (by simp)).bind fun _ _ =>
    (Avoids.require (by simp)).bind fun _ _ => Avoids.bind ?_ fun _ _ => .ok
  refine (validateBlockHeader_avoids _ _ _).bind fun _ hheader => Avoids.bind ?_ fun _ _ => .ok
  obtain ⟨hcoinbase, totals, htotals⟩ :=
    validateBlockResources_eq_ok.mp (validateBlockHeader_checks hheader).1
  have hsized := (validateTransactionSetResources_iff.mp htotals).1
  have hhashed : ∀ transaction ∈ block.transactions, transaction.Hashed P calls :=
    fun transaction hmem => ⟨hsized transaction hmem,
      Block.WellFormed.mem_txid transaction hmem hblock⟩
  have hchain := h.oneTime hhash hcalls
  -- in place of the overlay, on the set itself
  have htracks := applyBlock_refines (P := P) (UtxoOverlay.refines state.utxos)
    (UtxoOverlay.staged_new state.utxos) block state.params
  rw [UtxoOverlay.view_new] at htracks
  refine htracks.avoids ?_
  have hes : ∀ e ∈ chainEntries P accepted, ∀ transaction ∈ block.transactions,
      transaction.consumed ≠ [] → Recreates e (transaction.entry P) := fun e he transaction hmem
    hsome => h.recreates hhash hcalls (hhashed transaction hmem) hsome e he
  refine (applyTransactions_avoids hhash hchain hes hhashed).bind fun applied happlied =>
    (Avoids.mapErr (by simp)).bind fun _ _ => (validateCoinbase_avoids _ _ _).bind fun _ _ =>
    Avoids.bind ?_ fun _ _ => .ok
  have hafter := hchain.run (applyTransactions_inPlace happlied).run
    (fun e he e' he' => by
      obtain ⟨transaction, hmem, rfl⟩ := List.mem_map.mp he'
      exact hes e he transaction hmem (applyTransactions_consumed happlied transaction hmem))
    (by
      refine List.pairwise_iff_forall_sublist.mpr fun {e e'} hsub => ?_
      obtain ⟨a, ha, rfl⟩ := List.mem_map.mp (hsub.subset List.mem_cons_self)
      obtain ⟨b, hb, rfl⟩ := List.mem_map.mp
        (hsub.subset (List.mem_cons_of_mem _ List.mem_cons_self))
      exact recreates_transactions hhash (hhashed a ha) (hhashed b hb)
        (applyTransactions_consumed happlied b hb))
  have hlimit : maxCoinbaseOutputs ≤ 2 ^ 32 := by decide
  exact insertOutputs_avoids_of (hcoinbase.trans hlimit)
    (hafter.absent (e := block.coinbaseEntry P) (fun _ hk => absurd hk (List.not_mem_nil))
      (h.recreates_coinbase hhash hcalls (block.hashed hblock) (require_eq_ok.mp hheight) hhashed))

/-- Nor does the preflight of a transaction set. -/
theorem validateTransactions_avoids (h : ChainRun P params verifier accepted state)
    (hhash : P.CollisionFree calls)
    (hcalls : ∀ a ∈ accepted, ∀ call ∈ a.block.hashCalls P, call ∈ calls)
    {transactions : List Transaction}
    (htransactions : ∀ transaction ∈ transactions, (txIdDomain, transaction.idBytes P) ∈ calls) :
    Avoids .txidCollision (state.validateTransactionsForNextBlock P transactions) := by
  refine Avoids.bind ?_ fun validation hvalidation =>
    (checkTransactionHeaders_avoids _ _).bind fun _ _ =>
    (Avoids.forM fun _ _ => (Avoids.mapErr (by simp)).bind fun _ _ => .ok).bind fun _ _ =>
    Avoids.bind ?_ fun _ _ => .ok
  · exact (Avoids.require (by simp)).bind fun _ _ => validateTransactionResources_avoids _
  · have hsized := (validateTransactionSetResources_iff.mp hvalidation).1
    have hhashed : ∀ transaction ∈ transactions, transaction.Hashed P calls :=
      fun transaction hmem => ⟨hsized transaction hmem, htransactions transaction hmem⟩
    have hstaged : UtxoOverlay.Staged state.utxos (Applied.mk validation.totalBurnedFees
        (UtxoOverlay.new state.utxos) ∅).view := UtxoOverlay.staged_new state.utxos
    have htracks := applyTransactions_refines (UtxoOverlay.refines state.utxos) P hstaged
      state.nextHeight state.params.networkId transactions
    rw [Applied.map, UtxoOverlay.view_new] at htracks
    exact htracks.avoids (applyTransactions_avoids hhash (h.oneTime hhash hcalls)
      (fun e he transaction hmem hsome =>
        h.recreates hhash hcalls (hhashed transaction hmem) hsome e he) hhashed)

/-- What the entries of a chain consume is what its transactions reference. -/
theorem consumed_chainEntries (accepted : List AcceptedBlock) :
    (chainEntries P accepted).flatMap Entry.consumed =
      references (accepted.flatMap (·.block.transactions)) := by
  rw [chainEntries, references, List.flatMap_assoc, List.flatMap_assoc]
  refine List.flatMap_congr fun a _ => ?_
  rw [Block.entries, List.flatMap_append, List.flatMap_map, List.flatMap_singleton]
  exact List.append_nil _

/-- No outpoint is created twice along a chain, by transactions or coinbases; no
transaction is confirmed twice; what has been spent is never unspent again; and neither
a block nor a transaction set is ever refused for a collision. -/
theorem outpoints_once (hrun : ChainRun P params verifier accepted state) (block : Block)
    (context : BlockValidationContext)
    (hhash : P.CollisionFree
      (accepted.flatMap (·.block.hashCalls P) ++ block.hashCalls P)) :
    ((chainEntries P accepted).flatMap Entry.keys).Nodup ∧
      (accepted.flatMap (·.block.transactions)).Nodup ∧
      (∀ a ∈ accepted, ∀ input ∈ a.block.inputs, state.utxos.get input.previous = none) ∧
      state.validateBlock P block context ≠ .error (.err .txidCollision) ∧
      state.validateTransactionsForNextBlock P block.transactions ≠
        .error (.err .txidCollision) := by
  have hcalls : ∀ a ∈ accepted, ∀ call ∈ a.block.hashCalls P, call ∈
      accepted.flatMap (·.block.hashCalls P) ++ block.hashCalls P := fun a ha call hcall =>
    List.mem_append_left _ (List.mem_flatMap.mpr ⟨a, ha, hcall⟩)
  have hblock : ∀ call ∈ block.hashCalls P, call ∈
      accepted.flatMap (·.block.hashCalls P) ++ block.hashCalls P :=
    fun _ => List.mem_append_right _
  have honce := hrun.oneTime hhash hcalls
  refine ⟨honce.created, ?_, ?_, validateBlock_avoids hrun hhash hcalls hblock context,
    validateTransactions_avoids hrun hhash hcalls fun transaction hmem =>
      Block.WellFormed.mem_txid transaction hmem hblock⟩
  · refine nodup_of_references (consumed_chainEntries (P := P) accepted ▸ honce.consumed) ?_
    intro transaction hmem
    obtain ⟨a, ha, hmem⟩ := List.mem_flatMap.mp hmem
    exact (hrun.blocks a ha).1.inputs transaction hmem
  · intro a ha input hinput
    refine honce.gone input.previous ?_
    rw [consumed_chainEntries]
    obtain ⟨transaction, hmem, hinput⟩ := List.mem_flatMap.mp hinput
    exact mem_references.mpr ⟨transaction, List.mem_flatMap.mpr ⟨a, ha, hmem⟩,
      List.mem_map_of_mem hinput⟩

end

/-- After the two sample blocks the funding transaction is tried again: the steward's
output is gone, and nothing collides. -/
theorem outpoints_once_sample :
    sampleState₂.utxos.get ⟨sampleBlock₁.coinbaseOutpointId samplePlatform, 1⟩ = none ∧
      sampleState₂.validateBlock samplePlatform
          (sampleBlock sampleState₂ 1180 10000 [sampleFunding]) ⟨1180⟩ ≠
        .error (.err .txidCollision) := by
  have hhash : samplePlatform.CollisionFree
      (sampleAccepted.flatMap (·.block.hashCalls samplePlatform) ++
        (sampleBlock sampleState₂ 1180 10000 [sampleFunding]).hashCalls samplePlatform) := by
    decide +kernel
  obtain ⟨-, -, hgone, hblock, -⟩ := outpoints_once sampleRun
    (sampleBlock sampleState₂ 1180 10000 [sampleFunding]) ⟨1180⟩ hhash
  refine ⟨?_, hblock⟩
  exact hgone ⟨sampleBlock₂, ⟨1120⟩, 10000⟩ (by simp [sampleAccepted])
    { previous := ⟨sampleBlock₁.coinbaseOutpointId samplePlatform, 1⟩
      witness := (sampleFunding.inputs.map (·.witness)).headD (.key zero32 []) } (by decide +kernel)

end CommonFoundry
