/-
# `CommonFoundry.Consensus.Spending` — who may spend, and what else changes

`block_spends_authorised`: over one accepted block of any reachable chain, an
output leaves the unspent set through exactly one input of the block, which is
authorised to spend it; every other output stays; and what is new is what the
block's transactions created and did not spend again, and its coinbase.

`Unspent` states which outputs exist between two transactions of a block.  The
set of outpoints spent so far in the block makes it exact without any
assumption on the hash: an outpoint that was created, spent and created again
can not be spent again.
-/
import CommonFoundry.Consensus.ChainRun

namespace CommonFoundry

open Lib Lib.Outcome Lib.Ledger

variable {P : Platform}

/-- After `transactions` on top of `base`, `output` is unspent at `outpoint`: it
was there before and none of them references it, or one of them created it and
no later one references it. -/
def Unspent (P : Platform) (base : UtxoSet) (transactions : List Transaction)
    (outpoint : OutPoint) (output : TxOutput) : Prop :=
  (base.get outpoint = some output ∧ outpoint ∉ references transactions) ∨
    ∃ pre transaction post, transactions = pre ++ transaction :: post ∧
      (outpoint, output) ∈ transaction.created P ∧ outpoint ∉ references post

/-- The inputs of a block. -/
def Block.inputs (block : Block) : List TxInput := block.transactions.flatMap (·.inputs)

theorem mem_references {transactions : List Transaction} {outpoint : OutPoint} :
    outpoint ∈ references transactions ↔
      ∃ transaction ∈ transactions, outpoint ∈ transaction.consumed := List.mem_flatMap

/-- The run of the ledger, in the terms of the transactions. -/
theorem unspent_iff {networkId : Bytes32} {height : UInt64} {acc applied : Applied UtxoSet}
    {transactions : List Transaction}
    (h : applyTransactions P height networkId acc transactions = .ok applied)
    (outpoint : OutPoint) (output : TxOutput) :
    applied.view.get outpoint = some output ↔
      Unspent P acc.view transactions outpoint output := by
  have hrun := (applyTransactions_inPlace h).run.lookup_iff outpoint output
  refine Iff.trans hrun (or_congr (and_congr_right fun _ => ?_) ?_)
  · rw [mem_references]
    constructor
    · rintro hfree ⟨transaction, hmem, hconsumed⟩
      exact hfree _ (List.mem_map_of_mem hmem) hconsumed
    · intro hfree entry hmem hconsumed
      obtain ⟨transaction, htransaction, rfl⟩ := List.mem_map.mp hmem
      exact hfree ⟨transaction, htransaction, hconsumed⟩
  · constructor
    · rintro ⟨pre, entry, post, hsplit, hcreated, hfree⟩
      obtain ⟨pre', rest, rfl, rfl, hrest⟩ := List.map_eq_append_iff.mp hsplit
      obtain ⟨transaction, post', rfl, rfl, rfl⟩ := List.map_eq_cons_iff.mp hrest
      refine ⟨pre', transaction, post', rfl, hcreated, fun hmem => ?_⟩
      obtain ⟨later, hlater, hconsumed⟩ := mem_references.mp hmem
      exact hfree _ (List.mem_map_of_mem hlater) hconsumed
    · rintro ⟨pre, transaction, post, rfl, hcreated, hfree⟩
      refine ⟨pre.map (·.entry P), transaction.entry P, post.map (·.entry P),
        List.map_append, hcreated, fun entry hmem hconsumed => ?_⟩
      obtain ⟨later, hlater, rfl⟩ := List.mem_map.mp hmem
      exact hfree (mem_references.mpr ⟨later, hlater, hconsumed⟩)

/-- In a list without duplicates after `f`, one element maps to each value. -/
theorem filter_eq_singleton {α β : Type} [DecidableEq β] {f : α → β} {l : List α} {a : α}
    (hnodup : (l.map f).Nodup) (ha : a ∈ l) : l.filter (fun b => f b = f a) = [a] := by
  induction l with
  | nil => cases ha
  | cons b l ih =>
      rw [List.map_cons, List.nodup_cons] at hnodup
      obtain ⟨hb, hnodup⟩ := hnodup
      rcases List.mem_cons.mp ha with rfl | ha
      · have hrest : l.filter (fun b => f b = f a) = [] := by
          rw [List.filter_eq_nil_iff]
          intro c hc heq
          exact hb (of_decide_eq_true heq ▸ List.mem_map_of_mem hc)
        rw [List.filter_cons, if_pos (decide_eq_true rfl), hrest]
      · have hne : ¬f b = f a := fun heq => hb (heq ▸ List.mem_map_of_mem ha)
        rw [List.filter_cons, if_neg (by simpa using hne), ih hnodup ha]

/-- What the transactions of an accepted block spend and leave. -/
structure BlockSpends (P : Platform) (params : NetworkParams) (utxos : UtxoSet) (block : Block)
    (utxos' : UtxoSet) : Prop where
  /-- No outpoint is referenced by two inputs of the block. -/
  once : (block.inputs.map (·.previous)).Nodup
  /-- Every input is authorised to spend an output that exists where it stands. -/
  authorised : ∀ pre transaction post, block.transactions = pre ++ transaction :: post →
    ∀ input ∈ transaction.inputs, ∃ previous, Unspent P utxos pre input.previous previous ∧
      Authorised P params.networkId block.challenge.height transaction input previous
  /-- An output leaves through exactly one input, authorised to spend it. -/
  leaves : ∀ outpoint output, utxos.get outpoint = some output →
    utxos'.get outpoint ≠ some output →
    ∃ transaction ∈ block.transactions, ∃ input ∈ transaction.inputs,
      block.inputs.filter (fun other => other.previous = outpoint) = [input] ∧
        Authorised P params.networkId block.challenge.height transaction input output
  /-- An output that no input references stays as it is. -/
  frame : ∀ outpoint output, utxos.get outpoint = some output →
    outpoint ∉ block.inputs.map (·.previous) → utxos'.get outpoint = some output
  /-- What is unspent afterwards: nothing but this. -/
  unspent : ∀ outpoint output, utxos'.get outpoint = some output ↔
    Unspent P utxos block.transactions outpoint output ∨
      (outpoint, output) ∈ outpointsOf (block.coinbaseOutpointId P) block.coinbase.outputs

theorem map_inputs (block : Block) :
    block.inputs.map (·.previous) = references block.transactions := by
  rw [Block.inputs, List.map_flatMap]
  rfl

theorem blockSpends_of_applied {params : NetworkParams} {utxos utxos' : UtxoSet} {block : Block}
    {fees : UInt64} (h : BlockApplied P params utxos block fees utxos') :
    BlockSpends P params utxos block utxos' := by
  obtain ⟨applied, happlied, -, hcoinbase⟩ := h.transactions
  have hall := applyTransactions_inPlace happlied
  have honce : (block.inputs.map (·.previous)).Nodup := map_inputs block ▸ hall.nodup
  have hauthorised : ∀ pre transaction post, block.transactions = pre ++ transaction :: post →
      ∀ input ∈ transaction.inputs, ∃ previous, Unspent P utxos pre input.previous previous ∧
        Authorised P params.networkId block.challenge.height transaction input previous := by
    intro pre transaction post hsplit input hinput
    rw [hsplit] at happlied
    obtain ⟨mid, hmid, hinputs⟩ := applyTransactions_authorised happlied
    obtain ⟨previous, hget, hauth⟩ := hinputs input hinput
    exact ⟨previous, (unspent_iff hmid _ _).mp hget, hauth⟩
  have hunspent : ∀ outpoint output, utxos'.get outpoint = some output ↔
      Unspent P utxos block.transactions outpoint output ∨
        (outpoint, output) ∈ outpointsOf (block.coinbaseOutpointId P) block.coinbase.outputs := by
    intro outpoint output
    refine (hcoinbase.lookup_iff outpoint output).trans (or_congr_left ?_)
    have hnone : outpoint ∉ (block.coinbaseEntry P).consumed := fun hmem => by cases hmem
    exact (and_iff_left hnone).trans (unspent_iff happlied outpoint output)
  refine ⟨honce, hauthorised, ?_, ?_, hunspent⟩
  · intro outpoint output hget hgone
    have hreferenced : outpoint ∈ references block.transactions := by
      by_contra hfree
      exact hgone ((hunspent outpoint output).mpr (.inl (.inl ⟨hget, hfree⟩)))
    obtain ⟨transaction, hmem, hconsumed⟩ := mem_references.mp hreferenced
    obtain ⟨pre, post, hsplit⟩ := List.append_of_mem hmem
    obtain ⟨input, hinput, rfl⟩ := List.mem_map.mp hconsumed
    -- the first and only reference: nothing before it touches the outpoint
    have hfirst : input.previous ∉ references pre := by
      have hnodup := hall.nodup
      rw [hsplit, references, List.flatMap_append, List.nodup_append] at hnodup
      intro hpre
      refine hnodup.2.2 _ hpre _ ?_ rfl
      rw [List.flatMap_cons]
      exact List.mem_append_left _ hconsumed
    obtain ⟨mid, hmid, hinputs⟩ :=
      applyTransactions_authorised (hsplit ▸ happlied)
    obtain ⟨previous, hprevious, hauth⟩ := hinputs input hinput
    have hstill := (unspent_iff hmid input.previous output).mpr (.inl ⟨hget, hfirst⟩)
    obtain rfl : output = previous := Option.some.inj (hstill.symm.trans hprevious)
    refine ⟨transaction, hmem, input, hinput, ?_, hauth⟩
    exact filter_eq_singleton honce (List.mem_flatMap.mpr ⟨transaction, hmem, hinput⟩)
  · intro outpoint output hget hfree
    rw [map_inputs] at hfree
    exact (hunspent outpoint output).mpr (.inl (.inl ⟨hget, hfree⟩))

/-- Spend authorisation and frame, on every reachable chain state. -/
theorem block_spends_authorised {params : NetworkParams} {verifier : ConsensusPowVerifier}
    {accepted : List AcceptedBlock} {state state' : ChainState} {block : Block}
    {context : BlockValidationContext} {fees : UInt64}
    (hrun : ChainRun P params verifier accepted state)
    (happly : state.validateAndApply P block context = .ok (fees, state')) :
    block.challenge.height = state.nextHeight ∧
      BlockSpends P params state.utxos block state'.utxos := by
  obtain ⟨validated, hvalid, -, rfl⟩ := validateAndApply_eq_ok.mp happly
  have hblock := validateBlock_validated hvalid
  refine ⟨hblock.height, ?_⟩
  rw [← hrun.constant.1]
  exact blockSpends_of_applied hblock.applied

theorem block_spends_authorised_sample :
    sampleBlock₂.challenge.height = sampleState₁.nextHeight ∧
      BlockSpends samplePlatform sampleParams sampleState₁.utxos sampleBlock₂
        sampleState₂.utxos :=
  block_spends_authorised (.step (.new sampleGenesis_new) sampleBlock₁_applied)
    sampleBlock₂_applied

end CommonFoundry
