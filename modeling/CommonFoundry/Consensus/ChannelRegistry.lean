/-
# `CommonFoundry.Consensus.ChannelRegistry` — a channel identifier is used once

In every reachable chain state the active channels are those that lock an
unspent output, one output each, and no channel is both active and retired.
Retired channels stay retired, and no accepted block funds a channel that was
known before the block or became known earlier in it.

The invariant is `Lib.Ledger.Registered` at the unspent set, whose label is the
channel an output is locked to; it holds of the empty set and every accepted
block is a ledger run.
-/
import CommonFoundry.Consensus.ChainRun

namespace CommonFoundry

open Lib Lib.Outcome Lib.Ledger

variable {P : Platform}

/-- The channels a transaction funds. -/
def Transaction.funded (transaction : Transaction) : List Bytes32 :=
  transaction.outputs.filterMap TxOutput.channel

/-- The channels a block funds, its coinbase included. -/
def Block.funded (block : Block) : List Bytes32 :=
  block.transactions.flatMap Transaction.funded ++
    block.coinbase.outputs.filterMap TxOutput.channel

/-- The registries are in step with the unspent outputs: the active channels are
the ones that lock an unspent output, one output each. -/
structure UtxoSet.ChannelsRegistered (utxos : UtxoSet) : Prop where
  active_iff : ∀ channelId, channelId ∈ utxos.activeChannels ↔
    ∃ outpoint output, utxos.get outpoint = some output ∧
      output.lock = .inferenceChannel channelId
  unique : ∀ outpoint outpoint' output output' channelId,
    utxos.get outpoint = some output → utxos.get outpoint' = some output' →
    output.lock = .inferenceChannel channelId → output'.lock = .inferenceChannel channelId →
    outpoint = outpoint'
  disjoint : Disjoint utxos.activeChannels utxos.retiredChannels

theorem channel_eq_some {output : TxOutput} {channelId : Bytes32} :
    output.channel = some channelId ↔ output.lock = .inferenceChannel channelId := by
  rw [TxOutput.channel]
  cases output.lock with
  | key owner => simp
  | inferenceChannel id => simp

theorem channelsRegistered_of_registered {utxos : UtxoSet}
    (h : Registered TxOutput.channel utxos.ledger) : utxos.ChannelsRegistered := by
  refine ⟨fun channelId => ?_, ?_, h.disjoint⟩
  · simp only [← channel_eq_some]
    exact h.active_iff channelId
  · intro outpoint outpoint' output output' channelId hget hget' hlock hlock'
    exact h.unique hget hget' (channel_eq_some.mpr hlock) (channel_eq_some.mpr hlock')

/-- What the ledger entries of a block open is what the block funds. -/
theorem opens_entries (block : Block) :
    (block.entries P).flatMap (Entry.opens TxOutput.channel) = block.funded := by
  rw [Block.entries, List.flatMap_append, List.flatMap_map, List.flatMap_singleton, Block.funded]
  congr 1
  · refine List.flatMap_congr fun transaction _ => ?_
    exact opens_outpointsOf (transaction.txid P) transaction.outputs
  · exact opens_outpointsOf (block.coinbaseOutpointId P) block.coinbase.outputs

/-- What an accepted block does to the registries. -/
structure BlockChannels (P : Platform) (params : NetworkParams) (utxos : UtxoSet) (block : Block)
    (utxos' : UtxoSet) : Prop where
  /-- Retired channels stay retired. -/
  retired : utxos.retiredChannels ⊆ utxos'.retiredChannels
  /-- No channel is funded twice. -/
  once : block.funded.Nodup
  /-- No funded channel was known before the block. -/
  fresh : ∀ channelId ∈ block.funded,
    channelId ∉ utxos.activeChannels ∧ channelId ∉ utxos.retiredChannels
  /-- No channel is funded that is known where its transaction stands. -/
  freshInBlock : ∀ pre transaction post, block.transactions = pre ++ transaction :: post →
    ∃ before : Applied UtxoSet,
      applyTransactions P block.challenge.height params.networkId
          { fee := 0, view := utxos, spent := ∅ } pre = .ok before ∧
        ∀ channelId ∈ transaction.funded, channelId ∉ before.view.activeChannels ∧
          channelId ∉ before.view.retiredChannels

theorem blockChannels_of_applied {params : NetworkParams} {utxos utxos' : UtxoSet}
    {block : Block} {fees : UInt64} (h : BlockApplied P params utxos block fees utxos')
    (hutxos : Registered TxOutput.channel utxos.ledger) :
    BlockChannels P params utxos block utxos' := by
  obtain ⟨hnodup, hfresh⟩ := h.run.opens_fresh hutxos
  rw [opens_entries] at hnodup hfresh
  refine ⟨h.run.retired_mono, hnodup, hfresh, fun pre transaction post hsplit => ?_⟩
  obtain ⟨applied, happlied, -, -⟩ := h.transactions
  rw [hsplit] at happlied
  obtain ⟨before, hbefore, hafter⟩ := applyTransactions_append.mp happlied
  obtain ⟨one, _, hone, _, _⟩ := applyTransactions_cons.mp hafter
  refine ⟨before, hbefore, ?_⟩
  have hopens := (applyTransaction_inPlace hone).step.opens_fresh
  rw [show (transaction.entry P).opens TxOutput.channel = transaction.funded from
    opens_outpointsOf _ _] at hopens
  exact hopens

section Chain

variable {params : NetworkParams} {verifier : ConsensusPowVerifier}
  {accepted : List AcceptedBlock} {state : ChainState}

theorem registered_empty : Registered TxOutput.channel UtxoSet.empty.ledger := by
  refine ⟨fun c => ⟨fun hmem => absurd hmem (Finset.notMem_empty c), ?_⟩, ?_,
    Finset.disjoint_empty_left _⟩
  · rintro ⟨outpoint, output, hget, _⟩
    cases hget
  · intro k k' v v' c hget
    cases hget

theorem ChainRun.registered (h : ChainRun P params verifier accepted state) :
    Registered TxOutput.channel state.utxos.ledger := by
  induction h with
  | new hnew =>
      rw [(new_eq_ok hnew).2.2.2.2.1]
      exact registered_empty
  | step _ happly ih =>
      obtain ⟨validated, hvalid, -, rfl⟩ := validateAndApply_eq_ok.mp happly
      exact (validateBlock_validated hvalid).applied.run.registered ih

/-- The registry invariant of every reachable state, and what the next accepted
block, whichever it is, does to the registries. -/
theorem channel_registry_invariant (hrun : ChainRun P params verifier accepted state) :
    state.utxos.ChannelsRegistered ∧
      ∀ block context fees state',
        state.validateAndApply P block context = .ok (fees, state') →
          BlockChannels P params state.utxos block state'.utxos := by
  refine ⟨channelsRegistered_of_registered hrun.registered, ?_⟩
  intro block context fees state' happly
  obtain ⟨validated, hvalid, -, rfl⟩ := validateAndApply_eq_ok.mp happly
  rw [← hrun.constant.1]
  exact blockChannels_of_applied (validateBlock_validated hvalid).applied hrun.registered

theorem channel_registry_invariant_sample :
    sampleState₂.utxos.ChannelsRegistered ∧ sampleChannel ∈ sampleState₂.utxos.activeChannels ∧
      BlockChannels samplePlatform sampleParams sampleState₁.utxos sampleBlock₂
        sampleState₂.utxos :=
  ⟨(channel_registry_invariant sampleRun).1, by decide +kernel,
    (channel_registry_invariant (.step (.new sampleGenesis_new) sampleBlock₁_applied)).2 _ _ _ _
      sampleBlock₂_applied⟩

end Chain

end CommonFoundry
