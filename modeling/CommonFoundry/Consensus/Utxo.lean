/-
# `CommonFoundry.Consensus.Utxo` — the unspent set, its deltas and its overlay

`UtxoSet`, `UtxoDelta` and `UtxoOverlay` of `chain.rs`.  The rules of the next
module read and stage through six operations, collected in `UtxoView`; the node
runs them on an overlay, whose staged changes become a delta.  The same six
operations on the set itself, in place, are the second instance.

The two agree: `UtxoOverlay.view`, the base with the delta applied to it, commutes
with all six (`Refines`), on every overlay that was staged over its base.  So what
is proved of the rules in place holds of the delta they leave behind.
-/
import CommonFoundry.Lib.Delta
import CommonFoundry.Lib.Weight
import CommonFoundry.Consensus.Transaction

namespace CommonFoundry

open Lib Lib.Outcome

/-! ## The set -/

/-- The outputs, and the two registries of channel identifiers. -/
structure UtxoSet where
  outputs : Finmap fun _ : OutPoint => TxOutput
  activeChannels : Finset Bytes32
  retiredChannels : Finset Bytes32
  deriving DecidableEq

namespace UtxoSet

/-- `UtxoSet::default()`. -/
def empty : UtxoSet := { outputs := ∅, activeChannels := ∅, retiredChannels := ∅ }

def get (utxos : UtxoSet) (outpoint : OutPoint) : Option TxOutput := utxos.outputs.lookup outpoint

/-- Nothing is unspent under an identifier that no outpoint has. -/
theorem get_eq_none_of_txid {utxos : UtxoSet} {txid : Bytes32}
    (h : ∀ entry ∈ utxos.outputs.entries, entry.1.txid ≠ txid) (index : UInt32) :
    utxos.get { txid, index } = none :=
  lookup_eq_none_of_keys fun entry hmem heq => h entry hmem (congrArg OutPoint.txid heq)

end UtxoSet

/-- `OutputChange` and `MembershipChange` are the two instances of `Change`. -/
structure UtxoDelta where
  outputs : Delta OutPoint (Option TxOutput)
  activeChannels : Delta Bytes32 Bool
  retiredChannels : Delta Bytes32 Bool

namespace UtxoDelta

/-- `UtxoDelta::default()`. -/
def empty : UtxoDelta := { outputs := ∅, activeChannels := ∅, retiredChannels := ∅ }

/-- `UtxoDelta::matches`. -/
def Matches (delta : UtxoDelta) (utxos : UtxoSet) : Prop :=
  delta.outputs.Matches utxos.outputs ∧ delta.activeChannels.Matches utxos.activeChannels ∧
    delta.retiredChannels.Matches utxos.retiredChannels

instance (delta : UtxoDelta) (utxos : UtxoSet) : Decidable (delta.Matches utxos) :=
  inferInstanceAs (Decidable (_ ∧ _ ∧ _))

/-- `UtxoDelta::apply`. -/
def apply (delta : UtxoDelta) (utxos : UtxoSet) : UtxoSet where
  outputs := delta.outputs.apply utxos.outputs
  activeChannels := delta.activeChannels.apply utxos.activeChannels
  retiredChannels := delta.retiredChannels.apply utxos.retiredChannels

end UtxoDelta

structure UtxoOverlay where
  base : UtxoSet
  delta : UtxoDelta

/-! ## What the rules read and stage -/

/-- The operations of `UtxoOverlay` that the transaction rules use. -/
class UtxoView (σ : Type) where
  get : σ → OutPoint → Option TxOutput
  containsActiveChannel : σ → Bytes32 → Bool
  containsRetiredChannel : σ → Bytes32 → Bool
  stageOutput : σ → OutPoint → Option TxOutput → σ
  stageActiveChannel : σ → Bytes32 → Bool → σ
  stageRetiredChannel : σ → Bytes32 → Bool → σ

namespace UtxoOverlay

def new (base : UtxoSet) : UtxoOverlay := { base, delta := .empty }

instance : UtxoView UtxoOverlay where
  get overlay := overlay.delta.outputs.get overlay.base.outputs
  containsActiveChannel overlay := overlay.delta.activeChannels.get overlay.base.activeChannels
  containsRetiredChannel overlay := overlay.delta.retiredChannels.get overlay.base.retiredChannels
  stageOutput overlay outpoint next :=
    { overlay with
      delta.outputs := overlay.delta.outputs.stage overlay.base.outputs outpoint next }
  stageActiveChannel overlay channelId next :=
    { overlay with
      delta.activeChannels :=
        overlay.delta.activeChannels.stage overlay.base.activeChannels channelId next }
  stageRetiredChannel overlay channelId next :=
    { overlay with
      delta.retiredChannels :=
        overlay.delta.retiredChannels.stage overlay.base.retiredChannels channelId next }

end UtxoOverlay

/-- The same operations in place. -/
instance : UtxoView UtxoSet where
  get utxos := Store.get utxos.outputs
  containsActiveChannel utxos := Store.get utxos.activeChannels
  containsRetiredChannel utxos := Store.get utxos.retiredChannels
  stageOutput utxos outpoint next := { utxos with outputs := Store.set utxos.outputs outpoint next }
  stageActiveChannel utxos channelId next :=
    { utxos with activeChannels := Store.set utxos.activeChannels channelId next }
  stageRetiredChannel utxos channelId next :=
    { utxos with retiredChannels := Store.set utxos.retiredChannels channelId next }

/-! ## The overlay refines the set -/

/-- `view` commutes with the six operations on the states where `ok` holds, and
staging stays among them. -/
structure UtxoView.Refines {σ τ : Type} [UtxoView σ] [UtxoView τ] (ok : σ → Prop) (view : σ → τ) :
    Prop where
  get (s : σ) : UtxoView.get (view s) = UtxoView.get s
  containsActiveChannel (s : σ) :
    UtxoView.containsActiveChannel (view s) = UtxoView.containsActiveChannel s
  containsRetiredChannel (s : σ) :
    UtxoView.containsRetiredChannel (view s) = UtxoView.containsRetiredChannel s
  stageOutput {s : σ} (outpoint : OutPoint) (next : Option TxOutput) : ok s →
    ok (UtxoView.stageOutput s outpoint next) ∧
      view (UtxoView.stageOutput s outpoint next) = UtxoView.stageOutput (view s) outpoint next
  stageActiveChannel {s : σ} (channelId : Bytes32) (next : Bool) : ok s →
    ok (UtxoView.stageActiveChannel s channelId next) ∧
      view (UtxoView.stageActiveChannel s channelId next) =
        UtxoView.stageActiveChannel (view s) channelId next
  stageRetiredChannel {s : σ} (channelId : Bytes32) (next : Bool) : ok s →
    ok (UtxoView.stageRetiredChannel s channelId next) ∧
      view (UtxoView.stageRetiredChannel s channelId next) =
        UtxoView.stageRetiredChannel (view s) channelId next

namespace UtxoOverlay

/-- The set an overlay stands for. -/
def view (overlay : UtxoOverlay) : UtxoSet := overlay.delta.apply overlay.base

/-- The overlay of `base` holds exactly changes of it. -/
structure Staged (base : UtxoSet) (overlay : UtxoOverlay) : Prop where
  base_eq : overlay.base = base
  outputs : Delta.StagedOver base.outputs overlay.delta.outputs
  activeChannels : Delta.StagedOver base.activeChannels overlay.delta.activeChannels
  retiredChannels : Delta.StagedOver base.retiredChannels overlay.delta.retiredChannels

theorem staged_new (base : UtxoSet) : Staged base (new base) where
  base_eq := rfl
  outputs := Delta.stagedOver_empty _
  activeChannels := Delta.stagedOver_empty _
  retiredChannels := Delta.stagedOver_empty _

theorem view_new (base : UtxoSet) : (new base).view = base := by
  obtain ⟨outputs, active, retired⟩ := base
  simp only [view, new, UtxoDelta.apply, UtxoDelta.empty, Delta.apply_empty]

/-- A delta staged over a base matches that base. -/
theorem Staged.matches {base : UtxoSet} {overlay : UtxoOverlay} (h : Staged base overlay) :
    overlay.delta.Matches base :=
  ⟨Delta.matches_of_stagedOver h.outputs, Delta.matches_of_stagedOver h.activeChannels,
    Delta.matches_of_stagedOver h.retiredChannels⟩

theorem refines (base : UtxoSet) : UtxoView.Refines (Staged base) view where
  get overlay := funext fun outpoint => Delta.get_apply _ _ outpoint
  containsActiveChannel overlay := funext fun channelId => Delta.get_apply _ _ channelId
  containsRetiredChannel overlay := funext fun channelId => Delta.get_apply _ _ channelId
  stageOutput {overlay} outpoint next h := by
    obtain ⟨rfl, houtputs, hactive, hretired⟩ := h
    refine ⟨⟨rfl, Delta.stagedOver_stage houtputs _ _, hactive, hretired⟩, ?_⟩
    simp only [view, UtxoDelta.apply, UtxoView.stageOutput, Delta.apply_stage houtputs]
  stageActiveChannel {overlay} channelId next h := by
    obtain ⟨rfl, houtputs, hactive, hretired⟩ := h
    refine ⟨⟨rfl, houtputs, Delta.stagedOver_stage hactive _ _, hretired⟩, ?_⟩
    simp only [view, UtxoDelta.apply, UtxoView.stageActiveChannel, Delta.apply_stage hactive]
  stageRetiredChannel {overlay} channelId next h := by
    obtain ⟨rfl, houtputs, hactive, hretired⟩ := h
    refine ⟨⟨rfl, houtputs, hactive, Delta.stagedOver_stage hretired _ _⟩, ?_⟩
    simp only [view, UtxoDelta.apply, UtxoView.stageRetiredChannel, Delta.apply_stage hretired]

end UtxoOverlay

end CommonFoundry
