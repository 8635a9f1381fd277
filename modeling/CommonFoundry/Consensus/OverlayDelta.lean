/-
# `CommonFoundry.Consensus.OverlayDelta` — the overlay and its delta against the set in place

The reference is the same loop with a mutable map: each transaction is applied to
the unspent set itself, one after another, and the outputs of the coinbase are
inserted last.  The overlay stages the same changes beside a base it does not
touch.

`overlay_refines_inPlace` compares the two for every base, height, list of
transactions and coinbase: one fails exactly when the other does, with the same
error; and when they succeed, the delta turns the base into the set that the loop
in place leaves, matches the base, and has an entry for a key exactly when the
answer for that key has changed.  Whatever was created and spent, or opened and
closed, within the list is not in it.
-/
import CommonFoundry.Consensus.ChainRun

namespace CommonFoundry

open Lib Lib.Outcome

variable {P : Platform}

/-- The transactions, then the outputs of a coinbase under an identifier. -/
def applyAll {σ : Type} [UtxoView σ] (P : Platform) (view : σ) (height : UInt64)
    (networkId : Bytes32) (transactions : List Transaction) (coinbaseId : Bytes32)
    (coinbase : List TxOutput) : Outcome ChainError (UInt64 × σ) := do
  let applied ← applyTransactions P height networkId { fee := 0, view, spent := ∅ } transactions
  let view ← insertOutputs applied.view coinbaseId coinbase
  pure (applied.fee, view)

theorem applyAll_refines {σ τ : Type} [UtxoView σ] [UtxoView τ] {ok : σ → Prop} {view : σ → τ}
    (R : UtxoView.Refines ok view) {s : σ} (hs : ok s) (height : UInt64) (networkId : Bytes32)
    (transactions : List Transaction) (coinbaseId : Bytes32) (coinbase : List TxOutput) :
    Tracks (fun result => ok result.2) (fun result : UInt64 × σ => (result.1, view result.2))
      (applyAll P s height networkId transactions coinbaseId coinbase)
      (applyAll P (view s) height networkId transactions coinbaseId coinbase) := by
  refine (applyTransactions_refines R P hs height networkId transactions).bind ?_
  intro applied happlied
  refine (insertOutputs_refines R happlied coinbaseId coinbase).bind ?_
  intro candidate hcandidate
  exact Tracks.pure (f := fun result : UInt64 × σ => (result.1, view result.2))
    (a := (applied.fee, candidate)) hcandidate

/-- The delta takes `base` to `final`, and holds nothing else. -/
structure ExactDelta (base final : UtxoSet) (delta : UtxoDelta) : Prop where
  apply : delta.apply base = final
  matches_base : delta.Matches base
  outputs : ∀ outpoint, outpoint ∈ delta.outputs ↔ final.get outpoint ≠ base.get outpoint
  activeChannels : ∀ channelId, channelId ∈ delta.activeChannels ↔
    ¬(channelId ∈ final.activeChannels ↔ channelId ∈ base.activeChannels)
  retiredChannels : ∀ channelId, channelId ∈ delta.retiredChannels ↔
    ¬(channelId ∈ final.retiredChannels ↔ channelId ∈ base.retiredChannels)

theorem UtxoOverlay.Staged.exact {base : UtxoSet} {overlay : UtxoOverlay}
    (h : UtxoOverlay.Staged base overlay) : ExactDelta base overlay.view overlay.delta := by
  have hmembership : ∀ {a b : Prop} [Decidable a] [Decidable b],
      decide a ≠ decide b ↔ ¬(a ↔ b) := by
    intro a b _ _
    rw [ne_eq, decide_eq_decide]
  have hview : overlay.view = overlay.delta.apply base := by
    rw [UtxoOverlay.view, h.base_eq]
  rw [hview]
  refine ⟨rfl, h.matches, fun outpoint => ?_, fun channelId => ?_, fun channelId => ?_⟩
  · exact Delta.mem_iff_of_stagedOver h.outputs outpoint
  · exact (Delta.mem_iff_of_stagedOver h.activeChannels channelId).trans hmembership
  · exact (Delta.mem_iff_of_stagedOver h.retiredChannels channelId).trans hmembership

/-- A run on the overlay of `base` and a run on `base` itself: they fail alike, and
the one returns an exact delta for what the other leaves. -/
structure RefinesInPlace (base : UtxoSet) (staged : Outcome ChainError (UInt64 × UtxoOverlay))
    (inPlace : Outcome ChainError (UInt64 × UtxoSet)) : Prop where
  fails : ∀ fault, staged = .error fault ↔ inPlace = .error fault
  succeeds : ∀ fees final, inPlace = .ok (fees, final) ↔
    ∃ overlay, staged = .ok (fees, overlay) ∧ ExactDelta base final overlay.delta

theorem RefinesInPlace.of_tracks {base : UtxoSet}
    {staged : Outcome ChainError (UInt64 × UtxoOverlay)}
    {inPlace : Outcome ChainError (UInt64 × UtxoSet)}
    (h : Tracks (fun result => UtxoOverlay.Staged base result.2)
      (fun result : UInt64 × UtxoOverlay => (result.1, result.2.view)) staged inPlace) :
    RefinesInPlace base staged inPlace := by
  obtain ⟨rfl, hstaged⟩ := h
  cases staged with
  | error fault =>
      refine ⟨fun other => ⟨fun heq => heq ▸ rfl, fun heq => ?_⟩, fun fees final =>
        ⟨nofun, fun ⟨overlay, heq, _⟩ => nomatch heq⟩⟩
      cases heq
      rfl
  | ok result =>
      obtain ⟨fees, overlay⟩ := result
      have hexact := (hstaged (fees, overlay) rfl).exact
      refine ⟨fun fault => ⟨nofun, nofun⟩, fun fees' final => ⟨?_, ?_⟩⟩
      · intro heq
        cases heq
        exact ⟨overlay, rfl, hexact⟩
      · rintro ⟨overlay', heq, hfinal⟩
        cases heq
        show Except.ok (fees, overlay.view) = Except.ok (fees, final)
        rw [← hfinal.apply, hexact.apply]

/-- The overlay, and the delta it leaves, refine the application in place: for the
bare loops, and for a whole block with the checks of its coinbase. -/
theorem overlay_refines_inPlace (state : ChainState) (height : UInt64) (networkId : Bytes32)
    (transactions : List Transaction) (coinbaseId : Bytes32) (coinbase : List TxOutput)
    (block : Block) :
    RefinesInPlace state.utxos
        (applyAll P (UtxoOverlay.new state.utxos) height networkId transactions coinbaseId coinbase)
        (applyAll P state.utxos height networkId transactions coinbaseId coinbase) ∧
      RefinesInPlace state.utxos
        (applyBlock P (UtxoOverlay.new state.utxos) block state.params)
        (applyBlock P state.utxos block state.params) := by
  have hnew := UtxoOverlay.staged_new state.utxos
  have hrefines := UtxoOverlay.refines state.utxos
  constructor
  · have htracks := applyAll_refines (P := P) hrefines hnew height networkId transactions coinbaseId
      coinbase
    rw [UtxoOverlay.view_new] at htracks
    exact .of_tracks htracks
  · have htracks := applyBlock_refines (P := P) hrefines hnew block state.params
    rw [UtxoOverlay.view_new] at htracks
    exact .of_tracks htracks

end CommonFoundry
