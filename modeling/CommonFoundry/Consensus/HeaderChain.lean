/-
# `CommonFoundry.Consensus.HeaderChain` — timestamps and targets along a chain

A chain keeps the raw timestamps of its blocks and, beside them, a history that
the retarget reads: for each block the median of the last eleven raw timestamps,
and the target.  Raw timestamps may go back; a block is accepted when its timestamp
is greater than the median of the last eleven.

The median that goes into the history is then never smaller than the one before it
(`medianTimestamp_append`), so the order that the retarget insists on always
holds; no target is zero, since the retarget returns none; and so the retarget
succeeds on every accepted chain (`header_chain_invariant`).
-/
import CommonFoundry.Consensus.ChainRun
import CommonFoundry.Consensus.Retarget
import CommonFoundry.Lib.OrderStatistic

namespace CommonFoundry

open Lib Lib.Outcome

variable {P : Platform}

/-! ## Medians -/

theorem medianTimestamp_eq {timestamps : List UInt64} (h : timestamps ≠ [])
    (hwindow : timestamps.drop (timestamps.length - medianTimeWindow) ≠ []) :
    medianTimestamp timestamps h =
      upperMedian (timestamps.drop (timestamps.length - medianTimeWindow)) hwindow := by
  simp only [medianTimestamp, upperMedian, List.get_eq_getElem, List.length_insertionSort]

theorem window_ne_nil {timestamps : List UInt64} (h : timestamps ≠ []) :
    timestamps.drop (timestamps.length - medianTimeWindow) ≠ [] := by
  have hpos : 0 < timestamps.length := List.length_pos_iff.mpr h
  have hw : medianTimeWindow = 11 := rfl
  rw [← List.length_pos_iff, List.length_drop]
  omega

theorem medianTimestamp_singleton (timestamp : UInt64) :
    medianTimestamp [timestamp] (List.cons_ne_nil _ _) = timestamp := by
  simp [medianTimestamp, medianTimeWindow]

/-- A timestamp after the median does not lower the median. -/
theorem medianTimestamp_append {timestamps : List UInt64} (h : timestamps ≠ [])
    {timestamp : UInt64} (hafter : medianTimestamp timestamps h ≤ timestamp)
    (h' : timestamps ++ [timestamp] ≠ []) :
    medianTimestamp timestamps h ≤ medianTimestamp (timestamps ++ [timestamp]) h' := by
  have hw : medianTimeWindow = 11 := rfl
  have hpos : 0 < timestamps.length := List.length_pos_iff.mpr h
  have hdrop : (timestamps ++ [timestamp]).drop
      ((timestamps ++ [timestamp]).length - medianTimeWindow) =
        timestamps.drop (timestamps.length + 1 - medianTimeWindow) ++ [timestamp] := by
    rw [List.length_append, List.length_singleton, List.drop_append_of_le_length (by omega)]
  have hwindow' : timestamps.drop (timestamps.length + 1 - medianTimeWindow) ++ [timestamp] ≠ [] :=
    List.append_ne_nil_of_right_ne_nil _ (List.cons_ne_nil _ _)
  have hnew : medianTimestamp (timestamps ++ [timestamp]) h' =
      upperMedian (timestamps.drop (timestamps.length + 1 - medianTimeWindow) ++ [timestamp])
        hwindow' := by
    rw [medianTimestamp_eq h' (window_ne_nil h')]
    congr 1
  rw [medianTimestamp_eq h (window_ne_nil h)] at hafter ⊢
  rw [hnew]
  refine upperMedian_le_append (window_ne_nil h) ?_ hafter ?_
  · exact List.drop_sublist_drop_left _ (by omega)
  · rw [List.length_append, List.length_drop, List.length_drop, List.length_singleton]
    omega

/-- What goes into the history is the median of the timestamps up to the block. -/
theorem effectiveTimestamp_eq (state : ChainState) (timestamp : UInt64)
    (h : state.rawTimestamps ++ [timestamp] ≠ []) :
    state.effectiveTimestamp timestamp =
      medianTimestamp (state.rawTimestamps ++ [timestamp]) h := by
  have hw : medianTimeWindow = 11 := rfl
  have hdrop : ∀ keep : List UInt64, keep.length ≤ 10 →
      (keep ++ [timestamp]).drop ((keep ++ [timestamp]).length - medianTimeWindow) =
        keep ++ [timestamp] := by
    intro keep hkeep
    rw [List.length_append, List.length_singleton, Nat.sub_eq_zero_of_le (by omega), List.drop_zero]
  have hkeep : (state.rawTimestamps.drop
      (state.rawTimestamps.length - (medianTimeWindow - 1))).length ≤ 10 := by
    rw [List.length_drop]
    omega
  have hwindow : (state.rawTimestamps ++ [timestamp]).drop
      ((state.rawTimestamps ++ [timestamp]).length - medianTimeWindow) =
        state.rawTimestamps.drop (state.rawTimestamps.length - (medianTimeWindow - 1)) ++
          [timestamp] := by
    rw [List.length_append, List.length_singleton, List.drop_append_of_le_length (by omega)]
    congr 2
  have hne : state.rawTimestamps.drop (state.rawTimestamps.length - (medianTimeWindow - 1)) ++
      [timestamp] ≠ [] := List.append_ne_nil_of_right_ne_nil _ (List.cons_ne_nil _ _)
  rw [ChainState.effectiveTimestamp, medianTimestamp_eq hne (window_ne_nil hne),
    medianTimestamp_eq h (window_ne_nil h)]
  simp only [hdrop _ hkeep, hwindow]

/-! ## The retarget -/

/-- Only the zero bytes are the target zero. -/
theorem targetValue_ne_zero {target : Bytes32} (h : target ≠ zero32) : targetValue target ≠ 0 := by
  intro hzero
  refine h (Subtype.ext ?_)
  have hbytes := toLe_ofLe target.1.reverse
  rw [← ofBe, show ofBe target.1 = 0 from hzero, List.length_reverse, target.2] at hbytes
  have hreverse : target.1 = (toLe 32 0).reverse := by rw [hbytes, List.reverse_reverse]
  rw [hreverse]
  decide

/-- The retarget succeeds on an ordered history without zero targets, and its result
is in range. -/
theorem nextWorkTarget_ok {history : List HeaderWork} {powLimit : Bytes32}
    (hlimit : targetValue powLimit ≠ 0)
    (hordered : history.Pairwise fun older newer => older.timestamp ≤ newer.timestamp)
    (htargets : ∀ header ∈ history, targetValue header.target ≠ 0) :
    ∃ target, nextWorkTarget history powLimit = .ok target ∧ InRange powLimit target := by
  have hwindow : ∀ header ∈ averagingWindow history, targetValue header.target ≠ 0 :=
    fun header hmem => htargets header (List.mem_of_mem_drop hmem)
  have hsorted : timestampsOrdered (averagingWindow history) = true :=
    timestampsOrdered_iff.mpr hordered.drop
  exact ⟨_, nextWorkTarget_eq hlimit hsorted hwindow,
    (retargets_windowTarget hlimit hwindow).inRange⟩

/-! ## The invariant -/

/-- Each entry of the history is the median of the last eleven timestamps up to its
height, or of all of them when there are fewer. -/
def Medians (history : List HeaderWork) (timestamps : List UInt64) : Prop :=
  ∀ (position : Nat) (h : position < history.length), ∃ hne, history[position].timestamp =
    medianTimestamp (timestamps.take (position + 1)) hne

theorem medians_append {history : List HeaderWork} {timestamps : List UInt64}
    (h : Medians history timestamps) (hlength : history.length = timestamps.length)
    {header : HeaderWork} {timestamp : UInt64} (hne : timestamps ++ [timestamp] ≠ [])
    (hheader : header.timestamp = medianTimestamp (timestamps ++ [timestamp]) hne) :
    Medians (history ++ [header]) (timestamps ++ [timestamp]) := by
  intro position hposition
  by_cases hold : position < history.length
  · obtain ⟨hne', hentry⟩ := h position hold
    have htake : timestamps.take (position + 1) =
        (timestamps ++ [timestamp]).take (position + 1) :=
      (List.take_append_of_le_length (by omega)).symm
    refine ⟨htake ▸ hne', ?_⟩
    rw [List.getElem_append_left hold, hentry]
    congr 1
  · have hbound : position = history.length := by
      rw [List.length_append, List.length_singleton] at hposition
      omega
    subst hbound
    have htake : timestamps ++ [timestamp] =
        (timestamps ++ [timestamp]).take (history.length + 1) := by
      rw [List.take_of_length_le]
      rw [List.length_append, List.length_singleton]
      omega
    refine ⟨htake ▸ hne, ?_⟩
    rw [List.getElem_concat_length rfl, hheader]
    congr 1

/-- What holds of the headers of a chain. -/
structure HeaderChain (state : ChainState) : Prop where
  history_length : state.history.length = state.nextHeight.toNat
  timestamps_length : state.rawTimestamps.length = state.nextHeight.toNat
  medians : Medians state.history state.rawTimestamps
  nondecreasing : state.history.Pairwise fun older newer => older.timestamp ≤ newer.timestamp
  targets : ∀ header ∈ state.history, InRange state.params.powLimit header.target
  /-- The retarget never fails. -/
  retarget : ∃ target, state.expectedTarget = .ok target ∧ InRange state.params.powLimit target

theorem InRange.ne_zero {powLimit target : Bytes32} (h : InRange powLimit target) :
    targetValue target ≠ 0 := Nat.one_le_iff_ne_zero.mp h.1

theorem expectedTarget_ok {state : ChainState} (hlimit : targetValue state.params.powLimit ≠ 0)
    (hordered : state.history.Pairwise fun older newer => older.timestamp ≤ newer.timestamp)
    (htargets : ∀ header ∈ state.history, InRange state.params.powLimit header.target) :
    ∃ target, state.expectedTarget = .ok target ∧ InRange state.params.powLimit target := by
  obtain ⟨target, hok, hrange⟩ := nextWorkTarget_ok hlimit hordered
    fun header hmem => (htargets header hmem).ne_zero
  exact ⟨target, by rw [ChainState.expectedTarget, hok]; rfl, hrange⟩

theorem HeaderChain.new {params : NetworkParams} {verifier : ConsensusPowVerifier}
    {state : ChainState} (h : ChainState.new P params verifier = .ok state) :
    HeaderChain state := by
  simp only [ChainState.new, bind_eq_ok, require_eq_ok, mapErr_eq_ok, pure_eq_ok] at h
  obtain ⟨_, hvalid, _, -, rfl⟩ := h
  have hlimit : targetValue params.powLimit ≠ 0 := by
    simp only [NetworkParams.validateForBoundVerifier, NetworkParams.validateWithoutPow,
      bind_eq_ok, require_eq_ok] at hvalid
    obtain ⟨_, ⟨_, _, _, _, _, _, _, hne, _⟩, _⟩ := hvalid
    exact targetValue_ne_zero hne
  have htargets : ∀ header ∈ [{ timestamp := params.genesisTimestamp, target := params.powLimit :
      HeaderWork }], InRange params.powLimit header.target := by
    intro header hmem
    rw [List.mem_singleton.mp hmem]
    exact ⟨Nat.one_le_iff_ne_zero.mpr hlimit, le_rfl⟩
  refine ⟨rfl, rfl, ?_, List.pairwise_singleton _ _, htargets,
    expectedTarget_ok hlimit (List.pairwise_singleton _ _) htargets⟩
  intro position hposition
  obtain rfl : position = 0 := Nat.lt_one_iff.mp hposition
  exact ⟨List.cons_ne_nil _ _, (medianTimestamp_singleton _).symm⟩

/-- The header fields of an accepted block, and of the token for it. -/
theorem validateBlock_header {state : ChainState} {block : Block}
    {context : BlockValidationContext} {validated : ValidatedBlock}
    (h : state.validateBlock P block context = .ok validated) :
    ¬block.challenge.timestamp ≤ state.medianTimePast ∧
      validated.timestamp = block.challenge.timestamp ∧
      validated.effectiveTimestamp = state.effectiveTimestamp block.challenge.timestamp ∧
      validated.target = block.challenge.target := by
  simp only [ChainState.validateBlock, bind_eq_ok, require_eq_ok, okOr_eq_ok, pure_eq_ok] at h
  obtain ⟨_, _, _, _, _, _, _, _, _, _, _, _, _, hmedian, _, _, _, _, _, _, _, _, _, _, rfl⟩ := h
  exact ⟨hmedian, rfl, rfl, rfl⟩

/-- The last entry of the history is the median that the next block has to pass. -/
theorem HeaderChain.getLast {state : ChainState} (h : HeaderChain state) {header : HeaderWork}
    (hlast : header ∈ state.history.getLast?) : header.timestamp = state.medianTimePast := by
  rw [Option.mem_def, List.getLast?_eq_getElem?, List.getElem?_eq_some_iff] at hlast
  obtain ⟨hlt, rfl⟩ := hlast
  obtain ⟨hne, hmedian⟩ := h.medians (state.history.length - 1) hlt
  rw [hmedian, ChainState.medianTimePast]
  congr 1
  refine List.take_of_length_le ?_
  have hhistory := h.history_length
  have htimestamps := h.timestamps_length
  omega

/-- Effective timestamps stay in order when the next one is not before the median. -/
theorem HeaderChain.nondecreasing_advance {state : ChainState} {validated : ValidatedBlock}
    (h : HeaderChain state) (hafter : state.medianTimePast ≤ validated.effectiveTimestamp) :
    (state.advance validated).history.Pairwise
      fun older newer => older.timestamp ≤ newer.timestamp := by
  have htrans : IsTrans HeaderWork fun older newer => older.timestamp ≤ newer.timestamp :=
    ⟨fun _ _ _ hle hle' => UInt64.le_trans hle hle'⟩
  rw [← List.isChain_iff_pairwise]
  refine .append (List.isChain_iff_pairwise.mpr h.nondecreasing) (.singleton _) ?_
  intro last hlast next hnext
  obtain rfl := Option.some.inj hnext
  rw [h.getLast hlast]
  exact hafter

/-- An accepted block keeps it. -/
theorem HeaderChain.step {state : ChainState} {block : Block} {context : BlockValidationContext}
    {validated : ValidatedBlock} (h : HeaderChain state)
    (hvalid : state.validateBlock P block context = .ok validated) :
    HeaderChain (state.advance validated) := by
  obtain ⟨hmedian, htimestamp, heffective, htarget⟩ := validateBlock_header hvalid
  have hvalidated := validateBlock_validated hvalid
  obtain ⟨target, hexpected, hrange⟩ := h.retarget
  have hlimit : targetValue state.params.powLimit ≠ 0 := by
    have hpos := hrange.1
    have hle := hrange.2
    omega
  have hblock : InRange state.params.powLimit validated.target := by
    rw [htarget, ← Except.ok.inj (hexpected.symm.trans hvalidated.target)]
    exact hrange
  have hne : state.rawTimestamps ++ [block.challenge.timestamp] ≠ [] :=
    List.append_ne_nil_of_right_ne_nil _ (List.cons_ne_nil _ _)
  have hafter : state.medianTimePast ≤ validated.effectiveTimestamp := by
    rw [heffective, effectiveTimestamp_eq state _ hne]
    exact medianTimestamp_append state.rawTimestamps_ne
      (Std.le_of_lt (Std.not_le.mp hmedian)) hne
  have hhistory := h.history_length
  have htimestamps := h.timestamps_length
  have hordered := h.nondecreasing_advance hafter
  have htargets : ∀ header ∈ (state.advance validated).history,
      InRange state.params.powLimit header.target := by
    intro header hmem
    rcases List.mem_append.mp hmem with hmem | hmem
    · exact h.targets header hmem
    · rw [List.mem_singleton.mp hmem]
      exact hblock
  refine ⟨?_, ?_, ?_, hordered, htargets, expectedTarget_ok hlimit hordered htargets⟩
  · rw [ChainState.advance, List.length_append, hhistory, hvalidated.nextHeight]
    rfl
  · rw [ChainState.advance, List.length_append, htimestamps, hvalidated.nextHeight]
    rfl
  · refine medians_append h.medians (hhistory.trans htimestamps.symm) ?_ ?_
    · exact List.append_ne_nil_of_right_ne_nil _ (List.cons_ne_nil _ _)
    · simp only [htimestamp]
      exact heffective.trans (effectiveTimestamp_eq state _ hne)

theorem ChainRun.headerChain {params : NetworkParams} {verifier : ConsensusPowVerifier}
    {accepted : List AcceptedBlock} {state : ChainState}
    (h : ChainRun P params verifier accepted state) : HeaderChain state := by
  induction h with
  | new hnew => exact .new hnew
  | step _ happly ih =>
      obtain ⟨validated, hvalid, -, rfl⟩ := validateAndApply_eq_ok.mp happly
      exact ih.step hvalid

/-- In every reachable chain state the headers are in order, and the retarget
succeeds. -/
theorem header_chain_invariant {params : NetworkParams} {verifier : ConsensusPowVerifier}
    {accepted : List AcceptedBlock} {state : ChainState}
    (h : ChainRun P params verifier accepted state) : HeaderChain state :=
  h.headerChain

/-- After the two sample blocks. -/
theorem header_chain_invariant_sample : HeaderChain sampleState₂ :=
  header_chain_invariant sampleRun

end CommonFoundry
