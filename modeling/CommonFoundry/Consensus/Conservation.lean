/-
# `CommonFoundry.Consensus.Conservation` — no value is created but the subsidy

Over any run of accepted blocks, what is unspent and what was burned as fees
together are the scheduled subsidies, as exact natural numbers
(`chain_value_conserved`).

One block: its transactions turn unspent value into fees and nothing else
(`TransactionsApplied.value`), and its coinbase adds the shares of the height's
allocation, whose sum is the subsidy (`MonetaryPolicy.allocation_exact`).
-/
import Mathlib.Algebra.BigOperators.Intervals
import CommonFoundry.Consensus.ChainRun

namespace CommonFoundry

open Lib Lib.Outcome Lib.Ledger

variable {P : Platform}

/-- The subsidies of the heights `1 .. nextHeight - 1`. -/
def scheduledSubsidies (policy : MonetaryPolicy) (nextHeight : Nat) : Nat :=
  ∑ height ∈ Finset.Ico 1 nextHeight, (policy.subsidyUnchecked (UInt64.ofNat height)).toNat

/-- The fees of all accepted blocks. -/
def burnedFees (accepted : List AcceptedBlock) : Nat :=
  (accepted.map fun entry => entry.fees.toNat).sum

/-! ## One block -/

/-- What the arithmetic of one accepted block comes to, in natural numbers. -/
structure ExactBlock (policy : MonetaryPolicy) (block : Block) : Prop where
  outputs : ∀ transaction ∈ block.transactions, valueOf transaction.outputs < 2 ^ 64
  coinbase : valueOf block.coinbase.outputs =
    (policy.subsidyUnchecked block.challenge.height).toNat
  maturity : ∀ output ∈ block.coinbase.outputs.head?,
    output.spendableHeight.toNat = block.challenge.height.toNat + coinbaseMaturity.toNat

theorem exactBlock_of_validated {state : ChainState} {block : Block}
    {context : BlockValidationContext} {validated : ValidatedBlock}
    (h : BlockValidated P state block context validated) :
    ExactBlock state.params.monetaryPolicy block := by
  obtain ⟨applied, happlied, -, -⟩ := h.applied.transactions
  obtain ⟨allocation, destination, hallocation, houtputs⟩ := h.applied.coinbase
  refine ⟨(applyTransactions_inPlace happlied).outputs_lt, ?_, ?_⟩
  · rw [houtputs, coinbase_value]
    exact (MonetaryPolicy.allocation_exact hallocation).1
  · intro output hmem
    rw [houtputs] at hmem
    obtain rfl := Option.some.inj hmem
    rw [h.coinbaseHeight, h.height]
    exact toNat_saturatingAdd h.maturity

/-- A block moves value into its fees and adds the subsidy of its height. -/
theorem totalValue_step {state : ChainState} {block : Block} {context : BlockValidationContext}
    {validated : ValidatedBlock} (h : BlockValidated P state block context validated) :
    (state.advance validated).utxos.totalValue + validated.fees.toNat =
      state.utxos.totalValue +
        (state.params.monetaryPolicy.subsidyUnchecked state.nextHeight).toNat := by
  obtain ⟨applied, happlied, hfees, hcoinbase⟩ := h.applied.transactions
  have htransactions : applied.view.totalValue + applied.fee.toNat =
      state.utxos.totalValue + 0 := (applyTransactions_inPlace happlied).value
  have hstep : (state.advance validated).utxos.totalValue + 0 =
      applied.view.totalValue +
        ((block.coinbaseEntry P).created.map fun kv => outputValue kv.2).sum :=
    hcoinbase.weight_add
  have hcreated : ((block.coinbaseEntry P).created.map fun kv => outputValue kv.2).sum =
      valueOf block.coinbase.outputs := map_outpointsOf outputValue _ _ ▸ rfl
  rw [hcreated, (exactBlock_of_validated h).coinbase, h.height] at hstep
  rw [← hfees]
  omega

/-! ## Runs -/

section Chain

variable {params : NetworkParams} {verifier : ConsensusPowVerifier}
  {accepted : List AcceptedBlock} {state : ChainState}

theorem ChainRun.exact (h : ChainRun P params verifier accepted state) :
    ∀ entry ∈ accepted, ExactBlock params.monetaryPolicy entry.block := by
  induction h with
  | new _ => exact fun _ hmem => by cases hmem
  | step hrun happly ih =>
      obtain ⟨validated, hvalid, -, -⟩ := validateAndApply_eq_ok.mp happly
      intro entry hmem
      rcases List.mem_append.mp hmem with hmem | hmem
      · exact ih entry hmem
      · obtain rfl := List.mem_singleton.mp hmem
        rw [← hrun.constant.1]
        exact exactBlock_of_validated (validateBlock_validated hvalid)

theorem ChainRun.totalValue (h : ChainRun P params verifier accepted state) :
    state.utxos.totalValue + burnedFees accepted =
      scheduledSubsidies params.monetaryPolicy state.nextHeight.toNat := by
  induction h with
  | new hnew =>
      obtain ⟨-, -, -, -, hutxos, -, hheight⟩ := new_eq_ok hnew
      rw [hutxos, hheight]
      rfl
  | @step accepted state state' block context fees hrun happly ih =>
      obtain ⟨validated, hvalid, rfl, rfl⟩ := validateAndApply_eq_ok.mp happly
      have hblock := validateBlock_validated hvalid
      have hvalue := totalValue_step hblock
      have hheight : (state.advance validated).nextHeight.toNat = state.nextHeight.toNat + 1 :=
        hblock.nextHeight
      have hpositive : 1 ≤ state.nextHeight.toNat := by
        rw [hrun.nextHeight]
        omega
      have hfees : burnedFees (accepted ++ [⟨block, context, validated.fees⟩]) =
          burnedFees accepted + validated.fees.toNat := by
        rw [burnedFees, List.map_append, List.sum_append]
        rfl
      rw [hrun.constant.1] at hvalue
      rw [hheight, scheduledSubsidies, Finset.sum_Ico_succ_top hpositive, ← scheduledSubsidies,
        ← ih, hfees, UInt64.ofNat_toNat]
      omega

/-- Value conservation over whole runs. -/
theorem chain_value_conserved (h : ChainRun P params verifier accepted state) :
    state.utxos.totalValue + burnedFees accepted =
        scheduledSubsidies params.monetaryPolicy state.nextHeight.toNat ∧
      (∀ height, params.monetaryPolicy.subsidy height =
        .ok (params.monetaryPolicy.subsidyUnchecked height)) ∧
      state.nextHeight.toNat = accepted.length + 1 ∧
      ∀ entry ∈ accepted, ExactBlock params.monetaryPolicy entry.block := by
  refine ⟨h.totalValue, fun height => ?_, h.nextHeight, h.exact⟩
  rw [MonetaryPolicy.subsidy, h.policy]
  rfl

theorem chain_value_conserved_sample :
    sampleState₂.utxos.totalValue + burnedFees sampleAccepted =
        scheduledSubsidies sampleParams.monetaryPolicy 3 ∧
      burnedFees sampleAccepted = 10000 := by
  have h := (chain_value_conserved sampleRun).1
  rw [sampleRun.nextHeight] at h
  exact ⟨h, rfl⟩

end Chain

end CommonFoundry
