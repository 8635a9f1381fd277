/-
# `CommonFoundry.Consensus.Preflight` — a transaction set and the block that carries it

`validate_transactions_for_next_block` tries a transaction set against the state,
`validate_block` a whole block.  Both check the resources, the headers and the
encodings, and both apply the transactions on an overlay: `preflight_eq_ok` says
what the first of them comes to, in place.

A block with the right header, the canonical coinbase and an accepted proof
(`Candidate`) can fail for its coinbase alone: for an output that would be worth
nothing, and for a community share that stands where the validator looks for the
steward's.  So the two agree exactly where the canonical coinbase of the next
height has neither (`preflight_agrees_iff`).
-/
import CommonFoundry.Consensus.BlockSize
import CommonFoundry.Consensus.TwoPhaseCommit

namespace CommonFoundry

open Lib Lib.Outcome

variable {P : Platform}

/-! ## Resources -/

/-- The signatures a transaction costs. -/
def Transaction.signatureChecks (transaction : Transaction) : Nat :=
  (transaction.inputs.map (·.witness.signatureChecks)).sum

/-- A transaction set within the four limits of a block. -/
structure WithinLimits (transactions : List Transaction) : Prop where
  count : transactions.length ≤ maxBlockTransactions
  inputs : (transactions.map (·.inputs.length)).sum ≤ maxBlockAggregateInputs
  outputs : (transactions.map (·.outputs.length)).sum ≤ maxBlockAggregateOutputs
  signatures : (transactions.map (·.signatureChecks)).sum ≤ maxBlockSignatureChecks

/-- The limits of one transaction, and the length of its signatures. -/
structure Transaction.Sized (transaction : Transaction) : Prop where
  inputs : transaction.inputs.length ≤ maxTransactionInputs
  outputs : transaction.outputs.length ≤ maxTransactionOutputs
  signatures : ∀ input ∈ transaction.inputs, checkSignatureLengths input.witness = .ok ()

theorem addTransactionResources_eq_ok {totals totals' : TransactionSetValidation}
    {transaction : Transaction} :
    addTransactionResources totals transaction = .ok totals' ↔ transaction.Sized ∧
      totals' = { totals with
        aggregateInputs := totals.aggregateInputs + transaction.inputs.length
        aggregateOutputs := totals.aggregateOutputs + transaction.outputs.length
        signatureChecks := totals.signatureChecks + transaction.signatureChecks } := by
  have hloop : ∀ (inputs : List TxInput) (total total' : Nat),
      inputs.foldlM (fun total input => (do
        checkSignatureLengths input.witness
        pure (total + input.witness.signatureChecks) : Outcome ChainError Nat)) total =
          .ok total' ↔
      (∀ input ∈ inputs, checkSignatureLengths input.witness = .ok ()) ∧
        total' = total + (inputs.map (·.witness.signatureChecks)).sum := by
    intro inputs
    induction inputs with
    | nil =>
        intro total total'
        rw [List.foldlM_nil, pure_eq_ok]
        exact ⟨fun h => ⟨fun _ hmem => (by cases hmem), h.symm⟩, fun h => h.2.symm⟩
    | cons input rest ih =>
        intro total total'
        simp only [foldlM_cons_eq_ok, bind_eq_ok, pure_eq_ok, ih, List.forall_mem_cons,
          List.map_cons, List.sum_cons]
        constructor
        · rintro ⟨_, ⟨_, hlength, rfl⟩, hrest, rfl⟩
          exact ⟨⟨hlength, hrest⟩, Nat.add_assoc _ _ _⟩
        · rintro ⟨⟨hlength, hrest⟩, rfl⟩
          exact ⟨_, ⟨(), hlength, rfl⟩, hrest, (Nat.add_assoc _ _ _).symm⟩
  simp only [addTransactionResources, bind_eq_ok, require_eq_ok, pure_eq_ok, hloop, Nat.not_lt]
  constructor
  · rintro ⟨_, hinputs, _, houtputs, _, ⟨hsignatures, rfl⟩, rfl⟩
    exact ⟨⟨hinputs, houtputs, hsignatures⟩, rfl⟩
  · rintro ⟨⟨hinputs, houtputs, hsignatures⟩, rfl⟩
    exact ⟨(), hinputs, (), houtputs, _, ⟨hsignatures, rfl⟩, rfl⟩

theorem addTransactionResources_loop {transactions : List Transaction} :
    ∀ {totals totals' : TransactionSetValidation},
      transactions.foldlM addTransactionResources totals = .ok totals' ↔
      (∀ transaction ∈ transactions, transaction.Sized) ∧
      totals' = { totals with
        aggregateInputs := totals.aggregateInputs + (transactions.map (·.inputs.length)).sum
        aggregateOutputs := totals.aggregateOutputs + (transactions.map (·.outputs.length)).sum
        signatureChecks :=
          totals.signatureChecks + (transactions.map (·.signatureChecks)).sum } := by
  induction transactions with
  | nil =>
      intro totals totals'
      rw [List.foldlM_nil, pure_eq_ok]
      exact ⟨fun h => ⟨fun _ hmem => (by cases hmem), h.symm⟩, fun h => h.2.symm⟩
  | cons transaction rest ih =>
      intro totals totals'
      simp only [foldlM_cons_eq_ok, addTransactionResources_eq_ok, ih, List.forall_mem_cons,
        List.map_cons, List.sum_cons]
      constructor
      · rintro ⟨_, ⟨hfirst, rfl⟩, hrest, rfl⟩
        exact ⟨⟨hfirst, hrest⟩, by simp only [Nat.add_assoc]⟩
      · rintro ⟨⟨hfirst, hrest⟩, rfl⟩
        exact ⟨_, ⟨hfirst, rfl⟩, hrest, by simp only [Nat.add_assoc]⟩

/-- The sets that pass the resource checks, and what these return: the fees are not
counted yet. -/
theorem validateTransactionSetResources_iff {transactions : List Transaction}
    {totals : TransactionSetValidation} :
    validateTransactionSetResources transactions = .ok totals ↔
      (∀ transaction ∈ transactions, transaction.Sized) ∧ WithinLimits transactions ∧
      totals = {
        totalBurnedFees := 0
        aggregateInputs := (transactions.map (·.inputs.length)).sum
        aggregateOutputs := (transactions.map (·.outputs.length)).sum
        signatureChecks := (transactions.map (·.signatureChecks)).sum } := by
  simp only [validateTransactionSetResources, validateTransactionResources, bind_eq_ok,
    require_eq_ok, pure_eq_ok, addTransactionResources_loop, not_or, Nat.not_lt, Nat.zero_add]
  constructor
  · rintro ⟨_, hcount, _, ⟨hsized, rfl⟩, _, haggregate, _, hsignatures, rfl⟩
    exact ⟨hsized, ⟨hcount, haggregate.1, haggregate.2, hsignatures⟩, rfl⟩
  · rintro ⟨hsized, hlimits, rfl⟩
    exact ⟨(), hlimits.count, _, ⟨hsized, rfl⟩, (), ⟨hlimits.inputs, hlimits.outputs⟩, (),
      hlimits.signatures, rfl⟩

theorem validateTransactionSetResources_eq_ok {transactions : List Transaction}
    {totals : TransactionSetValidation}
    (h : validateTransactionSetResources transactions = .ok totals) :
    totals.totalBurnedFees = 0 ∧ WithinLimits transactions := by
  obtain ⟨-, hlimits, rfl⟩ := validateTransactionSetResources_iff.mp h
  exact ⟨rfl, hlimits⟩

theorem WithinLimits.sublist {some all : List Transaction} (h : WithinLimits all)
    (hsub : some.Sublist all) : WithinLimits some := by
  have hsum : ∀ size : Transaction → Nat, (some.map size).sum ≤ (all.map size).sum :=
    fun size => (hsub.map size).sum_le_sum fun _ _ => Nat.zero_le _
  exact ⟨hsub.length_le.trans h.count, (hsum _).trans h.inputs, (hsum _).trans h.outputs,
    (hsum _).trans h.signatures⟩

theorem WithinLimits.perm {transactions permuted : List Transaction}
    (h : WithinLimits transactions) (hperm : transactions.Perm permuted) :
    WithinLimits permuted := by
  have hsum : ∀ size : Transaction → Nat, (permuted.map size).sum = (transactions.map size).sum :=
    fun size => ((hperm.map size).sum_eq).symm
  constructor
  · exact hperm.length_eq ▸ h.count
  · exact (hsum _).le.trans h.inputs
  · exact (hsum _).le.trans h.outputs
  · exact (hsum _).le.trans h.signatures

/-- Part of a set takes no more than the set. -/
theorem validateTransactionSetResources_sublist {some all : List Transaction}
    (hsub : some.Sublist all)
    (h : ∃ totals, validateTransactionSetResources all = .ok totals) :
    ∃ totals, validateTransactionSetResources some = .ok totals := by
  obtain ⟨totals, htotals⟩ := h
  obtain ⟨hsized, hlimits, -⟩ := validateTransactionSetResources_iff.mp htotals
  exact ⟨_, validateTransactionSetResources_iff.mpr
    ⟨fun transaction hmem => hsized transaction (hsub.subset hmem), hlimits.sublist hsub, rfl⟩⟩

/-- The resources of a block are those of its transactions, and three outputs of
the coinbase. -/
theorem validateBlockResources_eq_ok {block : Block} :
    validateBlockResources block = .ok () ↔
      block.coinbase.outputs.length ≤ maxCoinbaseOutputs ∧
        ∃ totals, validateTransactionSetResources block.transactions = .ok totals := by
  simp only [validateBlockResources, validateTransactionSetResources, bind_eq_ok, require_eq_ok,
    pure_eq_ok, Nat.not_lt]
  constructor
  · rintro ⟨_, hcount, _, houtputs, totals, htotals, _⟩
    exact ⟨houtputs, totals, (), hcount, htotals⟩
  · rintro ⟨houtputs, totals, _, hcount, htotals⟩
    exact ⟨(), hcount, (), houtputs, totals, htotals, trivial⟩

/-- The running totals of the wire format stay within limits that the last of them
keeps. -/
theorem addSignatureChecks_loop {inputs : List TxInput} : ∀ {total : Nat},
    total + (inputs.map (·.witness.signatureChecks)).sum ≤ maxBlockSignatureChecks →
    inputs.foldlM addSignatureChecks total =
      .ok (total + (inputs.map (·.witness.signatureChecks)).sum) := by
  induction inputs with
  | nil => exact fun _ => rfl
  | cons input rest ih =>
      intro total hle
      rw [List.map_cons, List.sum_cons] at hle ⊢
      have hstep : addSignatureChecks total input =
          .ok (total + input.witness.signatureChecks) := by
        rw [addSignatureChecks, checkCount, require_pos (by omega)]
        rfl
      rw [List.foldlM_cons, hstep, ok_bind, ih (by omega), Nat.add_assoc]

theorem validateBlockShape_loop {networkId : Bytes32} {transactions : List Transaction} :
    ∀ {totals : BlockResources},
      (∀ transaction ∈ transactions,
        validateTransactionShape transaction networkId = .ok ()) →
      totals.inputs + (transactions.map (·.inputs.length)).sum ≤ maxBlockAggregateInputs →
      totals.outputs + (transactions.map (·.outputs.length)).sum ≤ maxBlockAggregateOutputs →
      totals.signatureChecks + (transactions.map (·.signatureChecks)).sum ≤
        maxBlockSignatureChecks →
      ∃ totals', transactions.foldlM (fun totals transaction => do
        validateTransactionShape transaction networkId
        addBlockResources totals transaction) totals = .ok totals' := by
  induction transactions with
  | nil => exact fun _ _ _ _ => ⟨_, rfl⟩
  | cons transaction rest ih =>
      intro totals hshapes hinputs houtputs hsignatures
      rw [List.map_cons, List.sum_cons] at hinputs houtputs hsignatures
      have hadd : addBlockResources totals transaction = .ok {
          inputs := totals.inputs + transaction.inputs.length
          outputs := totals.outputs + transaction.outputs.length
          signatureChecks := totals.signatureChecks + transaction.signatureChecks } := by
        have hloop : transaction.inputs.foldlM addSignatureChecks totals.signatureChecks =
            .ok (totals.signatureChecks + transaction.signatureChecks) :=
          addSignatureChecks_loop (by rw [← Transaction.signatureChecks]; omega)
        simp only [addBlockResources, checkCount, bind_eq_ok, require_eq_ok, pure_eq_ok]
        exact ⟨(), by omega, (), by omega, _, hloop, rfl⟩
      obtain ⟨totals', hrest⟩ := @ih {
          inputs := totals.inputs + transaction.inputs.length
          outputs := totals.outputs + transaction.outputs.length
          signatureChecks := totals.signatureChecks + transaction.signatureChecks }
        (fun other hmem => hshapes other (List.mem_cons_of_mem _ hmem))
        (by rw [Nat.add_assoc]; exact hinputs) (by rw [Nat.add_assoc]; exact houtputs)
        (by rw [Nat.add_assoc]; exact hsignatures)
      refine ⟨totals', foldlM_cons_eq_ok.mpr ⟨_, ?_, hrest⟩⟩
      rw [hshapes transaction List.mem_cons_self, ok_bind, hadd]

/-- A block whose transactions are within the limits has the shape of the wire format. -/
theorem validateBlockShape_ok {block : Block}
    (houtputs : block.coinbase.outputs.length ≤ maxCoinbaseOutputs)
    (hlimits : WithinLimits block.transactions)
    (hshapes : ∀ transaction ∈ block.transactions,
      validateTransactionShape transaction block.challenge.networkId = .ok ()) :
    validateBlockShape block = .ok () := by
  obtain ⟨totals, hloop⟩ := @validateBlockShape_loop block.challenge.networkId
    block.transactions { inputs := 0, outputs := 0, signatureChecks := 0 } hshapes
    (by rw [Nat.zero_add]; exact hlimits.inputs) (by rw [Nat.zero_add]; exact hlimits.outputs)
    (by rw [Nat.zero_add]; exact hlimits.signatures)
  simp only [validateBlockShape, checkCount, bind_eq_ok, require_eq_ok, Nat.not_lt]
  exact ⟨(), houtputs, (), hlimits.count, totals, hloop, rfl⟩

/-! ## A transaction set, in place -/

/-- `validate_transactions_for_next_block` accepts the transactions, with these fees. -/
def Passes (P : Platform) (state : ChainState) (transactions : List Transaction)
    (fees : UInt64) : Prop :=
  ∃ validation, state.validateTransactionsForNextBlock P transactions = .ok validation ∧
    validation.totalBurnedFees = fees

/-- One run succeeds where the other does. -/
theorem Tracks.eq_ok {α β : Type} {good : α → Prop} {f : α → β} {x : Outcome ChainError α}
    {y : Outcome ChainError β} (h : Tracks good f x y) {b : β} :
    y = .ok b ↔ ∃ a, x = .ok a ∧ f a = b := by
  obtain ⟨rfl, -⟩ := h
  constructor
  · intro hok
    cases x with
    | ok a => exact ⟨a, rfl, Except.ok.inj hok⟩
    | error fault => cases hok
  · rintro ⟨a, rfl, rfl⟩
    rfl

/-- What the transactions of the next block do to the unspent set. -/
def ChainState.applyNext (P : Platform) (state : ChainState) (transactions : List Transaction) :
    Outcome ChainError (Applied UtxoSet) :=
  applyTransactions P state.nextHeight state.params.networkId
    { fee := 0, view := state.utxos, spent := ∅ } transactions

theorem passes_iff {state : ChainState} {transactions : List Transaction} {fees : UInt64} :
    Passes P state transactions fees ↔
      (∃ totals, validateTransactionSetResources transactions = .ok totals) ∧
      checkTransactionHeaders state.params.networkId transactions = .ok () ∧
      (∀ transaction ∈ transactions, ∃ bytes, encodeTransaction P transaction = .ok bytes) ∧
      ∃ applied, state.applyNext P transactions = .ok applied ∧ applied.fee = fees := by
  have htracks : Tracks (fun applied => UtxoOverlay.Staged state.utxos applied.view)
      (Applied.map UtxoOverlay.view)
      (applyTransactions P state.nextHeight state.params.networkId
        { fee := 0, view := UtxoOverlay.new state.utxos, spent := ∅ } transactions)
      (state.applyNext P transactions) := by
    have hstaged : UtxoOverlay.Staged state.utxos
        (Applied.mk 0 (UtxoOverlay.new state.utxos) ∅).view := UtxoOverlay.staged_new state.utxos
    have h := applyTransactions_refines (UtxoOverlay.refines state.utxos) P hstaged
      state.nextHeight state.params.networkId transactions
    rwa [Applied.map, UtxoOverlay.view_new] at h
  simp only [Passes, ChainState.validateTransactionsForNextBlock, bind_eq_ok, mapErr_eq_ok,
    pure_eq_ok, forM_eq_ok_iff, htracks.eq_ok]
  constructor
  · rintro ⟨_, ⟨totals, htotals, _, hheaders, _, hencoded, applied, happlied, rfl⟩, rfl⟩
    rw [(validateTransactionSetResources_eq_ok htotals).1] at happlied
    refine ⟨⟨totals, htotals⟩, hheaders, ?_, _, ⟨applied, happlied, rfl⟩, rfl⟩
    intro transaction hmem
    obtain ⟨bytes, hbytes, _⟩ := hencoded transaction hmem
    exact ⟨bytes, hbytes⟩
  · rintro ⟨⟨totals, htotals⟩, hheaders, hencoded, _, ⟨applied, happlied, rfl⟩, rfl⟩
    rw [← (validateTransactionSetResources_eq_ok htotals).1] at happlied
    refine ⟨_, ⟨totals, htotals, (), hheaders, (), ?_, applied, happlied, rfl⟩, rfl⟩
    intro transaction hmem
    obtain ⟨bytes, hbytes⟩ := hencoded transaction hmem
    exact ⟨bytes, hbytes, trivial⟩

/-- No transactions pass everywhere. -/
theorem passes_nil (state : ChainState) : Passes P state [] 0 :=
  passes_iff.mpr ⟨⟨_, rfl⟩, rfl, fun _ hmem => (by cases hmem), _, rfl, rfl⟩

theorem applyNext_singleton {state : ChainState} {transaction : Transaction}
    {applied : Applied UtxoSet} :
    state.applyNext P [transaction] = .ok applied ↔
      applyTransaction P state.utxos transaction state.nextHeight state.params.networkId ∅ =
        .ok applied := by
  have hzero : ∀ fee : UInt64, checkedAdd 0 fee = some fee := by
    intro fee
    rw [checkedAdd_eq_some, UInt64.toNat_zero, Nat.zero_add]
  rw [ChainState.applyNext, applyTransactions_cons]
  constructor
  · rintro ⟨one, fee, hone, hfee, hnil⟩
    obtain rfl := Option.some.inj ((hzero one.fee).symm.trans hfee)
    rwa [← Except.ok.inj hnil]
  · intro hone
    exact ⟨applied, applied.fee, hone, hzero _, rfl⟩

/-- One transaction by itself. -/
theorem passes_singleton {state : ChainState} {transaction : Transaction} {fees : UInt64} :
    Passes P state [transaction] fees ↔
      (∃ totals, validateTransactionSetResources [transaction] = .ok totals) ∧
      (transaction.networkId = state.params.networkId ∧
        transaction.version = transactionVersion) ∧
      (∃ bytes, encodeTransaction P transaction = .ok bytes) ∧
      ∃ applied, applyTransaction P state.utxos transaction state.nextHeight
        state.params.networkId ∅ = .ok applied ∧ applied.fee = fees := by
  simp only [passes_iff, checkTransactionHeaders, forM_eq_ok_iff, List.forall_mem_singleton,
    bind_eq_ok, require_eq_ok, exists_const, applyNext_singleton]

/-! ## The block around the transactions -/

/-- Every output of the canonical coinbase is worth something, and stands where
`validate_coinbase` looks for it. -/
def Allocation.Payable (allocation : Allocation) : Prop :=
  allocation.miner ≠ 0 ∧ (allocation.steward = 0 → allocation.community = 0)

/-- A canonical coinbase can follow this state. -/
structure Minable (state : ChainState) : Prop where
  height : state.nextHeight.toNat + coinbaseMaturity.toNat < 2 ^ 64
  payable : ∃ allocation,
    state.params.monetaryPolicy.allocation state.nextHeight 0 = .ok allocation ∧
      allocation.Payable

/-- A block for these transactions with the right header fields, the canonical
coinbase for these fees and an accepted proof, whose frame is within the limit. -/
structure Candidate (P : Platform) (state : ChainState) (transactions : List Transaction)
    (fees : UInt64) (context : BlockValidationContext) (block : Block) : Prop where
  transactions : block.transactions = transactions
  version : block.version = blockVersion
  network : block.challenge.networkId = state.params.networkId
  height : block.challenge.height = state.nextHeight
  previousBlock : block.challenge.previousBlock = state.tip
  afterMedian : state.medianTimePast < block.challenge.timestamp
  timely : Timely state.params context.nowUnixSeconds block
  target : state.expectedTarget = .ok block.challenge.target
  transactionRoot : block.challenge.transactionRoot = block.transactionRoot P
  proof : state.verifier.verify block.challenge block.proof = .ok ()
  coinbase : ∃ allocation destination,
    state.params.monetaryPolicy.allocation state.nextHeight fees = .ok allocation ∧
      P.verifyingKey destination = true ∧
      block.coinbase = Coinbase.new state.nextHeight allocation destination state.params.rewards
  frame : block.frameSize ≤ maxBlockBytes

/-- The coinbase's outpoints collide with no unspent output and no transaction of
the block: all three are named by digests of different contents. -/
def FreshCoinbase (P : Platform) (state : ChainState) (block : Block) : Prop :=
  (∀ index, state.utxos.get { txid := block.coinbaseOutpointId P, index } = none) ∧
    ∀ transaction ∈ block.transactions, transaction.txid P ≠ block.coinbaseOutpointId P

/-- The fees are burned: they do not change the shares. -/
theorem allocation_fees {policy : MonetaryPolicy} {height fees : UInt64} {allocation : Allocation}
    (h : policy.allocation height fees = .ok allocation) (fees' : UInt64) :
    policy.allocation height fees' = .ok { allocation with feesBurned := fees' } := by
  simp only [MonetaryPolicy.allocation, bind_eq_ok] at h ⊢
  obtain ⟨_, hvalid, h⟩ := h
  refine ⟨(), hvalid, ?_⟩
  split at h <;> next hheight =>
    rw [pure_eq_ok] at h
    subst h
    first
      | rw [if_pos hheight]; rfl
      | rw [if_neg hheight]; rfl

theorem gt_zero_of_ne_zero {value : UInt64} (h : value ≠ 0) : value > 0 := by
  rw [gt_iff_lt, UInt64.lt_iff_toNat_lt]
  refine Nat.pos_of_ne_zero fun hzero => h ?_
  exact UInt64.toNat_inj.mp hzero

/-- The validator finds the shares of a canonical coinbase, unless the community's
has taken the place of the steward's. -/
theorem validateCoinbase_new {height : UInt64} {allocation : Allocation} {destination : Bytes32}
    {rewards : FixedRewardDestinations} (hkey : P.verifyingKey destination = true) :
    validateCoinbase P (Coinbase.new height allocation destination rewards) allocation rewards =
      .ok () ↔ (allocation.steward = 0 → allocation.community = 0) := by
  have hdestination : minerDestination (Coinbase.new height allocation destination rewards) =
      .ok destination := rfl
  have hexpected : (Coinbase.new height allocation destination rewards).outputs =
      (Coinbase.new (Coinbase.new height allocation destination rewards).height allocation
        destination rewards).outputs := rfl
  simp only [validateCoinbase, hdestination, ok_bind, require_pos hkey, require_pos hexpected,
    require_eq_ok, not_or, Decidable.not_not]
  by_cases hsteward : allocation.steward = 0
  · by_cases hcommunity : allocation.community = 0
    · simp [Coinbase.new, outputValueAt, hsteward, hcommunity]
    · have hpos := gt_zero_of_ne_zero hcommunity
      simp [Coinbase.new, outputValueAt, hsteward, hcommunity, hpos]
  · have hpos := gt_zero_of_ne_zero hsteward
    by_cases hcommunity : allocation.community = 0
    · simp [Coinbase.new, outputValueAt, hsteward, hcommunity, hpos]
    · have hpos' := gt_zero_of_ne_zero hcommunity
      simp [Coinbase.new, outputValueAt, hsteward, hpos, hpos']

/-- Nothing is under an identifier that neither the set nor the transactions have. -/
theorem applyTransactions_free {networkId : Bytes32} {height : UInt64} {acc applied : Applied UtxoSet}
    {transactions : List Transaction}
    (h : applyTransactions P height networkId acc transactions = .ok applied) {txid : Bytes32}
    (hfree : ∀ index, acc.view.get { txid, index } = none)
    (hnew : ∀ transaction ∈ transactions, transaction.txid P ≠ txid) (index : UInt32) :
    applied.view.get { txid, index } = none := by
  refine (applyTransactions_inPlace h).run.absent (hfree index) fun entry hentry value hcreated => ?_
  obtain ⟨transaction, htransaction, rfl⟩ := List.mem_map.mp hentry
  exact hnew transaction htransaction (mem_outpointsOf hcreated).1.symm

theorem coinbase_channel {height : UInt64} {allocation : Allocation} {destination : Bytes32}
    {rewards : FixedRewardDestinations} :
    ∀ output ∈ (Coinbase.new height allocation destination rewards).outputs,
      output.channel = none ∧ (output.value = 0 → allocation.miner = 0) := by
  intro output hmem
  rcases List.mem_cons.mp hmem with rfl | hmem
  · exact ⟨rfl, id⟩
  · rcases List.mem_append.mp hmem with hmem | hmem <;> split at hmem
    · next hpos =>
        obtain rfl := List.mem_singleton.mp hmem
        exact ⟨rfl, fun hzero => absurd hpos (by simp [show allocation.steward = 0 from hzero])⟩
    · cases hmem
    · next hpos =>
        obtain rfl := List.mem_singleton.mp hmem
        exact ⟨rfl, fun hzero => absurd hpos (by simp [show allocation.community = 0 from hzero])⟩
    · cases hmem

theorem coinbase_length (height : UInt64) (allocation : Allocation) (destination : Bytes32)
    (rewards : FixedRewardDestinations) :
    (Coinbase.new height allocation destination rewards).outputs.length ≤ maxCoinbaseOutputs := by
  rw [Coinbase.new, List.length_cons, List.length_append]
  split <;> split <;> exact Nat.le_of_ble_eq_true rfl

/-- A miner's output that is worth nothing is not created. -/
theorem insertCoinbase_miner {utxos utxos' : UtxoSet} {txid : Bytes32} {height : UInt64}
    {allocation : Allocation} {destination : Bytes32} {rewards : FixedRewardDestinations}
    (h : insertOutputs utxos txid
      (Coinbase.new height allocation destination rewards).outputs = .ok utxos') :
    allocation.miner ≠ 0 := by
  obtain ⟨middle, hfirst, -⟩ := foldlM_cons_eq_ok.mp h
  simp only [insertOutput, bind_eq_ok, require_eq_ok] at hfirst
  obtain ⟨_, hvalue, -⟩ := hfirst
  exact hvalue

/-- One that is worth something is, and so are the shares. -/
theorem insertCoinbase_ok {utxos : UtxoSet} {txid : Bytes32} {height : UInt64}
    {allocation : Allocation} {destination : Bytes32} {rewards : FixedRewardDestinations}
    (hfree : ∀ index, utxos.get { txid, index } = none) (hminer : allocation.miner ≠ 0) :
    ∃ utxos', insertOutputs utxos txid
      (Coinbase.new height allocation destination rewards).outputs = .ok utxos' := by
  refine insertKeyOutputs_ok ?_ (nodup_outpointsOf _ ?_) ?_
  · intro kv hmem
    obtain ⟨hchannel, hvalue⟩ := coinbase_channel _ (mem_outpointsOf hmem).2
    exact ⟨fun hzero => hminer (hvalue hzero), hchannel⟩
  · exact (coinbase_length _ _ _ _).trans (by decide)
  · intro kv hmem
    have hkey : kv.1 = { txid, index := kv.1.index } := by
      rw [← (mem_outpointsOf hmem).1]
    rw [hkey]
    exact hfree kv.1.index

/-! ## Acceptance -/

section

variable {state : ChainState} {transactions : List Transaction} {fees : UInt64}
  {context : BlockValidationContext} {block : Block}

/-- The transactions of an accepted block pass. -/
theorem passes_of_validateBlock {validated : ValidatedBlock}
    (h : state.validateBlock P block context = .ok validated) :
    Passes P state block.transactions validated.fees := by
  have hvalidated := validateBlock_validated h
  obtain ⟨applied, happlied, hfees, -⟩ := hvalidated.applied.transactions
  rw [hvalidated.height] at happlied
  obtain ⟨canonical, hencode⟩ := hvalidated.encoded
  simp only [ChainState.validateBlock, bind_eq_ok] at h
  obtain ⟨_, _, _, _, _, _, _, _, _, _, _, _, _, _, _, _, _, _, _, _, _, _, ⟨_, _⟩, hdelta, _⟩ := h
  obtain ⟨hheader, -⟩ := validateDelta_inPlace hdelta
  simp only [validateBlockHeader, bind_eq_ok] at hheader
  obtain ⟨_, hresources, _, _, _, _, _, htransactions, _⟩ := hheader
  exact passes_iff.mpr ⟨(validateBlockResources_eq_ok.mp hresources).2, htransactions,
    encodeBlock_transactions hencode, applied, happlied, hfees⟩

/-- A candidate that is accepted follows a state that can be mined on. -/
theorem Candidate.minable (h : Candidate P state transactions fees context block)
    {validated : ValidatedBlock} (hvalid : state.validateBlock P block context = .ok validated) :
    Minable state := by
  have hvalidated := validateBlock_validated hvalid
  obtain ⟨allocation, destination, hallocation, hkey, hcoinbase⟩ := h.coinbase
  have hpayable : ∀ fees', state.params.monetaryPolicy.allocation state.nextHeight fees' =
      .ok { allocation with feesBurned := fees' } := allocation_fees hallocation
  simp only [ChainState.validateBlock, bind_eq_ok] at hvalid
  obtain ⟨_, _, _, _, _, _, _, _, _, _, _, _, _, _, _, _, _, _, _, _, _, _, ⟨_, _⟩, hdelta, _⟩ :=
    hvalid
  obtain ⟨-, -, happly⟩ := validateDelta_inPlace hdelta
  simp only [applyBlock, bind_eq_ok, mapErr_eq_ok, h.height, hpayable, Except.ok.injEq] at happly
  obtain ⟨applied, _, _, rfl, _, hlayout, view, hinsert, _⟩ := happly
  rw [hcoinbase] at hlayout hinsert
  exact ⟨hvalidated.maturity, _, hpayable 0, insertCoinbase_miner hinsert,
    (validateCoinbase_new hkey).mp hlayout⟩

/-- On a state that can be mined on, a candidate whose transactions pass applies. -/
theorem Candidate.applies (h : Candidate P state transactions fees context block)
    (hminable : Minable state) (hfresh : FreshCoinbase P state block)
    {applied : Applied UtxoSet} (happlied : state.applyNext P transactions = .ok applied)
    (hfees : applied.fee = fees) :
    ∃ utxos, applyBlock P state.utxos block state.params = .ok (fees, utxos) := by
  subst hfees
  obtain ⟨allocation, destination, hallocation, hkey, hcoinbase⟩ := h.coinbase
  obtain ⟨-, minable, hminable, hminer, hshares⟩ := hminable
  obtain rfl := Except.ok.inj (hminable.symm.trans (allocation_fees hallocation 0))
  have htransactions : applyTransactions P block.challenge.height state.params.networkId
      { fee := 0, view := state.utxos, spent := ∅ } block.transactions = .ok applied := by
    rw [h.height, h.transactions]
    exact happlied
  have hlayout : validateCoinbase P block.coinbase allocation state.params.rewards = .ok () := by
    rw [hcoinbase]
    exact (validateCoinbase_new hkey).mpr hshares
  obtain ⟨utxos, hinsert⟩ : ∃ utxos, insertOutputs applied.view (block.coinbaseOutpointId P)
      block.coinbase.outputs = .ok utxos := by
    rw [hcoinbase]
    exact insertCoinbase_ok (applyTransactions_free htransactions hfresh.1 hfresh.2) hminer
  refine ⟨utxos, ?_⟩
  simp only [applyBlock, bind_eq_ok, mapErr_eq_ok, pure_eq_ok, h.height]
  exact ⟨applied, h.height ▸ htransactions, allocation, hallocation, (), hlayout, utxos, hinsert,
    rfl⟩

/-- The checks of its header pass. -/
theorem Candidate.header (h : Candidate P state transactions fees context block)
    (hpasses : Passes P state transactions fees) :
    validateBlockHeader P block state.verifier state.params = .ok () := by
  obtain ⟨⟨totals, htotals⟩, hheaders, hencoded, -⟩ := passes_iff.mp hpasses
  obtain ⟨allocation, destination, -, -, hcoinbase⟩ := h.coinbase
  have houtputs : block.coinbase.outputs.length ≤ maxCoinbaseOutputs := by
    rw [hcoinbase]
    exact coinbase_length _ _ _ _
  rw [← h.transactions] at htotals hheaders hencoded
  have hnetwork : ∀ transaction ∈ block.transactions,
      transaction.networkId = block.challenge.networkId := by
    intro transaction hmem
    have hone := forM_eq_ok_iff.mp hheaders transaction hmem
    simp only [bind_eq_ok, require_eq_ok] at hone
    obtain ⟨_, heq, -⟩ := hone
    exact heq.trans h.network.symm
  have hshape : validateBlockShape block = .ok () := by
    refine validateBlockShape_ok houtputs (validateTransactionSetResources_eq_ok htotals).2 ?_
    intro transaction hmem
    obtain ⟨bytes, hbytes⟩ := hencoded transaction hmem
    rw [← hnetwork transaction hmem]
    exact (encodeTransaction_eq_ok hbytes).1
  obtain ⟨bytes, hencode⟩ := encodeBlock_ok hshape hencoded h.frame
  simp only [validateBlockHeader, bind_eq_ok, require_eq_ok, mapErr_eq_ok]
  refine ⟨(), validateBlockResources_eq_ok.mpr ⟨houtputs, totals, htotals⟩, (), h.version, (),
    h.network, (), hheaders, bytes, hencode, (), ?_, (), h.transactionRoot.symm, h.proof⟩
  rw [h.height, hcoinbase]
  rfl

/-- So it is accepted. -/
theorem Candidate.accepted (h : Candidate P state transactions fees context block)
    (hminable : Minable state) (hfresh : FreshCoinbase P state block)
    (hpasses : Passes P state transactions fees) :
    ∃ validated, state.validateBlock P block context = .ok validated ∧
      validated.fees = fees := by
  obtain ⟨-, -, -, applied, happlied, hfees⟩ := passes_iff.mp hpasses
  obtain ⟨utxos, happlies⟩ := h.applies hminable hfresh happlied hfees
  obtain ⟨htracks, -⟩ := applyBlock_refines (P := P) (UtxoOverlay.refines state.utxos)
    (UtxoOverlay.staged_new state.utxos) block state.params
  rw [UtxoOverlay.view_new, happlies] at htracks
  obtain ⟨candidate, hcandidate⟩ : ∃ candidate, applyBlock P (UtxoOverlay.new state.utxos) block
      state.params = .ok (fees, candidate) := by
    cases hresult : applyBlock P (UtxoOverlay.new state.utxos) block state.params with
    | ok result =>
        rw [hresult] at htracks
        obtain ⟨heq, -⟩ := Prod.mk.inj (Except.ok.inj htracks)
        exact ⟨result.2, by rw [heq]⟩
    | error fault =>
        rw [hresult] at htracks
        cases htracks
  have hmaturity := hminable.height
  have hpositive : coinbaseMaturity.toNat = 100 := rfl
  have hone : (1 : UInt64).toNat = 1 := rfl
  obtain ⟨latest, hlatest, hle⟩ := h.timely
  have hdelta : state.utxos.validateDelta P block state.verifier state.params =
      .ok (fees, candidate.delta) := by
    simp only [UtxoSet.validateDelta, h.header hpasses, hcandidate, ok_bind]
    rfl
  simp only [ChainState.validateBlock, bind_eq_ok, require_eq_ok, okOr_eq_ok, pure_eq_ok]
  refine ⟨_, ⟨(), h.version, (), h.network, (), h.height, state.nextHeight + 1, ?_,
    state.nextHeight + coinbaseMaturity, ?_, (), h.previousBlock, (),
    UInt64.not_le.mpr h.afterMedian, latest, hlatest, (), hle, _, h.target, (), rfl,
    (fees, candidate.delta), hdelta, rfl⟩, rfl⟩
  · rw [checkedAdd_eq_some, toNat_add_of_lt (by omega)]
  · rw [h.height, checkedAdd_eq_some, toNat_add_of_lt hmaturity]

/-! ## The theorem -/

/-- `validate_transactions_for_next_block` and `validate_block` agree. -/
def Agrees (P : Platform) (state : ChainState) (transactions : List Transaction) (fees : UInt64)
    (context : BlockValidationContext) (block : Block) : Prop :=
  Passes P state transactions fees ↔
    ∃ validated, state.validateBlock P block context = .ok validated ∧ validated.fees = fees

end

/-! ## Candidates of the sample network -/

/-- What can be computed of the claim that a sample block is a candidate. -/
structure SampleCandidate (state : ChainState) (timestamp fees : UInt64)
    (transactions : List Transaction) : Prop where
  allocation : (state.params.monetaryPolicy.allocation state.nextHeight fees).isOk = true
  target : state.expectedTarget.isOk = true
  afterMedian : state.medianTimePast < timestamp
  fits : timestamp.toNat + state.params.maxFutureOffsetSecs.toNat < 2 ^ 64
  frame : (sampleBlock state timestamp fees transactions).frameSize ≤ maxBlockBytes

instance (state : ChainState) (timestamp fees : UInt64) (transactions : List Transaction) :
    Decidable (SampleCandidate state timestamp fees transactions) :=
  decidable_of_iff (_ ∧ _ ∧ _ ∧ _ ∧ _)
    ⟨fun ⟨ha, hb, hc, hd, he⟩ => ⟨ha, hb, hc, hd, he⟩,
      fun ⟨ha, hb, hc, hd, he⟩ => ⟨ha, hb, hc, hd, he⟩⟩

/-- A sample block is a candidate, whatever its transactions are. -/
theorem SampleCandidate.candidate {state : ChainState} {timestamp fees : UInt64}
    {transactions : List Transaction} (h : SampleCandidate state timestamp fees transactions)
    (hproof : state.verifier.verify (sampleBlock state timestamp fees transactions).challenge
      (sampleBlock state timestamp fees transactions).proof = .ok ()) :
    Candidate samplePlatform state transactions fees ⟨timestamp⟩
      (sampleBlock state timestamp fees transactions) := by
  obtain ⟨hallocation, htarget, hmedian, hfits, hframe⟩ := h
  refine ⟨rfl, rfl, rfl, rfl, rfl, hmedian, timely_of_le hfits (UInt64.le_refl _), ?_, rfl, hproof,
    ?_, hframe⟩
  · cases htargetEq : state.expectedTarget with
    | ok target =>
        show _ = Except.ok ((state.expectedTarget.toOption).getD zero32)
        rw [htargetEq]
        rfl
    | error fault =>
        rw [htargetEq] at htarget
        cases htarget
  · cases hallocationEq : state.params.monetaryPolicy.allocation state.nextHeight fees with
    | ok allocation =>
        refine ⟨allocation, toBytes 5, rfl, rfl, ?_⟩
        simp only [sampleBlock, hallocationEq]
    | error fault =>
        rw [hallocationEq] at hallocation
        cases hallocation

theorem sampleRun₁ : ChainRun samplePlatform sampleParams sampleVerifier
    [⟨sampleBlock₁, ⟨1060⟩, 0⟩] sampleState₁ :=
  (ChainRun.new sampleGenesis_new).step sampleBlock₁_applied

/-- The second sample block carries its funding transaction. -/
theorem sampleBlock₂_candidate :
    Candidate samplePlatform sampleState₁ [sampleFunding] 10000 ⟨1120⟩ sampleBlock₂ := by
  have hsample : SampleCandidate sampleState₁ 1120 10000 [sampleFunding] := by decide +kernel
  refine hsample.candidate ?_
  rw [sampleRun₁.constant.2]
  rfl

/-- The shares of the sample network's second coinbase. -/
theorem sampleParams_minable {state : ChainState} (hparams : state.params = sampleParams)
    (hheight : state.nextHeight = 2) : Minable state := by
  let shares : Allocation := {
    subsidy := 989898, miner := 791920, steward := 98989, community := 98989, feesBurned := 0 }
  have hallocation : sampleParams.monetaryPolicy.allocation 2 0 = .ok shares := by
    decide
  refine ⟨?_, shares, ?_, by decide, by decide⟩
  · rw [hheight]
    exact Nat.lt_of_sub_ne_zero nofun
  · rw [hheight, hparams]
    exact hallocation

theorem sampleState₁_minable : Minable sampleState₁ :=
  sampleParams_minable sampleRun₁.constant.1 (UInt64.toNat_inj.mp sampleRun₁.nextHeight)

theorem sampleBlock₂_fresh : FreshCoinbase samplePlatform sampleState₁ sampleBlock₂ := by
  constructor
  · intro index
    exact UtxoSet.get_eq_none_of_txid (by decide +kernel) index
  · have hone : ∀ transaction ∈ [sampleFunding],
        transaction.txid samplePlatform ≠ sampleBlock₂.coinbaseOutpointId samplePlatform := by
      decide +kernel
    exact hone

/-- A policy that gives everything to the steward and the community, half each.
It is valid: at its last height before the tail, rounding leaves the miner one unit. -/
def halvesParams : NetworkParams :=
  { sampleParams with
    monetaryPolicy := {
      initialSubsidy := 300, tailHeight := 100, tailSubsidy := 100, stewardPercent := 50
      communityPercent := 50 } }

/-- The state `ChainState::new` returns for that network. -/
def halvesGenesis : ChainState := { sampleGenesis with params := halvesParams }

theorem halvesGenesis_new :
    ChainState.new samplePlatform halvesParams sampleVerifier = .ok halvesGenesis := by
  have hvalid : halvesParams.validateForBoundVerifier samplePlatform = .ok () := by
    decide
  have hpow : sampleVerifier.parameters = halvesParams.pow := rfl
  rw [ChainState.new, hvalid, require_pos hpow]
  rfl

def halvesBlock : Block := sampleBlock halvesGenesis 1060 0 []

theorem halvesBlock_candidate :
    Candidate samplePlatform halvesGenesis [] 0 ⟨1060⟩ halvesBlock := by
  have hsample : SampleCandidate halvesGenesis 1060 0 [] := by decide
  exact hsample.candidate rfl

theorem halvesGenesis_not_minable : ¬Minable halvesGenesis := by
  rintro ⟨-, allocation, hallocation, hminer, -⟩
  refine hminer ?_
  have hzero : ((halvesParams.monetaryPolicy.allocation 1 0).toOption.map (·.miner)) = some 0 := by
    decide
  rw [show halvesParams.monetaryPolicy.allocation 1 0 = .ok allocation from hallocation] at hzero
  exact Option.some.inj hzero

/-- The two agree on every candidate for a state that can be mined on.  Where it
cannot, no transactions pass, and no block without transactions is accepted. -/
theorem preflight_agrees_iff {state : ChainState} :
    (Minable state → ∀ transactions fees context block,
      Candidate P state transactions fees context block → FreshCoinbase P state block →
      Agrees P state transactions fees context block) ∧
    (∀ context block, Candidate P state [] 0 context block →
      Agrees P state [] 0 context block → Minable state) := by
  constructor
  · intro hminable transactions fees context block hcandidate hfresh
    constructor
    · exact hcandidate.accepted hminable hfresh
    · rintro ⟨validated, hvalid, rfl⟩
      rw [← hcandidate.transactions]
      exact passes_of_validateBlock hvalid
  · intro context block hcandidate hagrees
    obtain ⟨validated, hvalid, -⟩ := hagrees.mp (passes_nil state)
    exact hcandidate.minable hvalid

/-- The funding transaction passes, so the sample block with it is accepted. -/
theorem preflight_agrees_iff_sample :
    ChainRun samplePlatform sampleParams sampleVerifier [⟨sampleBlock₁, ⟨1060⟩, 0⟩] sampleState₁ ∧
      Agrees samplePlatform sampleState₁ [sampleFunding] 10000 ⟨1120⟩ sampleBlock₂ :=
  ⟨sampleRun₁,
    preflight_agrees_iff.1 sampleState₁_minable _ _ _ _ sampleBlock₂_candidate sampleBlock₂_fresh⟩

/-- On the fresh state of a valid network, no transactions pass and their block is
not accepted: its coinbase would pay the miner nothing. -/
theorem preflight_disagrees :
    ChainRun samplePlatform halvesParams sampleVerifier [] halvesGenesis ∧
      Candidate samplePlatform halvesGenesis [] 0 ⟨1060⟩ halvesBlock ∧
      FreshCoinbase samplePlatform halvesGenesis halvesBlock ∧
      ¬Agrees samplePlatform halvesGenesis [] 0 ⟨1060⟩ halvesBlock := by
  refine ⟨.new halvesGenesis_new, halvesBlock_candidate, ⟨fun _ => rfl, fun _ hmem => ?_⟩, ?_⟩
  · cases hmem
  · intro hagrees
    obtain ⟨validated, hvalid, -⟩ := hagrees.mp (passes_nil halvesGenesis)
    exact halvesGenesis_not_minable (halvesBlock_candidate.minable hvalid)

end CommonFoundry
