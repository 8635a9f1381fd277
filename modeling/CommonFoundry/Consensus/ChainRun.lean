/-
# `CommonFoundry.Consensus.ChainRun` — accepted blocks as ledger runs, and runs of a chain

One accepted block is one run of the ledger: a step for each transaction and a
last one for the coinbase (`BlockApplied`).  The delta that is committed was
staged on an overlay, so this is where the overlay leaves the picture: what is
committed is what the same rules leave in place (`Tracks`).

`ChainRun` is any sequence of accepted blocks from a fresh chain state, with the
fees each of them returned.
-/
import CommonFoundry.Consensus.TransactionLedger
import CommonFoundry.Consensus.ChainState

namespace CommonFoundry

open Lib Lib.Outcome Lib.Ledger

variable {P : Platform}

/-! ## The transactions of a block -/

/-- The sum of the values of all unspent outputs. -/
def UtxoSet.totalValue (utxos : UtxoSet) : Nat := weight outputValue utxos.outputs

/-- The outpoints the inputs of these transactions reference, in order. -/
def references (transactions : List Transaction) : List OutPoint :=
  transactions.flatMap Transaction.consumed

theorem references_cons (transaction : Transaction) (rest : List Transaction) :
    references (transaction :: rest) = transaction.consumed ++ references rest := rfl

/-- What a loop of `apply_transaction` in place amounts to. -/
structure TransactionsApplied (P : Platform) (networkId : Bytes32) (height : UInt64)
    (acc : Applied UtxoSet) (transactions : List Transaction) (applied : Applied UtxoSet) :
    Prop where
  run : Run TxOutput.channel acc.view.ledger (transactions.map (·.entry P)) applied.view.ledger
  nodup : (references transactions).Nodup
  unspent : ∀ outpoint ∈ references transactions, outpoint ∉ acc.spent
  spent_eq : applied.spent = acc.spent ∪ (references transactions).toFinset
  value : applied.view.totalValue + applied.fee.toNat = acc.view.totalValue + acc.fee.toNat
  outputs_lt : ∀ transaction ∈ transactions, valueOf transaction.outputs < 2 ^ 64

theorem created_value (transaction : Transaction) :
    ((transaction.created P).map fun kv => outputValue kv.2).sum = valueOf transaction.outputs := by
  rw [Transaction.created, map_outpointsOf, valueOf]

/-- One turn of the loop. -/
theorem applyTransactions_cons {networkId : Bytes32} {height : UInt64} {acc applied : Applied UtxoSet}
    {transaction : Transaction} {rest : List Transaction} :
    applyTransactions P height networkId acc (transaction :: rest) = .ok applied ↔
      ∃ one fee, applyTransaction P acc.view transaction height networkId acc.spent = .ok one ∧
        checkedAdd acc.fee one.fee = some fee ∧
        applyTransactions P height networkId { one with fee } rest = .ok applied := by
  simp only [applyTransactions, foldlM_cons_eq_ok, bind_eq_ok, okOr_eq_ok, pure_eq_ok]
  constructor
  · rintro ⟨_, ⟨one, hone, fee, hfee, rfl⟩, hrest⟩
    exact ⟨one, fee, hone, hfee, hrest⟩
  · rintro ⟨one, fee, hone, hfee, hrest⟩
    exact ⟨_, ⟨one, hone, fee, hfee, rfl⟩, hrest⟩

theorem applyTransactions_append {networkId : Bytes32} {height : UInt64}
    {acc applied : Applied UtxoSet} {pre post : List Transaction} :
    applyTransactions P height networkId acc (pre ++ post) = .ok applied ↔
      ∃ mid, applyTransactions P height networkId acc pre = .ok mid ∧
        applyTransactions P height networkId mid post = .ok applied :=
  foldlM_append_eq_ok

theorem applyTransactions_inPlace {networkId : Bytes32} {height : UInt64}
    {transactions : List Transaction} :
    ∀ {acc applied : Applied UtxoSet},
      applyTransactions P height networkId acc transactions = .ok applied →
      TransactionsApplied P networkId height acc transactions applied := by
  induction transactions with
  | nil =>
      intro acc applied h
      rw [applyTransactions, List.foldlM_nil, pure_eq_ok] at h
      subst h
      exact ⟨.nil _, List.nodup_nil, fun _ hmem => (by cases hmem), (by simp [references]), rfl,
        fun _ hmem => (by cases hmem)⟩
  | cons transaction rest ih =>
      intro acc applied h
      obtain ⟨one, fee, hone, hfee, hrest⟩ := applyTransactions_cons.mp h
      have first := applyTransaction_inPlace hone
      have later := ih hrest
      refine ⟨.cons first.step later.run, ?_, ?_, ?_, ?_, ?_⟩
      · refine List.nodup_append.mpr ⟨first.step.nodup, later.nodup, ?_⟩
        rintro o ho o' ho' rfl
        refine later.unspent o ho' ?_
        show o ∈ one.spent
        rw [first.spent_eq]
        exact Finset.mem_union_right _ (List.mem_toFinset.mpr ho)
      · intro o ho
        rcases List.mem_append.mp ho with ho | ho
        · exact first.unspent o ho
        · intro hspent
          refine later.unspent o ho ?_
          show o ∈ one.spent
          rw [first.spent_eq]
          exact Finset.mem_union_left _ hspent
      · rw [later.spent_eq, first.spent_eq, references_cons, List.toFinset_append,
          Finset.union_assoc]
      · have hweight : one.view.totalValue +
              held outputValue acc.view.outputs transaction.consumed =
            acc.view.totalValue + ((transaction.created P).map fun kv => outputValue kv.2).sum :=
          first.step.weight_add
        rw [created_value, first.fee] at hweight
        have hlater : applied.view.totalValue + applied.fee.toNat =
            one.view.totalValue + fee.toNat := later.value
        rw [checkedAdd_eq_some] at hfee
        omega
      · intro other hmem
        rcases List.mem_cons.mp hmem with rfl | hmem
        · have hfee := first.fee
          have hlt := first.inputs_lt
          omega
        · exact later.outputs_lt other hmem

/-- An input is authorised against the set its transaction found. -/
theorem applyTransactions_authorised {networkId : Bytes32} {height : UInt64}
    {acc applied : Applied UtxoSet} {pre post : List Transaction} {transaction : Transaction}
    (h : applyTransactions P height networkId acc (pre ++ transaction :: post) = .ok applied) :
    ∃ mid, applyTransactions P height networkId acc pre = .ok mid ∧
      ∀ input ∈ transaction.inputs, ∃ previous, mid.view.get input.previous = some previous ∧
        Authorised P networkId height transaction input previous := by
  obtain ⟨mid, hpre, hpost⟩ := applyTransactions_append.mp h
  obtain ⟨one, _, hone, _, _⟩ := applyTransactions_cons.mp hpost
  exact ⟨mid, hpre, (applyTransaction_inPlace hone).authorised⟩

/-! ## The coinbase -/

/-- The coinbase as a ledger entry: it consumes nothing. -/
def Block.coinbaseEntry (P : Platform) (block : Block) : Entry OutPoint TxOutput :=
  { consumed := [], created := outpointsOf (block.coinbaseOutpointId P) block.coinbase.outputs }

/-- The ledger entries of a block, in order. -/
def Block.entries (P : Platform) (block : Block) : List (Entry OutPoint TxOutput) :=
  block.transactions.map (·.entry P) ++ [block.coinbaseEntry P]

theorem insertCoinbase_inPlace {block : Block} {utxos utxos' : UtxoSet}
    (h : insertOutputs utxos (block.coinbaseOutpointId P) block.coinbase.outputs = .ok utxos') :
    Step TxOutput.channel utxos.ledger (block.coinbaseEntry P) utxos'.ledger := by
  obtain ⟨hfresh, hnodup, hopens, houtputs, hactive, hretired⟩ := insertOutputs_inPlace h
  refine ⟨List.nodup_nil, fun _ hmem => (by cases hmem), hfresh, hnodup, hopens, houtputs, ?_, ?_⟩
  · show utxos'.activeChannels = (utxos.activeChannels \ ∅) ∪ _
    rw [Finset.sdiff_empty]
    exact hactive
  · show utxos'.retiredChannels = utxos.retiredChannels ∪ ∅
    rw [Finset.union_empty]
    exact hretired

/-- An output that is left out because it would be worth nothing adds nothing. -/
theorem valueOf_optional {value : UInt64} {lock : OutputLock} {spendableHeight : UInt64} :
    valueOf (if value > 0 then [{ value, lock, spendableHeight }] else []) = value.toNat := by
  split
  · rfl
  · next h =>
      have hzero : value.toNat = 0 := by
        have hle := UInt64.le_iff_toNat_le.mp (UInt64.not_lt.mp h)
        rw [UInt64.toNat_zero] at hle
        omega
      rw [hzero]
      rfl

theorem valueOf_append (a b : List TxOutput) : valueOf (a ++ b) = valueOf a + valueOf b := by
  rw [valueOf, List.map_append, List.sum_append, valueOf, valueOf]

theorem coinbase_value (height : UInt64) (allocation : Allocation) (destination : Bytes32)
    (rewards : FixedRewardDestinations) :
    valueOf (Coinbase.new height allocation destination rewards).outputs =
      allocation.miner.toNat + allocation.steward.toNat + allocation.community.toNat := by
  rw [Coinbase.new, ← List.singleton_append, valueOf_append, valueOf_append, valueOf_optional,
    valueOf_optional]
  show allocation.miner.toNat + 0 + _ = _
  omega

/-- An accepted coinbase is the canonical one for its miner. -/
theorem validateCoinbase_outputs {coinbase : Coinbase} {allocation : Allocation}
    {rewards : FixedRewardDestinations} {u : Unit}
    (h : validateCoinbase P coinbase allocation rewards = .ok u) :
    ∃ destination,
      coinbase.outputs = (Coinbase.new coinbase.height allocation destination rewards).outputs := by
  simp only [validateCoinbase, bind_eq_ok, require_eq_ok] at h
  obtain ⟨destination, _, _, _, _, houtputs, _⟩ := h
  exact ⟨destination, houtputs⟩

/-! ## A block, in place -/

/-- What an accepted block does to the unspent set. -/
structure BlockApplied (P : Platform) (params : NetworkParams) (utxos : UtxoSet) (block : Block)
    (fees : UInt64) (utxos' : UtxoSet) : Prop where
  transactions : ∃ applied, applyTransactions P block.challenge.height params.networkId
    { fee := 0, view := utxos, spent := ∅ } block.transactions = .ok applied ∧
      applied.fee = fees ∧
      Step TxOutput.channel applied.view.ledger (block.coinbaseEntry P) utxos'.ledger
  coinbase : ∃ allocation destination,
    params.monetaryPolicy.allocation block.challenge.height fees = .ok allocation ∧
      block.coinbase.outputs =
        (Coinbase.new block.coinbase.height allocation destination params.rewards).outputs

theorem applyBlock_inPlace {params : NetworkParams} {utxos utxos' : UtxoSet} {block : Block}
    {fees : UInt64} (h : applyBlock P utxos block params = .ok (fees, utxos')) :
    BlockApplied P params utxos block fees utxos' := by
  simp only [applyBlock, bind_eq_ok, pure_eq_ok, mapErr_eq_ok, Prod.mk.injEq] at h
  obtain ⟨applied, happlied, allocation, hallocation, _, hcoinbase, view, hview, rfl, rfl⟩ := h
  obtain ⟨destination, houtputs⟩ := validateCoinbase_outputs hcoinbase
  exact ⟨⟨applied, happlied, rfl, insertCoinbase_inPlace hview⟩,
    ⟨allocation, destination, hallocation, houtputs⟩⟩

theorem applyBlock_refines {σ τ : Type} [UtxoView σ] [UtxoView τ] {ok : σ → Prop} {view : σ → τ}
    (R : UtxoView.Refines ok view) {s : σ} (hs : ok s) (block : Block) (params : NetworkParams) :
    Tracks (fun result => ok result.2) (fun result : UInt64 × σ => (result.1, view result.2))
      (applyBlock P s block params) (applyBlock P (view s) block params) := by
  refine (applyTransactions_refines R P hs block.challenge.height params.networkId
    block.transactions).bind fun applied happlied => ?_
  refine Tracks.same fun _ => Tracks.same fun _ => ?_
  exact (insertOutputs_refines R happlied _ _).bind fun candidate hcandidate =>
    Tracks.pure (f := fun result : UInt64 × σ => (result.1, view result.2))
      (a := (applied.fee, candidate)) hcandidate

/-- The delta of a validated block: it matches the set it was validated against,
and committing it is applying the block in place. -/
theorem validateDelta_inPlace {utxos : UtxoSet} {block : Block} {verifier : ConsensusPowVerifier}
    {params : NetworkParams} {fees : UInt64} {delta : UtxoDelta}
    (h : utxos.validateDelta P block verifier params = .ok (fees, delta)) :
    validateBlockHeader P block verifier params = .ok () ∧ delta.Matches utxos ∧
      applyBlock P utxos block params = .ok (fees, delta.apply utxos) := by
  simp only [UtxoSet.validateDelta, bind_eq_ok, pure_eq_ok] at h
  obtain ⟨_, hheader, ⟨fees', candidate⟩, hblock, heq⟩ := h
  rw [Prod.mk.injEq] at heq
  obtain ⟨rfl, rfl⟩ := heq
  obtain ⟨htracks, hgood⟩ := applyBlock_refines (P := P) (UtxoOverlay.refines utxos)
    (UtxoOverlay.staged_new utxos) block params
  have hstaged : UtxoOverlay.Staged utxos candidate := hgood _ hblock
  rw [UtxoOverlay.view_new, hblock] at htracks
  refine ⟨hheader, hstaged.matches, htracks.trans ?_⟩
  show Except.ok (fees', candidate.delta.apply candidate.base) = _
  rw [hstaged.base_eq]

/-! ## One block on the chain -/

/-- What validation establishes about a block and the token it returns. -/
structure BlockValidated (P : Platform) (state : ChainState) (block : Block)
    (context : BlockValidationContext) (validated : ValidatedBlock) : Prop where
  network : block.challenge.networkId = state.params.networkId
  height : block.challenge.height = state.nextHeight
  coinbaseHeight : block.coinbase.height = state.nextHeight
  nextHeight : validated.nextHeight.toNat = state.nextHeight.toNat + 1
  maturity : state.nextHeight.toNat + coinbaseMaturity.toNat < 2 ^ 64
  previousBlock : block.challenge.previousBlock = state.tip
  target : state.expectedTarget = .ok block.challenge.target
  encoded : ∃ bytes, encodeBlock P block = .ok bytes
  nextTip : validated.nextTip = block.blockId P
  applied : BlockApplied P state.params state.utxos block validated.fees
    (state.advance validated).utxos
  current : state.Current validated

/-- The checks that do not look at the unspent set, as far as they are used. -/
theorem validateBlockHeader_eq_ok {block : Block} {verifier : ConsensusPowVerifier}
    {params : NetworkParams} {u : Unit}
    (h : validateBlockHeader P block verifier params = .ok u) :
    (∃ bytes, encodeBlock P block = .ok bytes) ∧
      block.challenge.height = block.coinbase.height := by
  simp only [validateBlockHeader, bind_eq_ok, require_eq_ok, mapErr_eq_ok] at h
  obtain ⟨_, _, _, _, _, _, _, _, bytes, hencode, _, hheight, _⟩ := h
  exact ⟨⟨bytes, hencode⟩, hheight⟩

theorem validateBlock_validated {state : ChainState} {block : Block}
    {context : BlockValidationContext} {validated : ValidatedBlock}
    (h : state.validateBlock P block context = .ok validated) :
    BlockValidated P state block context validated := by
  simp only [ChainState.validateBlock, bind_eq_ok, require_eq_ok, okOr_eq_ok, pure_eq_ok] at h
  obtain ⟨_, _, _, hnetwork, _, hheight, nextHeight, hnext, mature, hmature, _, hprevious, _, _,
    maximum, _, _, _, target, htarget, _, htargetEq, ⟨fees, delta⟩, hdelta, rfl⟩ := h
  obtain ⟨hheader, hmatches, happlied⟩ := validateDelta_inPlace hdelta
  obtain ⟨hencoded, hcoinbase⟩ := validateBlockHeader_eq_ok hheader
  rw [checkedAdd_eq_some] at hnext hmature
  refine ⟨hnetwork, hheight, hcoinbase.symm.trans hheight, hnext, ?_, hprevious, ?_, hencoded, rfl,
    applyBlock_inPlace happlied, ⟨rfl, rfl, rfl, rfl, rfl, rfl, ?_, hmatches⟩⟩
  · rw [hheight] at hmature
    rw [← hmature]
    exact toNat_lt mature
  · rw [htargetEq]
    exact htarget
  · rw [htarget]
    rfl

/-- A token is never stale against the state it was validated against. -/
theorem commitValidated_validated {state : ChainState} {block : Block}
    {context : BlockValidationContext} {validated : ValidatedBlock}
    (h : state.validateBlock P block context = .ok validated) :
    state.commitValidated validated = .ok (validated.fees, state.advance validated) := by
  rw [ChainState.commitValidated, require_pos (validateBlock_validated h).current]
  rfl

theorem validateAndApply_eq_ok {state state' : ChainState} {block : Block}
    {context : BlockValidationContext} {fees : UInt64} :
    state.validateAndApply P block context = .ok (fees, state') ↔
      ∃ validated, state.validateBlock P block context = .ok validated ∧
        fees = validated.fees ∧ state' = state.advance validated := by
  simp only [ChainState.validateAndApply, bind_eq_ok]
  constructor
  · rintro ⟨validated, hvalid, hcommit⟩
    rw [commitValidated_validated hvalid, Except.ok.injEq, Prod.mk.injEq] at hcommit
    exact ⟨validated, hvalid, hcommit.1.symm, hcommit.2.symm⟩
  · rintro ⟨validated, hvalid, rfl, rfl⟩
    exact ⟨validated, hvalid, commitValidated_validated hvalid⟩

/-! ## Runs of a chain -/

/-- One accepted block: when it was validated, and the fees it returned. -/
structure AcceptedBlock where
  block : Block
  context : BlockValidationContext
  fees : UInt64

/-- A fresh chain state, and any sequence of accepted blocks on it. -/
inductive ChainRun (P : Platform) (params : NetworkParams) (verifier : ConsensusPowVerifier) :
    List AcceptedBlock → ChainState → Prop
  | new {state : ChainState} : ChainState.new P params verifier = .ok state →
      ChainRun P params verifier [] state
  | step {accepted : List AcceptedBlock} {state state' : ChainState} {block : Block}
      {context : BlockValidationContext} {fees : UInt64} :
      ChainRun P params verifier accepted state →
      state.validateAndApply P block context = .ok (fees, state') →
      ChainRun P params verifier (accepted ++ [⟨block, context, fees⟩]) state'

/-- The block, as a step of the ledger run it is. -/
theorem BlockApplied.run {params : NetworkParams} {utxos utxos' : UtxoSet} {block : Block}
    {fees : UInt64} (h : BlockApplied P params utxos block fees utxos') :
    Run TxOutput.channel utxos.ledger (block.entries P) utxos'.ledger := by
  obtain ⟨applied, happlied, _, hcoinbase⟩ := h.transactions
  exact (applyTransactions_inPlace happlied).run.append (.singleton hcoinbase)

section Chain

variable {params : NetworkParams} {verifier : ConsensusPowVerifier}
  {accepted : List AcceptedBlock} {state : ChainState}

theorem new_eq_ok (h : ChainState.new P params verifier = .ok state) :
    params.validateForBoundVerifier P = .ok () ∧ verifier.parameters = params.pow ∧
      state.params = params ∧ state.verifier = verifier ∧ state.utxos = .empty ∧
      state.tip = params.genesisHash ∧ state.nextHeight = 1 := by
  simp only [ChainState.new, bind_eq_ok, require_eq_ok, mapErr_eq_ok, pure_eq_ok] at h
  obtain ⟨_, hvalid, _, hpow, rfl⟩ := h
  exact ⟨hvalid, hpow, rfl, rfl, rfl, rfl, rfl⟩

/-- No accepted block changes what a chain was created with. -/
theorem ChainRun.constant (h : ChainRun P params verifier accepted state) :
    state.params = params ∧ state.verifier = verifier := by
  induction h with
  | new hnew => exact ⟨(new_eq_ok hnew).2.2.1, (new_eq_ok hnew).2.2.2.1⟩
  | step _ happly ih =>
      obtain ⟨validated, _, _, rfl⟩ := validateAndApply_eq_ok.mp happly
      exact ih

/-- A chain is created for a valid policy. -/
theorem ChainRun.policy (h : ChainRun P params verifier accepted state) :
    params.monetaryPolicy.validate = .ok () := by
  induction h with
  | new hnew =>
      have hvalid := (new_eq_ok hnew).1
      simp only [NetworkParams.validateForBoundVerifier, NetworkParams.validateWithoutPow,
        bind_eq_ok, mapErr_eq_ok] at hvalid
      obtain ⟨_, ⟨_, _, _, _, _, _, _, _, _, _, _, _, _, _, _, hpolicy, _⟩, _⟩ := hvalid
      exact hpolicy
  | step _ _ ih => exact ih

theorem ChainRun.nextHeight (h : ChainRun P params verifier accepted state) :
    state.nextHeight.toNat = accepted.length + 1 := by
  induction h with
  | new hnew => rw [(new_eq_ok hnew).2.2.2.2.2.2]; rfl
  | step _ happly ih =>
      obtain ⟨validated, hvalid, _, rfl⟩ := validateAndApply_eq_ok.mp happly
      rw [List.length_append, List.length_singleton, ← ih]
      exact (validateBlock_validated hvalid).nextHeight

end Chain

/-! ## A small network

Concrete values to run the chain on: a digest that is a polynomial in the bytes,
signatures that spell out the key and the digest they sign, and a verifier that
accepts every proof. -/

/-- A digest that can be computed: the bytes as digits, folded. -/
def sampleDigest (bytes : List UInt8) : Bytes32 :=
  toBytes (bytes.foldl (fun acc byte => (acc * 257 + byte.toNat + 1) % 2 ^ 256) 7)

def samplePlatform : Platform where
  deriveKey _ := sampleDigest
  verifyingKey _ := true
  signature bytes := bytes.length = consensusSignatureBytes
  verify key digest signature := signature = key.1 ++ digest.1
  publicKey key := key.secret
  sign key digest := ⟨key.secret.1 ++ digest.1, by
    rw [List.length_append, key.secret.2, digest.2]⟩
  overflowChecks := false

/-- The sample signatures verify under the key that made them. -/
theorem samplePlatform_signsCorrectly : samplePlatform.SignsCorrectly where
  verifyingKey _ := rfl
  signature key digest :=
    decide_eq_true (by rw [samplePlatform, List.length_append, key.secret.2, digest.2]; rfl)
  verify _ _ := decide_eq_true rfl

def samplePow : PowParameters :=
  .v1Legacy {
    algorithmVersion := 1, modelVersion := 1, dimension := 2, batch := 1, layers := 1
    modelSeed := zero32 }

def sampleParams : NetworkParams where
  networkId := toBytes 1
  protocolVersion := networkProtocolVersion
  genesisHash := toBytes 2
  genesisTimestamp := 1000
  powLimit := toBytes (2 ^ 255)
  pow := samplePow
  monetaryPolicy := {
    initialSubsidy := 1000000, tailHeight := 100, tailSubsidy := 100, stewardPercent := 10
    communityPercent := 10 }
  rewards := { steward := toBytes 3, community := toBytes 4 }
  maxFutureOffsetSecs := 7200

def sampleVerifier : ConsensusPowVerifier where
  parameters := samplePow
  verify _ _ := .ok ()

/-- The state `ChainState::new` returns for the sample network. -/
def sampleGenesis : ChainState where
  params := sampleParams
  utxos := .empty
  history := [{ timestamp := 1000, target := toBytes (2 ^ 255) }]
  rawTimestamps := [1000]
  tip := toBytes 2
  nextHeight := 1
  verifier := sampleVerifier
  rawTimestamps_ne := List.cons_ne_nil _ _

theorem sampleGenesis_new :
    ChainState.new samplePlatform sampleParams sampleVerifier = .ok sampleGenesis := by
  have hvalid : sampleParams.validateForBoundVerifier samplePlatform = .ok () := by
    decide
  have hpow : sampleVerifier.parameters = sampleParams.pow := rfl
  rw [ChainState.new, hvalid, require_pos hpow]
  rfl

/-- A block with these transactions, burning these fees, on top of a state. -/
def sampleBlock (state : ChainState) (timestamp fees : UInt64) (transactions : List Transaction) :
    Block :=
  let height := state.nextHeight
  let allocation :=
    match state.params.monetaryPolicy.allocation height fees with
    | .ok allocation => allocation
    | .error _ => { subsidy := 0, miner := 0, steward := 0, community := 0, feesBurned := 0 }
  let challenge : BlockChallenge := {
    networkId := state.params.networkId
    previousBlock := state.tip
    transactionRoot := zero32
    height
    timestamp
    target := (state.expectedTarget.toOption).getD zero32 }
  let block : Block := {
    version := blockVersion
    challenge
    proof := .v1Legacy {
      algorithmVersion := 1, modelVersion := 1, nonce := 0, modelRoot := zero32
      outputDigest := zero32, workDigest := zero32 }
    coinbase := Coinbase.new height allocation (toBytes 5) state.params.rewards
    transactions }
  { block with
    challenge := { challenge with transactionRoot := block.transactionRoot samplePlatform } }

/-- The state after a block, or the same state when it is not accepted. -/
def sampleApply (state : ChainState) (block : Block) : ChainState :=
  match state.validateAndApply samplePlatform block ⟨block.challenge.timestamp⟩ with
  | .ok (_, state') => state'
  | .error _ => state

theorem sampleApply_eq_ok {state : ChainState} {block : Block} {fees : UInt64}
    (h : Prod.fst <$> state.validateAndApply samplePlatform block ⟨block.challenge.timestamp⟩ =
      .ok fees) :
    state.validateAndApply samplePlatform block ⟨block.challenge.timestamp⟩ =
      .ok (fees, sampleApply state block) := by
  unfold sampleApply
  cases hresult : state.validateAndApply samplePlatform block ⟨block.challenge.timestamp⟩ with
  | ok result =>
      rw [hresult] at h
      obtain rfl : result.1 = fees := Except.ok.inj h
      rfl
  | error fault =>
      rw [hresult] at h
      cases h

/-- The first sample block: a coinbase alone. -/
def sampleBlock₁ : Block := sampleBlock sampleGenesis 1060 0 []

def sampleState₁ : ChainState := sampleApply sampleGenesis sampleBlock₁

/-- Terms of a sample channel, between the steward and a provider. -/
def sampleTerms : ChannelTerms where
  networkId := toBytes 1
  jobId := toBytes 10
  customerKey := toBytes 3
  providerKey := toBytes 6
  modelDigest := zero32
  runtimeDigest := zero32
  inputDigest := zero32
  deposit := 90000
  closeFeeBurn := 100
  basePrice := 1000
  inputPricePer1000 := 10
  outputPricePer1000 := 20
  maxInputTokens := 1000
  maxOutputTokens := 1000
  outputChunkTokens := 100
  refundHeight := 3

def sampleChannel : Bytes32 :=
  ((sampleTerms.channelId samplePlatform).toOption).getD zero32

/-- A transaction that spends the outpoints with one key, signed. -/
def sampleTransaction (key : Bytes32) (outpoints : List OutPoint) (outputs : List TxOutput) :
    Transaction :=
  let unsigned : Transaction := {
    networkId := toBytes 1
    version := transactionVersion
    inputs := outpoints.map fun previous => { previous, witness := .key key [] }
    outputs }
  let signature := samplePlatform.sign ⟨key⟩ (unsigned.signingDigest samplePlatform)
  { unsigned with
    inputs := outpoints.map fun previous => { previous, witness := .key key signature.1 } }

/-- The steward of the first block funds the channel and burns the rest. -/
def sampleFunding : Transaction :=
  sampleTransaction (toBytes 3) [⟨sampleBlock₁.coinbaseOutpointId samplePlatform, 1⟩]
    [{ value := 90000, lock := .inferenceChannel sampleChannel, spendableHeight := 2 }]

def sampleBlock₂ : Block := sampleBlock sampleState₁ 1120 10000 [sampleFunding]

def sampleState₂ : ChainState := sampleApply sampleState₁ sampleBlock₂

theorem sampleBlock₁_applied :
    sampleGenesis.validateAndApply samplePlatform sampleBlock₁ ⟨1060⟩ = .ok (0, sampleState₁) :=
  sampleApply_eq_ok (by decide +kernel)

theorem sampleBlock₂_applied :
    sampleState₁.validateAndApply samplePlatform sampleBlock₂ ⟨1120⟩ =
      .ok (10000, sampleState₂) :=
  sampleApply_eq_ok (by decide +kernel)

/-- The two sample blocks, as a run. -/
def sampleAccepted : List AcceptedBlock :=
  [⟨sampleBlock₁, ⟨1060⟩, 0⟩, ⟨sampleBlock₂, ⟨1120⟩, 10000⟩]

theorem sampleRun : ChainRun samplePlatform sampleParams sampleVerifier sampleAccepted
    sampleState₂ :=
  (ChainRun.step (.new sampleGenesis_new) sampleBlock₁_applied).step sampleBlock₂_applied

end CommonFoundry
