/-
# `CommonFoundry.Node.Template` — the template of a node, and the block made of it

`build_template` and `submit_block` are separate code.  The block that a template
and an accepted proof make is a `Candidate` for the state the template was built on,
whatever is in the pool: the pool passes as a whole, and its bytes leave room for the
rest of a block.  A later node with the same tip has the same state
(`NodeRun.state_of_tip`), and no accepted block is a child of its tip, so the block is
new.  What is left is whether the canonical coinbase of the height can be created.
-/
import CommonFoundry.Consensus.HeaderChain
import CommonFoundry.Node.Pending

namespace CommonFoundry

open Lib Lib.Outcome Lib.Ledger

variable {P : Platform}

/-- The template's block, with a proof (`build_block_if_chain_valid`). -/
def BlockTemplate.block (template : BlockTemplate) (proof : BlockProof) : Block where
  version := blockVersion
  challenge := template.challenge
  proof
  coinbase := template.coinbase
  transactions := template.transactions

section

variable {params : NetworkParams} {verifier : ConsensusPowVerifier}
  {accepted more : List Acceptance} {node later : Node}

/-- Two nodes with the same tip have the same state, if one has accepted what the
other has. -/
theorem NodeRun.state_of_tip (h : NodeRun P params verifier accepted node)
    (hlater : NodeRun P params verifier (accepted ++ more) later)
    (htip : later.state.tip = node.state.tip) : later.state = node.state := by
  obtain ⟨branch, hbranch, hstate, _⟩ := h.consistent.follows.live
  obtain ⟨branch', hbranch', hstate', _⟩ := hlater.consistent.follows.live
  have htree := hlater.consistent.follows.tree
  have hgenesis : node.index.genesis = later.index.genesis :=
    h.consistent.follows.tree.genesis.trans htree.genesis.symm
  rw [hgenesis] at hbranch
  obtain rfl := htree.branch_unique (hbranch.mono (List.subset_append_left _ _)) hbranch' htip
  exact Except.ok.inj (hstate'.symm.trans hstate)

/-- A child of the tip would be heavier than the tip. -/
theorem NodeRun.parent_ne_tip (h : NodeRun P params verifier accepted node) :
    ∀ b ∈ accepted, b.parent ≠ node.state.tip := by
  intro b hmem hparent
  have htree := h.consistent.follows.tree
  obtain ⟨live, hlive, -⟩ := h.consistent.follows.live
  obtain ⟨branch, entry, _, hbranch, _, hentry, _⟩ := htree.entry b hmem
  obtain rfl := htree.branch_unique hlive hbranch hparent
  have hpos := blockWork_pos hentry.blockWork
  have hle := h.consistent.follows.best.le (b.id P)
    (List.mem_cons_of_mem _ (List.mem_map.mpr ⟨b, hmem, rfl⟩))
  rw [htree.weight_eq (.child hmem hbranch), htree.weight_eq hlive, branchWork_snoc] at hle
  omega

theorem le_max_word (a b : UInt64) : b ≤ max a b := by
  show b ≤ if a ≤ b then b else a
  split
  · exact UInt64.le_refl b
  · next hnot => exact UInt64.le_of_lt (UInt64.not_le.mp hnot)

/-- The bytes of a pool leave room for the rest of a block. -/
theorem PoolInvariant.room {state : ChainState} {pool : Mempool} (h : PoolInvariant P state pool) :
    (pool.transactions.map fun transaction => 4 + transaction.payloadSize).sum ≤
      maxMempoolBytes := by
  refine le_trans ?_ h.bytes_le
  rw [h.bytes, encodedBytes_eq, transactions_eq, List.map_map]
  refine List.sum_le_sum fun item hmem => ?_
  obtain ⟨canonical, hencode, hsize⟩ := (h.pooled item hmem).entered.size
  have hheader : wireHeaderBytes = 16 := rfl
  have hlength := (encodeTransaction_eq_ok hencode).2.2
  show 4 + item.2.transaction.payloadSize ≤ item.2.encodedBytes
  omega

/-- The block of a template is a candidate for the state it was built on. -/
theorem NodeRun.candidate (h : NodeRun P params verifier accepted node) {miner : Bytes32}
    {now : UInt64} {template : BlockTemplate}
    (hbuild : node.buildTemplate P miner now = .ok template) {proof : BlockProof}
    (hproof : verifier.verify template.challenge proof = .ok ()) :
    Passes P node.state template.transactions template.totalFeesBurned ∧
      Candidate P node.state template.transactions template.totalFeesBurned ⟨now⟩
        (template.block proof) := by
  obtain ⟨blocks, hrun⟩ := h.chain
  have hparams : node.params = node.state.params :=
    h.consistent.constant.1.trans hrun.constant.1.symm
  simp only [Node.buildTemplate, bind_eq_ok, require_eq_ok, okOr_eq_ok, mapErr_eq_ok, pure_eq_ok,
    gt_iff_lt, UInt64.not_lt] at hbuild
  obtain ⟨_, _, _, hkey, earliest, hearliest, latest, hlatest, _, htime, validation, hvalidation,
    allocation, hallocation, target, htarget, rfl⟩ := hbuild
  rw [hparams] at hlatest hallocation
  refine ⟨⟨validation, hvalidation, rfl⟩, rfl, rfl, ?_, rfl, rfl, ?_, ⟨latest, hlatest, ?_⟩, htarget,
    rfl, ?_, ⟨allocation, miner, hallocation, hkey, ?_⟩, ?_⟩
  · exact congrArg NetworkParams.networkId hparams
  · have hmedian := checkedAdd_eq_some.mp hearliest
    have hone : (1 : UInt64).toNat = 1 := rfl
    have hle := UInt64.le_iff_toNat_le.mp (le_max_word now earliest)
    show node.state.medianTimePast < max now earliest
    rw [UInt64.lt_iff_toNat_lt]
    omega
  · exact UInt64.not_lt.mpr htime
  · rw [hrun.constant.2]
    exact hproof
  · rw [hparams]
    rfl
  · have hroom := h.poolInvariant.room
    have hcoinbase := coinbase_length node.state.nextHeight allocation miner node.params.rewards
    have hproofSize := proof.payloadSize_le
    have hlimits : maxBlockBytes = 1048576 ∧ maxMempoolBytes = 524288 ∧ maxCoinbaseOutputs = 3 ∧
        wireHeaderBytes = 16 := ⟨rfl, rfl, rfl, rfl⟩
    rw [Mempool.transactions] at hroom
    simp only [Block.frameSize, Block.payloadSize, BlockTemplate.block]
    omega

/-! ## The theorem -/

/-- No digest of the block is one that is known: its identifier belongs to no other
accepted block, and its coinbase's to no output or transaction. -/
structure FreshDigests (P : Platform) (accepted : List Acceptance) (node : Node) (block : Block) :
    Prop where
  genesis : block.blockId P ≠ node.index.genesis
  blocks : ∀ b ∈ accepted, b.id P = block.blockId P → b.parent = block.challenge.previousBlock
  coinbase : FreshCoinbase P node.state block

end

/-! ## Templates of the sample network -/

def sampleProof : BlockProof :=
  .v1Legacy {
    algorithmVersion := 1, modelVersion := 1, nonce := 0, modelRoot := zero32
    outputDigest := zero32, workDigest := zero32 }

/-- The template of a sample node, or an empty one when there is none. -/
def sampleTemplate (node : Node) (now : UInt64) : BlockTemplate :=
  match node.buildTemplate samplePlatform (toBytes 5) now with
  | .ok template => template
  | .error _ => {
      challenge := sampleBlock₁.challenge, coinbase := sampleBlock₁.coinbase, transactions := []
      totalFeesBurned := 0 }

/-- The block of the template of a sample node, with digests that can be compared. -/
structure SampleTemplate (accepted : List Acceptance) (node : Node) (now : UInt64) : Prop where
  built : (node.buildTemplate samplePlatform (toBytes 5) now).isOk = true
  genesis : ((sampleTemplate node now).block sampleProof).blockId samplePlatform ≠
    node.index.genesis
  blocks : ∀ b ∈ accepted, b.id samplePlatform ≠
    ((sampleTemplate node now).block sampleProof).blockId samplePlatform
  outputs : ∀ entry ∈ node.state.utxos.outputs.entries,
    entry.1.txid ≠ ((sampleTemplate node now).block sampleProof).coinbaseOutpointId samplePlatform
  transactions : ∀ transaction ∈ (sampleTemplate node now).transactions,
    transaction.txid samplePlatform ≠
      ((sampleTemplate node now).block sampleProof).coinbaseOutpointId samplePlatform

instance (accepted : List Acceptance) (node : Node) (now : UInt64) :
    Decidable (SampleTemplate accepted node now) :=
  decidable_of_iff (_ ∧ _ ∧ _ ∧ _ ∧ _)
    ⟨fun ⟨ha, hb, hc, hd, he⟩ => ⟨ha, hb, hc, hd, he⟩,
      fun ⟨ha, hb, hc, hd, he⟩ => ⟨ha, hb, hc, hd, he⟩⟩

theorem SampleTemplate.fresh {accepted : List Acceptance} {node : Node} {now : UInt64}
    (h : SampleTemplate accepted node now) :
    FreshDigests samplePlatform accepted node ((sampleTemplate node now).block sampleProof) where
  genesis := h.genesis
  blocks b hmem heq := absurd heq (h.blocks b hmem)
  coinbase := ⟨UtxoSet.get_eq_none_of_txid h.outputs, h.transactions⟩

end CommonFoundry
