/-
# `CommonFoundry.Consensus.Identity` — an identifier names one accepted block

A block identifier hashes the header and the proof; the header holds the root of a
tree over the commitment to the coinbase and the identifiers of the transactions.
The hashes in use are known (`Block.hashCalls`), and no more is assumed of the hash
function than that these calls do not collide (`CollisionFree`): two calls with one
result have the same domain and the same bytes.

Different lists can have one root, because the last node of an odd level is paired
with itself.  An accepted block rules this out: every transaction spends something,
nothing is spent twice, so no transaction occurs twice (`nodup_ids`) and the leaves
are those of one list (`merkleRoot_inj`).
-/
import CommonFoundry.Consensus.Preimage
import CommonFoundry.Lib.MerkleTree

namespace CommonFoundry

open Lib Lib.Outcome Lib.Codec

variable {P : Platform}

/-! ## Hash calls -/

/-- A domain, and the bytes hashed under it. -/
abbrev HashCall := String × List UInt8

/-- No two of these calls collide. -/
def Platform.CollisionFree (P : Platform) (calls : List HashCall) : Prop :=
  ∀ call ∈ calls, ∀ call' ∈ calls,
    P.deriveKey call.1 call.2 = P.deriveKey call'.1 call'.2 → call = call'

instance (calls : List HashCall) : Decidable (P.CollisionFree calls) :=
  inferInstanceAs (Decidable (∀ call ∈ calls, ∀ call' ∈ calls, _))

/-- The node over two hashes. -/
def nodeHash (P : Platform) (pair : Bytes32 × Bytes32) : Bytes32 :=
  P.deriveKey merkleNodeDomain (pair.1.1 ++ pair.2.1)

/-- The calls of `merkleFold`. -/
def merkleFoldCalls (P : Platform) : Nat → List Bytes32 → List HashCall
  | _, [] => []
  | _, [_] => []
  | 0, _ => []
  | rounds + 1, level =>
      (MerkleTree.pairs level).map (fun pair => (merkleNodeDomain, pair.1.1 ++ pair.2.1)) ++
        merkleFoldCalls P rounds (merkleLevel P level)

/-- The calls of `merkleRoot` for a list that is not empty. -/
def merkleCalls (P : Platform) (txids : List Bytes32) : List HashCall :=
  let level := txids.map fun txid => P.deriveKey merkleLeafDomain txid.1
  txids.map (fun txid => (merkleLeafDomain, txid.1)) ++ merkleFoldCalls P level.length level

namespace Block

/-- What the tree of a block is over. -/
def ids (P : Platform) (block : Block) : List Bytes32 :=
  block.coinbase.commitment P block.challenge.networkId :: block.transactions.map (·.txid P)

/-- The calls behind the identifiers of a block and of its parts. -/
def hashCalls (P : Platform) (block : Block) : List HashCall :=
  (blockIdDomain, block.idBytes) ::
    (coinbaseOutpointDomain, block.outpointBytes P) ::
    (coinbaseIdDomain, block.coinbase.commitmentBytes block.challenge.networkId) ::
    (block.transactions.map (fun transaction => (txIdDomain, transaction.idBytes P)) ++
      merkleCalls P (block.ids P))

end Block

namespace Platform.CollisionFree

variable {calls some : List HashCall}

theorem mono (h : P.CollisionFree calls) (hsub : ∀ call ∈ some, call ∈ calls) :
    P.CollisionFree some :=
  fun call hcall call' hcall' => h call (hsub call hcall) call' (hsub call' hcall')

theorem bytes_eq (h : P.CollisionFree calls) {domain domain' : String} {bytes bytes' : List UInt8}
    (hmem : (domain, bytes) ∈ calls) (hmem' : (domain', bytes') ∈ calls)
    (heq : P.deriveKey domain bytes = P.deriveKey domain' bytes') :
    domain = domain' ∧ bytes = bytes' :=
  Prod.mk.inj (h _ hmem _ hmem' heq)

end Platform.CollisionFree

/-! ## The tree -/

theorem merkleLevel_eq (hashes : List Bytes32) :
    merkleLevel P hashes = MerkleTree.level (nodeHash P) hashes := by
  fun_induction merkleLevel P hashes with
  | case1 => rfl
  | case2 last => rfl
  | case3 left right rest ih =>
      rw [ih]
      rfl

theorem length_merkleLevel (hashes : List Bytes32) :
    2 * (merkleLevel P hashes).length ≤ hashes.length + 1 := by
  fun_induction merkleLevel P hashes with
  | case1 => exact Nat.zero_le _
  | case2 last => exact le_rfl
  | case3 left right rest ih =>
      simp only [List.length_cons]
      omega

/-- The pairs that are hashed by these calls. -/
def hashedPairs (calls : List HashCall) : Set (Bytes32 × Bytes32) :=
  { pair | (merkleNodeDomain, pair.1.1 ++ pair.2.1) ∈ calls }

theorem injOn_nodeHash {calls : List HashCall} (h : P.CollisionFree calls) :
    (hashedPairs calls).InjOn (nodeHash P) := by
  intro pair hpair pair' hpair' heq
  obtain ⟨_, hbytes⟩ := h.bytes_eq hpair hpair' heq
  obtain ⟨hleft, hright⟩ := array_append_inj hbytes
  exact Prod.ext hleft (Subtype.ext hright)

/-- The root is what is left on some level, and the calls are those of the levels below. -/
theorem merkleFold_eq {rounds : Nat} {level : List Bytes32} (hne : level ≠ [])
    (hlength : level.length ≤ rounds + 1) :
    ∃ height, (MerkleTree.level (nodeHash P))^[height] level = [merkleFold P rounds level] ∧
      MerkleTree.Hashes (nodeHash P) (hashedPairs (merkleFoldCalls P rounds level)) height
        level := by
  fun_induction merkleFold P rounds level with
  | case1 => exact absurd rfl hne
  | case2 _ root => exact ⟨0, rfl, fun _ hk => absurd hk (Nat.not_lt_zero _)⟩
  | case3 first rest hrest =>
      -- without rounds left there is one hash
      rw [List.length_cons] at hlength
      exact absurd (List.eq_nil_of_length_eq_zero (by omega)) hrest
  | case4 rounds level hnil hone ih =>
      have hlevel := length_merkleLevel (P := P) level
      have hmany : 2 ≤ level.length := by
        rcases level with _ | ⟨first, _ | ⟨second, rest⟩⟩
        · exact absurd rfl hnil
        · exact absurd rfl (hone first)
        · simp only [List.length_cons]
          omega
      have hcalls : merkleFoldCalls P (rounds + 1) level =
          (MerkleTree.pairs level).map (fun pair => (merkleNodeDomain, pair.1.1 ++ pair.2.1)) ++
            merkleFoldCalls P rounds (merkleLevel P level) := by
        rcases level with _ | ⟨first, _ | ⟨second, rest⟩⟩
        · exact absurd rfl hnil
        · exact absurd rfl (hone first)
        · rfl
      rw [merkleLevel_eq] at ih hlevel hcalls
      rw [merkleLevel_eq, hcalls]
      obtain ⟨height, hroot, hhashes⟩ := ih (MerkleTree.level_ne_nil hnil) (by omega)
      refine ⟨height + 1, hroot, fun k hk pair hpair => ?_⟩
      cases k with
      | zero => exact List.mem_append_left _ (List.mem_map_of_mem hpair)
      | succ k =>
          rw [Function.iterate_succ_apply] at hpair
          exact List.mem_append_right _ (hhashes k (Nat.lt_of_succ_lt_succ hk) pair hpair)

/-- Lists without repetition that have one root are one list. -/
theorem merkleRoot_inj {ids ids' : List Bytes32} {calls : List HashCall}
    (h : P.CollisionFree calls) (hcalls : ∀ call ∈ merkleCalls P ids, call ∈ calls)
    (hcalls' : ∀ call ∈ merkleCalls P ids', call ∈ calls) (hnodup : ids.Nodup)
    (hnodup' : ids'.Nodup) (hne : ids ≠ []) (hne' : ids' ≠ [])
    (heq : merkleRoot P ids = merkleRoot P ids') : ids = ids' := by
  have hleafCall : ∀ {some : List Bytes32}, (∀ call ∈ merkleCalls P some, call ∈ calls) →
      ∀ id ∈ some, (merkleLeafDomain, id.1) ∈ calls :=
    fun hsub id hid => hsub _ (List.mem_append_left _ (List.mem_map_of_mem hid))
  have hleafInj : Set.InjOn (fun id : Bytes32 => P.deriveKey merkleLeafDomain id.1)
      { id | (merkleLeafDomain, id.1) ∈ calls } := fun id hid id' hid' heq =>
    Subtype.ext (h.bytes_eq hid hid' heq).2
  -- the root, of either list, on its level
  have hroot : ∀ {some : List Bytes32}, some ≠ [] → (∀ call ∈ merkleCalls P some, call ∈ calls) →
      ∃ height, (MerkleTree.level (nodeHash P))^[height]
          (some.map fun id => P.deriveKey merkleLeafDomain id.1) = [merkleRoot P some] ∧
        MerkleTree.Hashes (nodeHash P) (hashedPairs calls) height
          (some.map fun id => P.deriveKey merkleLeafDomain id.1) := by
    intro some hsome hsub
    obtain ⟨height, hheight, hhashes⟩ := merkleFold_eq (P := P)
      (show (some.map fun id => P.deriveKey merkleLeafDomain id.1) ≠ [] by
        rwa [ne_eq, List.map_eq_nil_iff])
      (Nat.le_succ _)
    refine ⟨height, ?_, fun k hk pair hpair =>
      hsub _ (List.mem_append_right _ (hhashes k hk pair hpair))⟩
    rw [hheight]
    cases some with
    | nil => exact absurd rfl hsome
    | cons id rest => rfl
  obtain ⟨height, hheight, hhashes⟩ := hroot hne hcalls
  obtain ⟨height', hheight', hhashes'⟩ := hroot hne' hcalls'
  have hleafNodup : ∀ {some : List Bytes32}, some.Nodup →
      (∀ call ∈ merkleCalls P some, call ∈ calls) →
      (some.map fun id => P.deriveKey merkleLeafDomain id.1).Nodup := fun hsome hsub =>
    (List.nodup_map_iff_inj_on hsome).mpr fun id hid id' hid' heq =>
      hleafInj (hleafCall hsub id hid) (hleafCall hsub id' hid') heq
  have hleaves := MerkleTree.leaves_unique (injOn_nodeHash h) hhashes hhashes'
    (hleafNodup hnodup hcalls) (hleafNodup hnodup' hcalls') ?_ (mt List.map_eq_nil_iff.mp hne)
    (mt List.map_eq_nil_iff.mp hne') (by rw [hheight, hheight', heq])
  · exact MerkleTree.map_inj_on hleafInj (hleafCall hcalls) (hleafCall hcalls') hleaves
  · -- a leaf and a node are hashed under different domains
    intro leaf hleaf pair hpair hnode
    rw [← List.map_append] at hleaf
    obtain ⟨id, hid, rfl⟩ := List.mem_map.mp hleaf
    have hcall : (merkleLeafDomain, id.1) ∈ calls := by
      rcases List.mem_append.mp hid with hid | hid
      · exact hleafCall hcalls id hid
      · exact hleafCall hcalls' id hid
    exact absurd (h.bytes_eq hpair hcall hnode).1 (by decide)

/-! ## Accepted blocks -/

/-- What acceptance establishes about a block by itself. -/
structure Block.WellFormed (P : Platform) (block : Block) : Prop where
  sized : ∀ transaction ∈ block.transactions, transaction.Sized
  inputs : ∀ transaction ∈ block.transactions, transaction.consumed ≠ []
  once : (references block.transactions).Nodup
  coinbase : block.coinbase.outputs.length ≤ maxCoinbaseOutputs
  root : block.transactionRoot P = block.challenge.transactionRoot

theorem applyTransaction_consumed {σ : Type} [UtxoView σ] {view : σ} {transaction : Transaction}
    {height : UInt64} {networkId : Bytes32} {spent : Finset OutPoint} {applied : Applied σ}
    (h : applyTransaction P view transaction height networkId spent = .ok applied) :
    transaction.consumed ≠ [] := by
  simp only [applyTransaction, bind_eq_ok, require_eq_ok] at h
  obtain ⟨_, _, _, _, _, hinputs, _⟩ := h
  rw [List.isEmpty_iff] at hinputs
  rwa [Transaction.consumed, ne_eq, List.map_eq_nil_iff]

theorem applyTransactions_consumed {networkId : Bytes32} {height : UInt64}
    {transactions : List Transaction} {acc applied : Applied UtxoSet}
    (h : applyTransactions P height networkId acc transactions = .ok applied) :
    ∀ transaction ∈ transactions, transaction.consumed ≠ [] := by
  induction transactions generalizing acc with
  | nil => exact fun _ hmem => absurd hmem (List.not_mem_nil)
  | cons transaction rest ih =>
      obtain ⟨one, fee, hone, _, hrest⟩ := applyTransactions_cons.mp h
      exact List.forall_mem_cons.mpr ⟨applyTransaction_consumed hone, ih hrest⟩

/-- The checks of the header that do not look at the proof. -/
theorem validateBlockHeader_checks {block : Block} {verifier : ConsensusPowVerifier}
    {params : NetworkParams} (h : validateBlockHeader P block verifier params = .ok ()) :
    validateBlockResources block = .ok () ∧
      block.transactionRoot P = block.challenge.transactionRoot := by
  simp only [validateBlockHeader, bind_eq_ok, require_eq_ok, mapErr_eq_ok] at h
  obtain ⟨_, hresources, _, _, _, _, _, _, _, _, _, _, _, hroot, _⟩ := h
  exact ⟨hresources, hroot⟩

theorem validateBlock_wellFormed {state : ChainState} {block : Block}
    {context : BlockValidationContext} {validated : ValidatedBlock}
    (h : state.validateBlock P block context = .ok validated) : block.WellFormed P := by
  obtain ⟨applied, happlied, _⟩ := (validateBlock_validated h).applied.transactions
  simp only [ChainState.validateBlock, bind_eq_ok] at h
  obtain ⟨_, _, _, _, _, _, _, _, _, _, _, _, _, _, _, _, _, _, _, _, _, _, _, hdelta, _⟩ := h
  obtain ⟨hresources, hroot⟩ := validateBlockHeader_checks (validateDelta_inPlace hdelta).1
  obtain ⟨hcoinbase, totals, htotals⟩ := validateBlockResources_eq_ok.mp hresources
  exact {
    sized := (validateTransactionSetResources_iff.mp htotals).1
    inputs := applyTransactions_consumed happlied
    once := (applyTransactions_inPlace happlied).nodup
    coinbase := hcoinbase
    root := hroot }

/-- Transactions that all spend something, and nothing twice, are distinct. -/
theorem nodup_of_references {transactions : List Transaction}
    (honce : (references transactions).Nodup)
    (hinputs : ∀ transaction ∈ transactions, transaction.consumed ≠ []) : transactions.Nodup := by
  obtain ⟨_, hdisjoint⟩ := List.nodup_flatMap.mp honce
  refine List.pairwise_iff_forall_sublist.mpr fun {a b} hsub => ?_
  have hab := List.pairwise_iff_forall_sublist.mp hdisjoint hsub
  obtain ⟨outpoint, houtpoint⟩ :=
    List.exists_mem_of_ne_nil _ (hinputs a (hsub.subset List.mem_cons_self))
  rintro rfl
  exact hab houtpoint houtpoint

namespace Block.WellFormed

variable {block block' : Block} {calls : List HashCall}

/-- No transaction occurs twice: it would spend its inputs again. -/
theorem nodup_transactions (h : block.WellFormed P) : block.transactions.Nodup :=
  nodup_of_references h.once h.inputs

theorem mem_txid (transaction : Transaction) (hmem : transaction ∈ block.transactions)
    (hcalls : ∀ call ∈ block.hashCalls P, call ∈ calls) :
    (txIdDomain, transaction.idBytes P) ∈ calls := by
  refine hcalls _ ?_
  simp only [Block.hashCalls, List.mem_cons, List.mem_append]
  exact .inr (.inr (.inr (.inl (List.mem_map_of_mem hmem))))

theorem mem_commitment (hcalls : ∀ call ∈ block.hashCalls P, call ∈ calls) :
    (coinbaseIdDomain, block.coinbase.commitmentBytes block.challenge.networkId) ∈ calls := by
  refine hcalls _ ?_
  simp only [Block.hashCalls, List.mem_cons, true_or, or_true]

theorem mem_merkle (hcalls : ∀ call ∈ block.hashCalls P, call ∈ calls) :
    ∀ call ∈ merkleCalls P (block.ids P), call ∈ calls := by
  intro call hcall
  refine hcalls call ?_
  simp only [Block.hashCalls, List.mem_cons, List.mem_append]
  exact .inr (.inr (.inr (.inr hcall)))

/-- Transactions of accepted blocks with one identifier are one transaction. -/
theorem txid_inj (h : block.WellFormed P) (h' : block'.WellFormed P)
    (hhash : P.CollisionFree calls) (hcalls : ∀ call ∈ block.hashCalls P, call ∈ calls)
    (hcalls' : ∀ call ∈ block'.hashCalls P, call ∈ calls) {a b : Transaction}
    (ha : a ∈ block.transactions) (hb : b ∈ block'.transactions)
    (heq : a.txid P = b.txid P) : a = b :=
  Transaction.idBytes_inj (h.sized a ha) (h'.sized b hb)
    (hhash.bytes_eq (mem_txid a ha hcalls) (mem_txid b hb hcalls') heq).2

/-- What the tree is over occurs once. -/
theorem nodup_ids (h : block.WellFormed P) (hhash : P.CollisionFree calls)
    (hcalls : ∀ call ∈ block.hashCalls P, call ∈ calls) : (block.ids P).Nodup := by
  refine List.nodup_cons.mpr ⟨?_, (List.nodup_map_iff_inj_on h.nodup_transactions).mpr
    fun a ha b hb heq => h.txid_inj h hhash hcalls hcalls ha hb heq⟩
  intro hmem
  obtain ⟨transaction, htransaction, heq⟩ := List.mem_map.mp hmem
  exact absurd
    (hhash.bytes_eq (mem_txid transaction htransaction hcalls) (mem_commitment hcalls) heq).1
    (by decide)

/-- Accepted blocks with one root have one coinbase and one list of transactions. -/
theorem of_root (h : block.WellFormed P) (h' : block'.WellFormed P)
    (hhash : P.CollisionFree calls) (hcalls : ∀ call ∈ block.hashCalls P, call ∈ calls)
    (hcalls' : ∀ call ∈ block'.hashCalls P, call ∈ calls)
    (hroot : block.transactionRoot P = block'.transactionRoot P) :
    block.coinbase = block'.coinbase ∧ block.transactions = block'.transactions := by
  have hids : block.ids P = block'.ids P :=
    merkleRoot_inj hhash (mem_merkle hcalls) (mem_merkle hcalls') (h.nodup_ids hhash hcalls)
      (h'.nodup_ids hhash hcalls') (List.cons_ne_nil _ _) (List.cons_ne_nil _ _) hroot
  obtain ⟨hcommitment, htxids⟩ := List.cons.inj hids
  have hlimit : maxCoinbaseOutputs < 2 ^ 64 := by decide
  refine ⟨Coinbase.commitmentBytes_inj (h.coinbase.trans_lt hlimit) (h'.coinbase.trans_lt hlimit)
    (hhash.bytes_eq (mem_commitment hcalls) (mem_commitment hcalls') hcommitment).2, ?_⟩
  have hinj : Set.InjOn (fun transaction : Transaction => transaction.txid P)
      { transaction | transaction.Sized ∧ (txIdDomain, transaction.idBytes P) ∈ calls } :=
    fun a ha b hb heq => Transaction.idBytes_inj ha.1 hb.1 (hhash.bytes_eq ha.2 hb.2 heq).2
  exact MerkleTree.map_inj_on hinj
    (fun a ha => ⟨h.sized a ha, mem_txid a ha hcalls⟩)
    (fun b hb => ⟨h'.sized b hb, mem_txid b hb hcalls'⟩) htxids

/-- Accepted blocks with one identifier are one block. -/
theorem of_blockId (h : block.WellFormed P) (h' : block'.WellFormed P)
    (hhash : P.CollisionFree calls) (hcalls : ∀ call ∈ block.hashCalls P, call ∈ calls)
    (hcalls' : ∀ call ∈ block'.hashCalls P, call ∈ calls)
    (hid : block.blockId P = block'.blockId P) : block = block' := by
  have hbytes := (hhash.bytes_eq (hcalls _ List.mem_cons_self) (hcalls' _ List.mem_cons_self) hid).2
  obtain ⟨hversion, hchallenge, hproof⟩ := Block.idBytes_inj hbytes
  obtain ⟨hcoinbase, htransactions⟩ := h.of_root h' hhash hcalls hcalls' (by
    rw [h.root, h'.root, hchallenge])
  cases block
  cases block'
  simp only [Block.mk.injEq]
  exact ⟨hversion, hchallenge, hproof, hcoinbase, htransactions⟩

end Block.WellFormed

/-- Block identity is not malleable: two blocks accepted from one state are equal when
their identifiers are, and already the root of their trees determines the coinbase
and the transactions, if the hashes behind them do not collide. -/
theorem block_identity {state : ChainState} {block block' : Block}
    {context context' : BlockValidationContext} {validated validated' : ValidatedBlock}
    (hvalid : state.validateBlock P block context = .ok validated)
    (hvalid' : state.validateBlock P block' context' = .ok validated')
    (hhash : P.CollisionFree (block.hashCalls P ++ block'.hashCalls P)) :
    (block.blockId P = block'.blockId P → block = block') ∧
      (block.transactionRoot P = block'.transactionRoot P →
        block.coinbase = block'.coinbase ∧ block.transactions = block'.transactions) := by
  have h := validateBlock_wellFormed hvalid
  have h' := validateBlock_wellFormed hvalid'
  exact ⟨h.of_blockId h' hhash (fun _ => List.mem_append_left _) fun _ => List.mem_append_right _,
    h.of_root h' hhash (fun _ => List.mem_append_left _) fun _ => List.mem_append_right _⟩

/-- The second sample block, a second later. -/
def sampleLater : Block := sampleBlock sampleState₁ 1121 10000 [sampleFunding]

theorem block_identity_sample :
    sampleBlock₂.blockId samplePlatform ≠ sampleLater.blockId samplePlatform := by
  have hlater : sampleState₁.validateAndApply samplePlatform sampleLater ⟨1121⟩ =
      .ok (10000, sampleApply sampleState₁ sampleLater) := sampleApply_eq_ok (by decide +kernel)
  obtain ⟨_, hvalid, _⟩ := validateAndApply_eq_ok.mp sampleBlock₂_applied
  obtain ⟨_, hvalid', _⟩ := validateAndApply_eq_ok.mp hlater
  have hhash : samplePlatform.CollisionFree
      (sampleBlock₂.hashCalls samplePlatform ++ sampleLater.hashCalls samplePlatform) := by
    decide +kernel
  have hne : sampleBlock₂ ≠ sampleLater := by decide +kernel
  exact mt (block_identity hvalid hvalid' hhash).1 hne

end CommonFoundry
