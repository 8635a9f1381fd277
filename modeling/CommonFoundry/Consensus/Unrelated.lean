/-
# `CommonFoundry.Consensus.Unrelated` — a transaction, and changes that do not concern it

An ordinary transaction reads the outputs it spends, and needs its outpoints and
the channels it funds to be new.  Whatever leaves these alone leaves it valid with
the same fee (`applyTransaction_untouched`): a block, or the transactions before it
in a list.

A closing transaction is bound to a height: its outputs name the height of the block
it is in (`closing_height`), so a state at any other height refuses it.
-/
import CommonFoundry.Consensus.ChannelClose

namespace CommonFoundry

open Lib Lib.Outcome Lib.Ledger

variable {P : Platform} {transaction : Transaction}

/-- An ordinary transaction: every input shows a key witness. -/
def Transaction.Keyed (transaction : Transaction) : Prop :=
  ∀ input ∈ transaction.inputs, input.witness.isKey = true

theorem Transaction.keyed_iff :
    transaction.Keyed ↔ ¬(transaction.inputs.any fun input => !input.witness.isKey) = true := by
  simp only [Transaction.Keyed, List.any_eq_true, Bool.not_eq_true', not_exists, not_and,
    Bool.not_eq_false]

/-! ## What a transaction reads -/

/-- From the first set to the second, nothing the transaction depends on has changed. -/
structure Untouched (P : Platform) (utxos utxos' : UtxoSet) (transaction : Transaction) : Prop where
  inputs : ∀ outpoint ∈ transaction.consumed, utxos'.get outpoint = utxos.get outpoint
  outpoints : ∀ kv ∈ transaction.created P, kv.1 ∉ transaction.consumed → utxos'.get kv.1 = none
  channels : ∀ channelId ∈ transaction.funded,
    channelId ∉ utxos'.activeChannels ∧ channelId ∉ utxos'.retiredChannels

theorem checkKeyInput_frame {utxos utxos' : UtxoSet} {height height' : UInt64} {digest : Bytes32}
    {input : TxInput} {value : UInt64}
    (h : checkKeyInput P utxos height digest input = .ok value) (hheight : height ≤ height')
    (hget : utxos'.get input.previous = utxos.get input.previous) :
    checkKeyInput P utxos' height' digest input = .ok value := by
  simp only [checkKeyInput, bind_eq_ok, okOr_eq_ok, require_eq_ok, UInt64.not_lt] at h ⊢
  obtain ⟨previous, hprevious, _, hmature, hrest⟩ := h
  exact ⟨previous, hget.trans hprevious, (), UInt64.le_trans hmature hheight, hrest⟩

/-- The input loop, on a set that agrees on its outpoints. -/
theorem spendKeyInputs_frame {utxos utxos' : UtxoSet} {height height' : UInt64} {digest : Bytes32}
    (hheight : height ≤ height') {inputs : List TxInput} :
    ∀ {spent spent' after : Finset OutPoint} {total total' : UInt64},
      inputs.foldlM (spendKeyInput P utxos height digest) (spent, total) = .ok (after, total') →
      (∀ outpoint ∈ inputs.map (·.previous), utxos'.get outpoint = utxos.get outpoint) →
      (∀ outpoint ∈ inputs.map (·.previous), outpoint ∉ spent') →
      ∃ after', inputs.foldlM (spendKeyInput P utxos' height' digest) (spent', total) =
        .ok (after', total') := by
  induction inputs with
  | nil =>
      intro spent spent' after total total' h _ _
      rw [List.foldlM_nil, pure_eq_ok, Prod.mk.injEq] at h
      obtain ⟨-, rfl⟩ := h
      exact ⟨spent', rfl⟩
  | cons input rest ih =>
      intro spent spent' after total total' h hagree hunspent
      obtain ⟨hnodup, -⟩ := spendKeyInputs_inPlace h
      obtain ⟨hnew, -⟩ := List.nodup_cons.mp hnodup
      obtain ⟨hget, hagree⟩ := List.forall_mem_cons.mp hagree
      obtain ⟨hfirst, hunspent⟩ := List.forall_mem_cons.mp hunspent
      obtain ⟨⟨spent₁, total₁⟩, hstep, hrest⟩ := foldlM_cons_eq_ok.mp h
      simp only [spendKeyInput, bind_eq_ok, okOr_eq_ok, pure_eq_ok, Prod.mk.injEq] at hstep
      obtain ⟨_, _, value, hcheck, sum, hsum, _, rfl⟩ := hstep
      have hlater : ∀ outpoint ∈ rest.map (·.previous), outpoint ∉ insert input.previous spent' := by
        intro outpoint hmem
        rw [Finset.mem_insert, not_or]
        exact ⟨ne_of_mem_of_not_mem hmem hnew, hunspent outpoint hmem⟩
      obtain ⟨after', hafter⟩ := @ih _ (insert input.previous spent') _ _ _ hrest hagree hlater
      refine ⟨after', foldlM_cons_eq_ok.mpr ⟨(insert input.previous spent', sum), ?_, hafter⟩⟩
      simp only [spendKeyInput, bind_eq_ok, okOr_eq_ok, pure_eq_ok, markSpent_eq_ok, Prod.mk.injEq]
      exact ⟨_, ⟨hfirst, rfl⟩, value, checkKeyInput_frame hcheck hheight hget, sum, hsum, rfl, rfl⟩

/-- The outpoints a transaction creates are free once its inputs are spent. -/
theorem Untouched.fresh {utxos utxos' : UtxoSet} (h : Untouched P utxos utxos' transaction)
    (hkeys : ((transaction.created P).map Prod.fst).Nodup) :
    Fresh (consume utxos'.outputs transaction.consumed) (transaction.created P) := by
  refine fresh_iff.mpr ⟨hkeys, ?_⟩
  intro kv hmem
  rw [lookup_consume]
  split
  · rfl
  · next hnot => exact h.outpoints kv hmem hnot

theorem created_ne_zero
    (h : ¬(transaction.outputs.any fun output => output.value = 0) = true) :
    ∀ kv ∈ transaction.created P, kv.2.value ≠ 0 := by
  intro kv hmem hzero
  refine h (List.any_eq_true.mpr ⟨kv.2, (mem_outpointsOf hmem).2, ?_⟩)
  exact decide_eq_true hzero

/-- An ordinary transaction stays valid, and its fee is the same. -/
theorem applyTransaction_untouched {utxos utxos' : UtxoSet} {height height' : UInt64}
    {networkId : Bytes32} {spent spent' : Finset OutPoint} {applied : Applied UtxoSet}
    (h : applyTransaction P utxos transaction height networkId spent = .ok applied)
    (hkeyed : transaction.Keyed) (hheight : height ≤ height')
    (huntouched : Untouched P utxos utxos' transaction)
    (hunspent : ∀ outpoint ∈ transaction.consumed, outpoint ∉ spent') :
    ∃ applied', applyTransaction P utxos' transaction height' networkId spent' = .ok applied' ∧
      applied'.fee = applied.fee := by
  have hstep := (applyTransaction_inPlace h).step
  simp only [applyTransaction, bind_eq_ok, require_eq_ok,
    if_neg (Transaction.keyed_iff.mp hkeyed)] at h ⊢
  obtain ⟨_, hnetwork, _, hversion, _, hinputs, _, houtputs, _, hvalues, happly⟩ := h
  simp only [applyKeyTransaction, bind_eq_ok, require_eq_ok, pure_eq_ok] at happly
  obtain ⟨⟨after, inputTotal⟩, hloop, total, htotal, _, hcreates, _, _, rfl⟩ := happly
  obtain ⟨after', hloop'⟩ := spendKeyInputs_frame hheight hloop huntouched.inputs hunspent
  have hopens : (transaction.created P).filterMap (fun kv => kv.2.channel) = transaction.funded :=
    opens_outpointsOf _ _
  have hfresh : Fresh (eraseInputs utxos' transaction.inputs).outputs (transaction.created P) := by
    rw [eraseInputs_inPlace]
    exact huntouched.fresh (fresh_iff.mp hstep.fresh).1
  obtain ⟨view, hview⟩ : ∃ view, insertOutputs (eraseInputs utxos' transaction.inputs)
      (transaction.txid P) transaction.outputs = .ok view := by
    refine insertOutputs_ok (created_ne_zero hvalues) hfresh ?_ ?_
    · exact hstep.opens_nodup
    · rw [eraseInputs_inPlace]
      show ∀ channelId ∈ (transaction.created P).filterMap (fun kv => kv.2.channel), _
      rw [hopens]
      exact huntouched.channels
  refine ⟨{ fee := inputTotal - total, view, spent := after' }, ⟨(), hnetwork, (), hversion, (),
    hinputs, (), houtputs, (), hvalues, ?_⟩, rfl⟩
  simp only [applyKeyTransaction, bind_eq_ok, require_eq_ok, pure_eq_ok]
  exact ⟨(after', inputTotal), hloop', total, htotal, (), hcreates, view, hview, rfl⟩

/-- A run of the ledger leaves a transaction untouched when it spends none of its
inputs, uses none of its outpoints and funds none of its channels. -/
theorem Untouched.of_run {utxos utxos' : UtxoSet} {height : UInt64} {networkId : Bytes32}
    {spent : Finset OutPoint} {applied : Applied UtxoSet} {entries : List (Entry OutPoint TxOutput)}
    (happlied : TransactionApplied P networkId height utxos spent transaction applied)
    (hrun : Run TxOutput.channel utxos.ledger entries utxos'.ledger)
    (hregistered : Registered TxOutput.channel utxos.ledger)
    (hinputs : ∀ entry ∈ entries, ∀ outpoint ∈ transaction.consumed, outpoint ∉ entry.consumed)
    (houtpoints : ∀ entry ∈ entries, ∀ kv ∈ entry.created, kv.1.txid ≠ transaction.txid P)
    (hchannels : ∀ channelId ∈ transaction.funded,
      channelId ∉ entries.flatMap (Entry.opens TxOutput.channel)) :
    Untouched P utxos utxos' transaction := by
  have hstep := happlied.step
  constructor
  · intro outpoint hmem
    obtain ⟨output, hget⟩ := hstep.present outpoint hmem
    have hkept := hrun.kept hget fun entry hentry => hinputs entry hentry outpoint hmem
    exact hkept.trans hget.symm
  · intro kv hmem hnot
    have habsent : (consume utxos.outputs transaction.consumed).lookup kv.1 = none :=
      (fresh_iff.mp hstep.fresh).2 kv hmem
    rw [lookup_consume, if_neg hnot] at habsent
    refine hrun.absent habsent fun entry hentry output hcreated => ?_
    exact houtpoints entry hentry _ hcreated (mem_outpointsOf hmem).1
  · intro channelId hmem
    have hfresh : ∀ channelId ∈ transaction.funded,
        channelId ∉ utxos.activeChannels ∧ channelId ∉ utxos.retiredChannels := by
      rw [Transaction.funded, ← opens_outpointsOf (transaction.txid P)]
      exact hstep.opens_fresh
    exact hrun.unknown hregistered (hfresh channelId hmem) (hchannels channelId hmem)

/-! ## Closing transactions -/

theorem channelOutputs_height {providerValue customerValue height : UInt64}
    {providerKey customerKey : Bytes32} :
    ∀ output ∈ channelOutputs providerValue providerKey customerValue customerKey height,
      output.spendableHeight = height := by
  intro output hmem
  rcases List.mem_append.mp hmem with hmem | hmem
  · split at hmem
    · rw [List.mem_singleton.mp hmem]
    · cases hmem
  · split at hmem
    · rw [List.mem_singleton.mp hmem]
    · cases hmem

theorem closePayout_height {witness : InputWitness} {networkId channelId : Bytes32}
    {value height fee : UInt64} {outputs : List TxOutput}
    (h : closePayout P witness networkId channelId value height = .ok (outputs, fee)) :
    ∀ output ∈ outputs, output.spendableHeight = height := by
  cases witness with
  | key publicKey signature => exact absurd h fail_ne_ok
  | inferenceSettlement terms settlement =>
      simp only [closePayout, bind_eq_ok, pure_eq_ok, Prod.mk.injEq] at h
      obtain ⟨_, _, _, _, rfl, _⟩ := h
      exact channelOutputs_height
  | inferenceRefund terms =>
      simp only [closePayout, bind_eq_ok, pure_eq_ok, Prod.mk.injEq] at h
      obtain ⟨_, _, _, _, rfl, _⟩ := h
      exact channelOutputs_height

/-- The outputs of a closing transaction name the height it is accepted at, and there
is one. -/
theorem closing_height {utxos : UtxoSet} {height : UInt64} {networkId : Bytes32}
    {spent : Finset OutPoint} {applied : Applied UtxoSet}
    (h : applyTransaction P utxos transaction height networkId spent = .ok applied)
    (hclosing : ¬transaction.Keyed) :
    transaction.outputs ≠ [] ∧ ∀ output ∈ transaction.outputs, output.spendableHeight = height := by
  rw [Transaction.keyed_iff, not_not] at hclosing
  simp only [applyTransaction, bind_eq_ok, require_eq_ok, if_pos hclosing] at h
  obtain ⟨_, _, _, _, _, _, _, hsome, _, _, happly⟩ := h
  simp only [applyChannelTransaction, bind_eq_ok, require_eq_ok] at happly
  obtain ⟨_, _, _, _, _, _, _, _, _, _, ⟨outputs, fee⟩, hpayout, _, houtputs, _⟩ := happly
  rw [List.isEmpty_iff] at hsome
  exact ⟨hsome, houtputs ▸ closePayout_height hpayout⟩

/-- So it passes at one height alone. -/
theorem closing_refused {state state' : ChainState} {fee fee' : UInt64}
    (h : Passes P state [transaction] fee) (hclosing : ¬transaction.Keyed)
    (hheight : state'.nextHeight ≠ state.nextHeight) : ¬Passes P state' [transaction] fee' := by
  intro h'
  obtain ⟨-, -, -, applied, happlied, -⟩ := passes_singleton.mp h
  obtain ⟨-, -, -, applied', happlied', -⟩ := passes_singleton.mp h'
  obtain ⟨hsome, hheights⟩ := closing_height happlied hclosing
  obtain ⟨output, hmem⟩ := List.exists_mem_of_ne_nil _ hsome
  have hheights' := (closing_height happlied' hclosing).2
  exact hheight ((hheights' output hmem).symm.trans (hheights output hmem))

/-! ## After a block -/

/-- The two transactions have nothing to do with each other. -/
structure Transaction.Unrelated (P : Platform) (transaction other : Transaction) : Prop where
  txid : other.txid P ≠ transaction.txid P
  inputs : ∀ outpoint ∈ transaction.consumed, outpoint ∉ other.consumed
  channels : ∀ channelId ∈ transaction.funded, channelId ∉ other.funded

/-- Nor has any transaction of the block, and the coinbase has another identifier. -/
structure Block.Unrelated (P : Platform) (block : Block) (transaction : Transaction) : Prop where
  transactions : ∀ other ∈ block.transactions, transaction.Unrelated P other
  coinbase : block.coinbaseOutpointId P ≠ transaction.txid P

theorem Untouched.of_transactions {utxos : UtxoSet} {height height' : UInt64}
    {networkId networkId' : Bytes32} {spent : Finset OutPoint} {one applied : Applied UtxoSet}
    {others : List Transaction}
    (happlied : TransactionApplied P networkId height utxos spent transaction one)
    (hregistered : Registered TxOutput.channel utxos.ledger)
    (hothers : applyTransactions P height' networkId' { fee := 0, view := utxos, spent := ∅ } others =
      .ok applied)
    (hunrelated : ∀ other ∈ others, transaction.Unrelated P other) :
    Untouched P utxos applied.view transaction := by
  refine .of_run happlied (applyTransactions_inPlace hothers).run hregistered ?_ ?_ ?_
  · intro entry hentry outpoint hmem
    obtain ⟨other, hother, rfl⟩ := List.mem_map.mp hentry
    exact (hunrelated other hother).inputs outpoint hmem
  · intro entry hentry kv hcreated
    obtain ⟨other, hother, rfl⟩ := List.mem_map.mp hentry
    rw [(mem_outpointsOf hcreated).1]
    exact (hunrelated other hother).txid
  · intro channelId hmem hopens
    obtain ⟨entry, hentry, hopen⟩ := List.mem_flatMap.mp hopens
    obtain ⟨other, hother, rfl⟩ := List.mem_map.mp hentry
    rw [show (other.entry P).opens TxOutput.channel = other.funded from opens_outpointsOf _ _]
      at hopen
    exact (hunrelated other hother).channels channelId hmem hopen

/-- A coinbase comes after the transactions, and has none of what a transaction needs. -/
theorem Untouched.coinbase {utxos utxos₁ utxos₂ : UtxoSet} {block : Block}
    (h : Untouched P utxos utxos₁ transaction)
    (hpresent : ∀ outpoint ∈ transaction.consumed, ∃ output, utxos.get outpoint = some output)
    (hregistered : Registered TxOutput.channel utxos₁.ledger)
    (hstep : Step TxOutput.channel utxos₁.ledger (block.coinbaseEntry P) utxos₂.ledger)
    (hkeys : ∀ output ∈ block.coinbase.outputs, output.channel = none)
    (hcoinbase : block.coinbaseOutpointId P ≠ transaction.txid P) :
    Untouched P utxos utxos₂ transaction := by
  have hrun := Run.singleton hstep
  have hopens : (block.coinbaseEntry P).opens TxOutput.channel = [] := by
    refine (opens_outpointsOf _ _).trans (List.filterMap_eq_nil_iff.mpr hkeys)
  constructor
  · intro outpoint hmem
    obtain ⟨output, hget⟩ := hpresent outpoint hmem
    rw [hget]
    refine hrun.kept ((h.inputs outpoint hmem).trans hget) fun entry hentry => ?_
    obtain rfl := List.mem_singleton.mp hentry
    exact List.not_mem_nil
  · intro kv hmem hnot
    refine hrun.absent (h.outpoints kv hmem hnot) fun entry hentry output hcreated => ?_
    obtain rfl := List.mem_singleton.mp hentry
    exact hcoinbase ((mem_outpointsOf hcreated).1.symm.trans (mem_outpointsOf hmem).1)
  · intro channelId hmem
    refine hrun.unknown hregistered (h.channels channelId hmem) ?_
    rw [List.flatMap_singleton, hopens]
    exact List.not_mem_nil

/-- An accepted block leaves an unrelated transaction untouched. -/
theorem Untouched.of_block {state : ChainState} {block : Block} {context : BlockValidationContext}
    {validated : ValidatedBlock} {spent : Finset OutPoint} {networkId : Bytes32} {height : UInt64}
    {one : Applied UtxoSet}
    (happlied : TransactionApplied P networkId height state.utxos spent transaction one)
    (hregistered : Registered TxOutput.channel state.utxos.ledger)
    (hvalid : state.validateBlock P block context = .ok validated)
    (hunrelated : block.Unrelated P transaction) :
    Untouched P state.utxos (state.advance validated).utxos transaction := by
  have hblock := (validateBlock_validated hvalid).applied
  obtain ⟨applied, htransactions, -, hcoinbase⟩ := hblock.transactions
  obtain ⟨allocation, destination, -, houtputs⟩ := hblock.coinbase
  have hmiddle := Untouched.of_transactions happlied hregistered htransactions
    hunrelated.transactions
  refine hmiddle.coinbase happlied.step.present
    ((applyTransactions_inPlace htransactions).run.registered hregistered) hcoinbase ?_
    hunrelated.coinbase
  rw [houtputs]
  exact fun output hmem => (coinbase_channel output hmem).1

/-- A transaction that passes by itself still does after an unrelated block, if it is
an ordinary one. -/
theorem Passes.next {state : ChainState} {block : Block} {context : BlockValidationContext}
    {validated : ValidatedBlock} {fee : UInt64}
    (hregistered : Registered TxOutput.channel state.utxos.ledger)
    (hvalid : state.validateBlock P block context = .ok validated)
    (hunrelated : block.Unrelated P transaction) (h : Passes P state [transaction] fee) :
    Passes P (state.advance validated) [transaction] fee ↔ transaction.Keyed := by
  have hnext := (validateBlock_validated hvalid).nextHeight
  constructor
  · intro hpasses
    by_contra hclosing
    refine closing_refused h hclosing (fun heq => ?_) hpasses
    have hsame : validated.nextHeight.toNat = state.nextHeight.toNat := congrArg UInt64.toNat heq
    omega
  · intro hkeyed
    obtain ⟨hresources, hheader, hencoded, applied, happlied, rfl⟩ := passes_singleton.mp h
    have huntouched := Untouched.of_block (applyTransaction_inPlace happlied) hregistered hvalid
      hunrelated
    have hheight : state.nextHeight ≤ (state.advance validated).nextHeight := by
      rw [UInt64.le_iff_toNat_le]
      show state.nextHeight.toNat ≤ validated.nextHeight.toNat
      omega
    obtain ⟨applied', happlied', hfee⟩ := applyTransaction_untouched happlied hkeyed hheight
      huntouched fun outpoint _ => Finset.notMem_empty outpoint
    exact passes_singleton.mpr ⟨hresources, hheader, hencoded, applied', happlied', hfee⟩

/-! ## After other transactions -/

/-- What a transaction burns: what its outputs leave of its inputs. -/
def Transaction.burns (utxos : UtxoSet) (transaction : Transaction) : Nat :=
  held outputValue utxos.outputs transaction.consumed - valueOf transaction.outputs

theorem burns_congr {utxos utxos' : UtxoSet}
    (h : ∀ outpoint ∈ transaction.consumed, utxos'.get outpoint = utxos.get outpoint) :
    transaction.burns utxos' = transaction.burns utxos := by
  have hheld : held outputValue utxos'.outputs transaction.consumed =
      held outputValue utxos.outputs transaction.consumed := by
    unfold held
    congr 1
    refine List.map_congr_left fun outpoint hmem => ?_
    have hget : utxos'.outputs.lookup outpoint = utxos.outputs.lookup outpoint := h outpoint hmem
    rw [hget]
  rw [Transaction.burns, hheld, Transaction.burns]

/-- Transactions that spend what was there at the start burn together what each burns. -/
theorem applyTransactions_fee {networkId : Bytes32} {height : UInt64}
    {transactions : List Transaction} : ∀ {acc applied : Applied UtxoSet},
      applyTransactions P height networkId acc transactions = .ok applied →
      (∀ outpoint ∈ references transactions, ∃ output, acc.view.get outpoint = some output) →
      applied.fee.toNat = acc.fee.toNat + (transactions.map (·.burns acc.view)).sum := by
  induction transactions with
  | nil =>
      intro acc applied h _
      rw [applyTransactions, List.foldlM_nil, pure_eq_ok] at h
      rw [← h]
      rfl
  | cons transaction rest ih =>
      intro acc applied h hpresent
      have hnodup := (applyTransactions_inPlace h).nodup
      rw [references_cons] at hnodup hpresent
      obtain ⟨one, fee, hone, hfee, hrest⟩ := applyTransactions_cons.mp h
      have first := applyTransaction_inPlace hone
      -- the outpoints of the rest are left alone by the first
      have hsame : ∀ outpoint ∈ references rest,
          one.view.get outpoint = acc.view.get outpoint := by
        intro outpoint hmem
        obtain ⟨output, hget⟩ := hpresent outpoint (List.mem_append_right _ hmem)
        have hnot : outpoint ∉ transaction.consumed := fun hconsumed =>
          List.disjoint_of_nodup_append hnodup hconsumed hmem
        rw [hget]
        exact (first.step.lookup_iff outpoint output).mpr (.inl ⟨hget, hnot⟩)
      have hlater := @ih { one with fee } applied hrest fun outpoint hmem => by
        obtain ⟨output, hget⟩ := hpresent outpoint (List.mem_append_right _ hmem)
        exact ⟨output, (hsame outpoint hmem).trans hget⟩
      have hrestBurns : rest.map (·.burns one.view) = rest.map (·.burns acc.view) := by
        refine List.map_congr_left fun other hother => burns_congr fun outpoint hmem => ?_
        exact hsame outpoint (List.mem_flatMap.mpr ⟨other, hother, hmem⟩)
      have hburns : transaction.burns acc.view = one.fee.toNat := by
        rw [Transaction.burns, first.fee, Nat.add_sub_cancel_left]
      rw [checkedAdd_eq_some] at hfee
      rw [hlater, hrestBurns, List.map_cons, List.sum_cons, hburns]
      show fee.toNat + _ = _
      omega

theorem Passes.fees {state : ChainState} {transactions : List Transaction} {fees : UInt64}
    (h : Passes P state transactions fees)
    (hpresent : ∀ outpoint ∈ references transactions, ∃ output,
      state.utxos.get outpoint = some output) :
    fees.toNat = (transactions.map (·.burns state.utxos)).sum := by
  obtain ⟨-, -, -, applied, happlied, rfl⟩ := passes_iff.mp h
  rw [applyTransactions_fee happlied hpresent]
  exact Nat.zero_add _

/-- An ordinary transaction that passes by itself passes after others it is unrelated
to, if the limits and the sum of the fees allow it. -/
theorem Passes.snoc {state : ChainState} {others : List Transaction} {fees fee : UInt64}
    (hregistered : Registered TxOutput.channel state.utxos.ledger)
    (hothers : Passes P state others fees) (h : Passes P state [transaction] fee)
    (hkeyed : transaction.Keyed)
    (hresources : ∃ totals, validateTransactionSetResources (others ++ [transaction]) = .ok totals)
    (hunrelated : ∀ other ∈ others, transaction.Unrelated P other)
    (hsum : fees.toNat + fee.toNat < 2 ^ 64) :
    Passes P state (others ++ [transaction]) (fees + fee) := by
  obtain ⟨-, hheaders, hencoded, applied, happlied, rfl⟩ := passes_iff.mp hothers
  obtain ⟨-, hheader, hencodes, -⟩ := passes_iff.mp h
  obtain ⟨-, -, -, one, hone, rfl⟩ := passes_singleton.mp h
  have huntouched := Untouched.of_transactions (applyTransaction_inPlace hone) hregistered happlied
    hunrelated
  have hunspent : ∀ outpoint ∈ transaction.consumed, outpoint ∉ applied.spent := by
    intro outpoint hmem hspent
    rw [(applyTransactions_inPlace happlied).spent_eq, Finset.empty_union, List.mem_toFinset]
      at hspent
    obtain ⟨other, hother, hconsumed⟩ := List.mem_flatMap.mp hspent
    exact (hunrelated other hother).inputs outpoint hmem hconsumed
  obtain ⟨last, hlast, hfee⟩ := applyTransaction_untouched hone hkeyed (UInt64.le_refl _) huntouched
    hunspent
  have hadd : checkedAdd applied.fee last.fee = some (applied.fee + one.fee) := by
    rw [hfee, checkedAdd_eq_some, toNat_add_of_lt hsum]
  refine passes_iff.mpr ⟨hresources, ?_, ?_, { last with fee := applied.fee + one.fee }, ?_, rfl⟩
  · rw [checkTransactionHeaders, forM_eq_ok_iff] at hheaders hheader ⊢
    exact List.forall_mem_append.mpr ⟨hheaders, hheader⟩
  · exact List.forall_mem_append.mpr ⟨hencoded, hencodes⟩
  · exact applyTransactions_append.mpr ⟨applied, happlied,
      applyTransactions_cons.mpr ⟨last, applied.fee + one.fee, hlast, hadd, rfl⟩⟩

end CommonFoundry
