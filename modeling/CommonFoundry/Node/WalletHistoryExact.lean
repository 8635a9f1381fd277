/-
# `CommonFoundry.Node.WalletHistoryExact` — a history adds up to what the wallet owns

The outputs that a history keeps are the unspent set of the consensus rules at the end of
every block.  Inside a block they are ahead of it by the outputs of the coinbase, which no
transaction of the block spends or creates; so the scan never misses an output, and what it
counts for a transaction is what the rules counted.

An entry's net amount is what its transaction or coinbase added to the outputs of the wallet,
and what gets no entry added nothing.  The limit decides how many of the entries are kept and
nothing else.
-/
import Mathlib
import CommonFoundry.Consensus.Conservation
import CommonFoundry.Consensus.Outpoints
import CommonFoundry.Node.NodeRun
import CommonFoundry.Node.WalletHistory
import CommonFoundry.Node.WalletSpend

namespace CommonFoundry

open Lib Lib.Outcome Lib.Ledger

variable {P : Platform}

/-! ## Keeping the newest -/

/-- What is kept is a suffix of all the entries. -/
theorem foldl_retainNewest (limit : Nat) (entries : List WalletHistoryEntry) :
    entries.foldl (retainNewestWalletHistory limit) [] =
      entries.drop (entries.length - limit) := by
  induction entries using List.reverseRecOn with
  | nil => exact List.drop_nil.symm
  | append_singleton entries entry ih =>
      rw [List.foldl_append, List.foldl_cons, List.foldl_nil, ih, retainNewestWalletHistory,
        List.length_drop, List.length_append, List.length_singleton]
      by_cases hzero : limit = 0
      · subst hzero
        rw [if_pos rfl, Nat.sub_zero, Nat.sub_zero, List.drop_length, List.drop_eq_nil_of_le]
        simp
      · rw [if_neg hzero]
        by_cases hfull : limit ≤ entries.length
        · have hlength : entries.length - (entries.length - limit) = limit := by omega
          have hnext : entries.length - limit + 1 = entries.length + 1 - limit := by omega
          rw [if_pos hlength, List.drop_drop, hnext, List.drop_append_of_le_length (by omega)]
        · have hlength : entries.length - (entries.length - limit) ≠ limit := by omega
          have hall : entries.length + 1 - limit = 0 := by omega
          have hnone : entries.length - limit = 0 := by omega
          rw [if_neg hlength, hall, hnone, List.drop_zero, List.drop_zero]

/-! ## Amounts -/

/-- The text of a net amount is that of an integer. -/
theorem signedWalletDelta_eq (credits debits : UInt64) :
    signedWalletDelta credits debits = toString ((credits.toNat : Int) - debits.toNat) := by
  unfold signedWalletDelta
  split
  · next h =>
      have hle := UInt64.le_iff_toNat_le.mp h
      obtain ⟨rest, hrest⟩ := Nat.exists_eq_add_of_le hle
      have hdiff : (credits.toNat : Int) - debits.toNat = (rest : Int) := by omega
      have hword : (credits - debits).toNat = rest := by
        rw [toNat_sub_of_le hle]
        omega
      rw [hdiff, ← hword]
      rfl
  · next h =>
      have hlt := UInt64.lt_iff_toNat_lt.mp (UInt64.not_le.mp h)
      obtain ⟨rest, hrest⟩ := Nat.exists_eq_add_of_lt hlt
      have hdiff : (credits.toNat : Int) - debits.toNat = Int.negSucc rest := by omega
      have hword : (debits - credits).toNat = rest.succ := by
        rw [toNat_sub_of_le (by omega)]
        omega
      rw [hdiff]
      show "-" ++ toString (debits - credits).toNat = "-" ++ toString rest.succ
      rw [hword]

theorem ownedValue_le (destination : Bytes32) (output : TxOutput) :
    ownedValue destination output ≤ outputValue output := by
  unfold ownedValue outputValue
  split <;> omega

section Scan

variable (destination : Bytes32) (nextHeight : UInt64)

/-- The words of a flow, as numbers. -/
structure WalletFlow.Counts (flow : WalletFlow) (all mine : Nat) : Prop where
  total : flow.total.toNat = all
  wallet : flow.wallet.toNat = mine
  le : mine ≤ all

theorem WalletFlow.zero_counts : WalletFlow.zero.Counts 0 0 := ⟨rfl, rfl, Nat.le_refl 0⟩

theorem checkedWalletAdd_ok {a b : UInt64} (h : a.toNat + b.toNat < 2 ^ 64) :
    ∃ sum, mapErr WalletHistoryError.wallet (checkedWalletAdd a b) = .ok sum ∧
      sum.toNat = a.toNat + b.toNat := by
  refine ⟨a + b, ?_, toNat_add_of_lt h⟩
  rw [mapErr_eq_ok, checkedWalletAdd_eq_ok, toNat_add_of_lt h]

/-- One output, counted. -/
theorem WalletFlow.Counts.add {flow : WalletFlow} {total wallet : Nat} (h : flow.Counts total wallet)
    (output : TxOutput) (hfits : total + outputValue output < 2 ^ 64) :
    ∃ flow', flow.add destination output = .ok flow' ∧
      flow'.Counts (total + outputValue output) (wallet + ownedValue destination output) := by
  obtain ⟨htotal, hwallet, hle⟩ := h
  have hvalue : outputValue output = output.value.toNat := rfl
  obtain ⟨sum, hsum, hsumNat⟩ := checkedWalletAdd_ok (a := flow.total) (b := output.value)
    (by omega)
  rw [htotal] at hsumNat
  cases hlock : output.lock with
  | inferenceChannel channelId =>
      have howned : ownedValue destination output = 0 := by rw [ownedValue, hlock]; rfl
      refine ⟨{ flow with total := sum }, ?_, hsumNat, ?_, ?_⟩
      · simp only [WalletFlow.add, hsum, ok_bind, hlock]
        rfl
      · rw [howned]
        exact hwallet
      · omega
  | key owner =>
      by_cases howner : owner = destination
      · have howned : ownedValue destination output = output.value.toNat := by
          rw [ownedValue, hlock, howner, if_pos rfl]
        obtain ⟨mine, hmine, hmineNat⟩ := checkedWalletAdd_ok (a := flow.wallet)
          (b := output.value) (by omega)
        refine ⟨{ flow with total := sum, wallet := mine }, ?_, hsumNat, ?_, ?_⟩
        · simp only [WalletFlow.add, hsum, ok_bind, hlock, if_pos howner, hmine]
          rfl
        · rw [howned, ← hwallet]
          exact hmineNat
        · omega
      · have hother : output.lock ≠ .key destination := by
          rw [hlock]
          exact fun heq => howner (OutputLock.key.inj heq)
        have howned : ownedValue destination output = 0 := if_neg hother
        cases hcounter : flow.counterparty with
        | none =>
            refine ⟨{ flow with total := sum, counterparty := some (hexEncode owner.1) }, ?_,
              hsumNat, ?_, ?_⟩
            · simp only [WalletFlow.add, hsum, ok_bind, hlock, if_neg howner, hcounter,
                Option.isNone_none, if_true]
              rfl
            · rw [howned]
              exact hwallet
            · omega
        | some known =>
            refine ⟨{ flow with total := sum }, ?_, hsumNat, ?_, ?_⟩
            · simp only [WalletFlow.add, hsum, ok_bind, hlock, if_neg howner, hcounter,
                Option.isNone_some, Bool.false_eq_true, if_false]
              rfl
            · rw [howned]
              exact hwallet
            · omega

/-- The loop over the inputs: it takes out what they spend and counts it. -/
theorem replayInputs_ok {inputs : List TxInput} : ∀ (outputs : HistoryOutputs)
    {flow : WalletFlow} {total wallet : Nat}, flow.Counts total wallet →
      (inputs.map (·.previous)).Nodup →
      (∀ o ∈ inputs.map (·.previous), ∃ output, outputs.lookup o = some output) →
      total + held outputValue outputs (inputs.map (·.previous)) < 2 ^ 64 →
      ∃ flow', inputs.foldlM (replayInput destination) (outputs, flow) =
          .ok (consume outputs (inputs.map (·.previous)), flow') ∧
        flow'.Counts (total + held outputValue outputs (inputs.map (·.previous)))
          (wallet + held (ownedValue destination) outputs (inputs.map (·.previous))) := by
  induction inputs with
  | nil => exact fun _ {flow _ _} hcounts _ _ _ => ⟨flow, rfl, hcounts⟩
  | cons input inputs ih =>
      intro outputs flow total wallet hcounts hnodup hpresent hfits
      obtain ⟨hnew, hnodup⟩ := List.nodup_cons.mp hnodup
      obtain ⟨previous, hprevious⟩ := hpresent _ List.mem_cons_self
      have hheld : ∀ w : TxOutput → Nat,
          held w outputs ((input :: inputs).map (·.previous)) =
            w previous + held w (outputs.erase input.previous) (inputs.map (·.previous)) := by
        intro w
        rw [held_erase hnew, held, List.map_cons, List.map_cons, List.sum_cons, hprevious,
          Option.elim_some, held]
      rw [hheld] at hfits
      obtain ⟨next, hnext, hcounts'⟩ := WalletFlow.Counts.add destination hcounts previous (by omega)
      have hrest : ∀ o ∈ inputs.map (·.previous),
          ∃ output, (outputs.erase input.previous).lookup o = some output := by
        intro o ho
        rw [Finmap.lookup_erase_ne (ne_of_mem_of_not_mem ho hnew)]
        exact hpresent o (List.mem_cons_of_mem _ ho)
      obtain ⟨flow', hflow', hfinal⟩ := ih _ hcounts' hnodup hrest (by omega)
      have hstep : replayInput destination (outputs, flow) input =
          .ok (outputs.erase input.previous, next) := by
        simp only [replayInput, hprevious, okOr_some, ok_bind, hnext]
        rfl
      refine ⟨flow', ?_, ?_⟩
      · rw [List.foldlM_cons, hstep, ok_bind]
        exact hflow'
      · rw [hheld, hheld, ← Nat.add_assoc, ← Nat.add_assoc]
        exact hfinal

/-- The loop over the outputs: it puts them in and counts them. -/
theorem replayOutputs_ok (created : List (OutPoint × TxOutput)) : ∀ (outputs : HistoryOutputs)
    {flow : WalletFlow} (immature : Bool) {total wallet : Nat}, flow.Counts total wallet →
      total + (created.map fun kv => outputValue kv.2).sum < 2 ^ 64 →
      ∃ flow' immature', created.foldlM (replayOutput destination nextHeight)
          (outputs, flow, immature) = .ok (create outputs created, flow', immature') ∧
        flow'.Counts (total + (created.map fun kv => outputValue kv.2).sum)
          (wallet + (created.map fun kv => ownedValue destination kv.2).sum) := by
  induction created with
  | nil => exact fun _ {flow} immature {_ _} hcounts _ => ⟨flow, immature, rfl, hcounts⟩
  | cons kv created ih =>
      intro outputs flow immature total wallet hcounts hfits
      rw [List.map_cons, List.sum_cons] at hfits
      obtain ⟨next, hnext, hcounts'⟩ := WalletFlow.Counts.add destination hcounts kv.2 (by omega)
      obtain ⟨flow', immature', hflow', hfinal⟩ :=
        ih (outputs.insert kv.1 kv.2) (immature || walletImmature destination nextHeight kv.2)
          hcounts' (by omega)
      have hstep : replayOutput destination nextHeight (outputs, flow, immature) kv =
          .ok (outputs.insert kv.1 kv.2, next,
            immature || walletImmature destination nextHeight kv.2) := by
        simp only [replayOutput, ok_bind, hnext]
        rfl
      refine ⟨flow', immature', ?_, ?_⟩
      · rw [List.foldlM_cons, hstep, ok_bind]
        exact hflow'
      · rw [List.map_cons, List.map_cons, List.sum_cons, List.sum_cons, ← Nat.add_assoc,
          ← Nat.add_assoc]
        exact hfinal

/-- One output of a coinbase. -/
theorem replayCoinbaseOutput_ok (outputs : HistoryOutputs) (mined : UInt64) (immature : Bool)
    (kv : OutPoint × TxOutput) (hfits : mined.toNat + ownedValue destination kv.2 < 2 ^ 64) :
    ∃ mined' immature', replayCoinbaseOutput destination nextHeight (outputs, mined, immature) kv =
        .ok (outputs.insert kv.1 kv.2, mined', immature') ∧
      mined'.toNat = mined.toNat + ownedValue destination kv.2 := by
  by_cases howner : kv.2.lock = .key destination
  · have howned : ownedValue destination kv.2 = kv.2.value.toNat := if_pos howner
    rw [howned] at hfits ⊢
    obtain ⟨mined', hadd, hvalue⟩ := checkedWalletAdd_ok hfits
    refine ⟨mined', immature || walletImmature destination nextHeight kv.2, ?_, hvalue⟩
    simp only [replayCoinbaseOutput, if_pos howner, hadd, ok_bind]
    rfl
  · have howned : ownedValue destination kv.2 = 0 := if_neg howner
    refine ⟨mined, immature || walletImmature destination nextHeight kv.2, ?_, ?_⟩
    · simp only [replayCoinbaseOutput, if_neg howner]
      rfl
    · rw [howned, Nat.add_zero]

/-- The loop over the outputs of a coinbase. -/
theorem replayCoinbaseOutputs_ok (created : List (OutPoint × TxOutput)) :
    ∀ (outputs : HistoryOutputs) (mined : UInt64) (immature : Bool),
      mined.toNat + (created.map fun kv => ownedValue destination kv.2).sum < 2 ^ 64 →
      ∃ mined' immature', created.foldlM (replayCoinbaseOutput destination nextHeight)
          (outputs, mined, immature) = .ok (create outputs created, mined', immature') ∧
        mined'.toNat =
          mined.toNat + (created.map fun kv => ownedValue destination kv.2).sum := by
  induction created with
  | nil => exact fun _ mined immature _ => ⟨mined, immature, rfl, rfl⟩
  | cons kv created ih =>
      intro outputs mined immature hfits
      rw [List.map_cons, List.sum_cons] at hfits ⊢
      obtain ⟨next, immature₁, hnext, hvalue⟩ := replayCoinbaseOutput_ok destination
        nextHeight outputs mined immature kv (by omega)
      obtain ⟨mined', immature', hmined', hfinal⟩ :=
        ih (outputs.insert kv.1 kv.2) next immature₁ (by omega)
      refine ⟨mined', immature', ?_, ?_⟩
      · rw [List.foldlM_cons, hnext, ok_bind]
        exact hmined'
      · omega

/-! ## One transaction -/

/-- Some entries account for what the wallet came to own between two sets of outputs. -/
def Accounts (before after : HistoryOutputs) (entries : List WalletHistoryEntry) : Prop :=
  ∃ amounts : List Int, entries.map (·.netAmountAtoms) = amounts.map toString ∧
    weight (ownedValue destination) before + amounts.sum =
      (weight (ownedValue destination) after : Int)

variable {destination}

theorem Accounts.nil {before after : HistoryOutputs}
    (h : weight (ownedValue destination) before = weight (ownedValue destination) after) :
    Accounts destination before after [] :=
  ⟨[], rfl, by rw [List.sum_nil, Int.add_zero, h]⟩

theorem Accounts.singleton {before after : HistoryOutputs} {entry : WalletHistoryEntry}
    {amount : Int} (hentry : entry.netAmountAtoms = toString amount)
    (h : weight (ownedValue destination) before + amount =
      (weight (ownedValue destination) after : Int)) :
    Accounts destination before after [entry] :=
  ⟨[amount], by rw [List.map_singleton, List.map_singleton, hentry],
    by rw [List.sum_singleton, h]⟩

theorem Accounts.append {first second third : HistoryOutputs}
    {entries entries' : List WalletHistoryEntry} (h : Accounts destination first second entries)
    (h' : Accounts destination second third entries') :
    Accounts destination first third (entries ++ entries') := by
  obtain ⟨amounts, htexts, hsum⟩ := h
  obtain ⟨amounts', htexts', hsum'⟩ := h'
  refine ⟨amounts ++ amounts', by rw [List.map_append, List.map_append, htexts, htexts'], ?_⟩
  rw [List.sum_append, ← hsum', ← hsum, Int.add_assoc]

variable (destination)

/-- What the scan relies on when it comes to a transaction. -/
structure Replayable (P : Platform) (outputs : HistoryOutputs) (transaction : Transaction) :
    Prop where
  nodup : transaction.consumed.Nodup
  present : ∀ o ∈ transaction.consumed, ∃ output, outputs.lookup o = some output
  fresh : Fresh (consume outputs transaction.consumed) (transaction.created P)
  fits : held outputValue outputs transaction.consumed < 2 ^ 64
  covered : valueOf transaction.outputs ≤ held outputValue outputs transaction.consumed

/-- The outputs after a transaction. -/
def outputsAfter (P : Platform) (outputs : HistoryOutputs) (transaction : Transaction) :
    HistoryOutputs :=
  create (consume outputs transaction.consumed) (transaction.created P)

theorem Replayable.weight {outputs : HistoryOutputs} {transaction : Transaction}
    (h : Replayable P outputs transaction) (w : TxOutput → Nat) :
    Lib.weight w (outputsAfter P outputs transaction) +
        held w outputs transaction.consumed =
      Lib.weight w outputs + ((transaction.created P).map fun kv => w kv.2).sum := by
  rw [outputsAfter, weight_create h.fresh, ← weight_consume h.nodup h.present]
  omega

/-- A transaction, scanned: one entry that accounts for it, or none where there is nothing to
account for. -/
theorem replayTransaction_ok {outputs : HistoryOutputs} {transaction : Transaction}
    (h : Replayable P outputs transaction) (found : HistoryBlock) :
    ∃ entries, Accounts destination outputs (outputsAfter P outputs transaction) entries ∧
      ∀ limit history,
        replayTransaction P destination nextHeight limit found { outputs, history } transaction =
          .ok {
            outputs := outputsAfter P outputs transaction
            history := entries.foldl (retainNewestWalletHistory limit) history } := by
  have hcovered := h.covered
  rw [← created_value (P := P)] at hcovered
  have hfits := h.fits
  obtain ⟨inputs, hinputs, hspent⟩ := replayInputs_ok destination outputs
    WalletFlow.zero_counts h.nodup h.present (by rw [Nat.zero_add]; exact h.fits)
  obtain ⟨created, immature, hcreated, hmade⟩ := replayOutputs_ok destination nextHeight
    (transaction.created P) (consume outputs transaction.consumed) false WalletFlow.zero_counts
    (by omega)
  have hspentAll : inputs.total.toNat = held outputValue outputs transaction.consumed :=
    hspent.total.trans (Nat.zero_add _)
  have hmadeAll : created.total.toNat =
      ((transaction.created P).map fun kv => outputValue kv.2).sum :=
    hmade.total.trans (Nat.zero_add _)
  have hspentMine : inputs.wallet.toNat =
      held (ownedValue destination) outputs transaction.consumed :=
    hspent.wallet.trans (Nat.zero_add _)
  have hmadeMine : created.wallet.toNat =
      ((transaction.created P).map fun kv => ownedValue destination kv.2).sum :=
    hmade.wallet.trans (Nat.zero_add _)
  have hfee : checkedSub inputs.total created.total = some (inputs.total - created.total) := by
    rw [checkedSub_eq_some, toNat_sub_of_le (by omega)]
    omega
  have hweight := h.weight (ownedValue destination)
  have hinputs' : transaction.inputs.foldlM (replayInput destination) (outputs, .zero) =
      .ok (consume outputs transaction.consumed, inputs) := hinputs
  have hcreated' : (outpointsOf (transaction.txid P) transaction.outputs).foldlM
        (replayOutput destination nextHeight)
        (consume outputs transaction.consumed, .zero, false) =
      .ok (outputsAfter P outputs transaction, created, immature) := hcreated
  by_cases hentry : inputs.wallet = 0 ∧ created.wallet = 0
  · obtain ⟨hnoInput, hnoOutput⟩ := hentry
    refine ⟨[], .nil ?_, fun limit history => ?_⟩
    · rw [hnoInput, UInt64.toNat_zero] at hspentMine
      rw [hnoOutput, UInt64.toNat_zero] at hmadeMine
      omega
    · simp only [replayTransaction, hinputs', hcreated', ok_bind, hfee, okOr_some, hnoInput,
        hnoOutput, lt_irrefl, if_false, gt_iff_lt]
      rfl
  · obtain ⟨kind, counterparty, hdescribed⟩ : ∃ kind counterparty,
        (if inputs.wallet > 0 then some ("sent", created.counterparty)
          else if created.wallet > 0 then some ("received", inputs.counterparty)
          else none) = some (kind, counterparty) := by
      by_cases hsent : inputs.wallet > 0
      · exact ⟨_, _, if_pos hsent⟩
      · have hreceived : created.wallet > 0 := by
          rw [not_and] at hentry
          exact UInt64.pos_iff_ne_zero.mpr
            (hentry (UInt64.not_lt.mp hsent |> UInt64.le_zero_iff.mp))
        exact ⟨_, _, by rw [if_neg hsent, if_pos hreceived]⟩
    refine ⟨[{
        kind
        txid := hexEncode (transaction.txid P).1
        height := some found.height
        timestamp := some found.timestamp
        confirmations := found.confirmations
        status := walletStatus immature
        netAmountAtoms := signedWalletDelta created.wallet inputs.wallet
        feeBurnedAtoms := toString (inputs.total - created.total)
        counterparty }], .singleton (signedWalletDelta_eq _ _) ?_, fun limit history => ?_⟩
    · omega
    · simp only [replayTransaction, hinputs', hcreated', ok_bind, hfee, okOr_some, hdescribed]
      rfl

/-! ## One block -/

section Blocks

variable {networkId : Bytes32} {height : UInt64} {later : List (OutPoint × TxOutput)}

/-- A transaction that the rules applied, when the coinbase is already there. -/
theorem TransactionApplied.replayable {utxos : UtxoSet} {spent : Finset OutPoint}
    {transaction : Transaction} {applied : Applied UtxoSet}
    (h : TransactionApplied P networkId height utxos spent transaction applied)
    (hlater : Fresh utxos.outputs later)
    (hkeys : ∀ k ∈ later.map Prod.fst, k ∉ (transaction.entry P).keys) :
    Replayable P (create utxos.outputs later) transaction ∧
      Fresh applied.view.outputs later ∧
      outputsAfter P (create utxos.outputs later) transaction =
        create applied.view.outputs later := by
  obtain ⟨hfound, hcreate, hafter, heq⟩ := h.step.create_first hlater hkeys
  have hlookup : ∀ o ∈ transaction.consumed,
      (create utxos.outputs later).lookup o = utxos.outputs.lookup o := hfound
  have hheld : held outputValue (create utxos.outputs later) transaction.consumed =
      held outputValue utxos.outputs transaction.consumed :=
    congrArg List.sum (List.map_congr_left fun k hk => by rw [hlookup k hk])
  refine ⟨⟨h.step.nodup, fun o ho => ?_, hcreate, ?_, ?_⟩, hafter, heq⟩
  · rw [hlookup o ho]
    exact h.step.present o ho
  · rw [hheld]
    exact h.inputs_lt
  · rw [hheld, h.fee]
    exact Nat.le_add_right _ _

/-- The loop over the transactions of a block. -/
theorem replayTransactions_ok (found : HistoryBlock) {transactions : List Transaction} :
    ∀ {acc applied : Applied UtxoSet},
      applyTransactions P height networkId acc transactions = .ok applied →
      Fresh acc.view.outputs later →
      (∀ transaction ∈ transactions, ∀ k ∈ later.map Prod.fst,
        k ∉ (transaction.entry P).keys) →
      ∃ entries, Accounts destination (create acc.view.outputs later)
          (create applied.view.outputs later) entries ∧
        ∀ limit history,
          transactions.foldlM (replayTransaction P destination nextHeight limit found)
              { outputs := create acc.view.outputs later, history } =
            .ok {
              outputs := create applied.view.outputs later
              history := entries.foldl (retainNewestWalletHistory limit) history } := by
  induction transactions with
  | nil =>
      intro acc applied happlied _ _
      rw [applyTransactions, List.foldlM_nil, pure_eq_ok] at happlied
      subst happlied
      exact ⟨[], .nil rfl, fun _ _ => rfl⟩
  | cons transaction rest ih =>
      intro acc applied happlied hlater hkeys
      obtain ⟨one, fee, hone, _, hrest⟩ := applyTransactions_cons.mp happlied
      obtain ⟨hreplayable, hafter, heq⟩ := (applyTransaction_inPlace hone).replayable hlater
        (hkeys transaction List.mem_cons_self)
      obtain ⟨entries, haccounts, hrun⟩ := replayTransaction_ok destination nextHeight
        hreplayable found
      obtain ⟨entries', haccounts', hrun'⟩ := ih hrest hafter fun other hother =>
        hkeys other (List.mem_cons_of_mem _ hother)
      rw [heq] at haccounts hrun
      refine ⟨entries ++ entries', haccounts.append haccounts', fun limit history => ?_⟩
      rw [List.foldlM_cons, hrun, ok_bind, List.foldl_append]
      exact hrun' limit _

/-- The coinbase. -/
theorem replayCoinbase_ok (found : HistoryBlock) {outputs : HistoryOutputs} {block : Block}
    (hfresh : Fresh outputs (block.coinbaseEntry P).created)
    (hfits : valueOf block.coinbase.outputs < 2 ^ 64) :
    ∃ entries, Accounts destination outputs (create outputs (block.coinbaseEntry P).created)
        entries ∧
      ∀ limit history,
        replayCoinbase P destination nextHeight limit found { outputs, history } block =
          .ok {
            outputs := create outputs (block.coinbaseEntry P).created
            history := entries.foldl (retainNewestWalletHistory limit) history } := by
  have howned : ((block.coinbaseEntry P).created.map fun kv => ownedValue destination kv.2).sum ≤
      valueOf block.coinbase.outputs := by
    have hvalue : ((block.coinbaseEntry P).created.map fun kv => outputValue kv.2).sum =
        valueOf block.coinbase.outputs := map_outpointsOf outputValue _ _ ▸ rfl
    rw [← hvalue]
    exact List.sum_le_sum fun kv _ => ownedValue_le destination kv.2
  obtain ⟨mined, immature, hmined, hsum⟩ := replayCoinbaseOutputs_ok destination nextHeight
    (block.coinbaseEntry P).created outputs 0 false (by rw [UInt64.toNat_zero]; omega)
  rw [UInt64.toNat_zero, Nat.zero_add] at hsum
  have hloop : (outpointsOf (block.coinbaseOutpointId P) block.coinbase.outputs).foldlM
        (replayCoinbaseOutput destination nextHeight) (outputs, 0, false) =
      .ok (create outputs (block.coinbaseEntry P).created, mined, immature) := hmined
  have hweight := weight_create (w := ownedValue destination) hfresh
  by_cases hpositive : mined > 0
  · refine ⟨[{
        kind := "mined"
        txid := hexEncode (block.coinbaseOutpointId P).1
        height := some found.height
        timestamp := some found.timestamp
        confirmations := found.confirmations
        status := walletStatus immature
        netAmountAtoms := toString mined
        feeBurnedAtoms := "0"
        counterparty := none }],
      .singleton (show toString mined = toString (mined.toNat : Int) from rfl) ?_,
      fun limit history => ?_⟩
    · omega
    · simp only [replayCoinbase, hloop, ok_bind, if_pos hpositive]
      rfl
  · refine ⟨[], .nil ?_, fun limit history => ?_⟩
    · have hzero := UInt64.le_iff_toNat_le.mp (UInt64.not_lt.mp hpositive)
      rw [UInt64.toNat_zero] at hzero
      omega
    · simp only [replayCoinbase, hloop, ok_bind, if_neg hpositive]
      rfl

variable {params : NetworkParams} {verifier : ConsensusPowVerifier} {calls : List HashCall}

/-- A block that is valid on top of a chain. -/
theorem replayBlock_ok (acceptedHeight : UInt64) {accepted : List AcceptedBlock}
    {state : ChainState} {block : Block} {context : BlockValidationContext}
    {validated : ValidatedBlock} (hchain : ChainRun P params verifier accepted state)
    (hvalid : state.validateBlock P block context = .ok validated)
    (hhash : P.CollisionFree calls)
    (hcalls : ∀ a ∈ accepted, ∀ call ∈ a.block.hashCalls P, call ∈ calls)
    (hblock : ∀ call ∈ block.hashCalls P, call ∈ calls) :
    ∃ entries, Accounts destination state.utxos.outputs (state.advance validated).utxos.outputs
        entries ∧
      ∀ limit history,
        replayBlock P destination nextHeight limit acceptedHeight
            { outputs := state.utxos.outputs, history } block =
          .ok {
            outputs := (state.advance validated).utxos.outputs
            history := entries.foldl (retainNewestWalletHistory limit) history } := by
  have hfacts := validateBlock_validated hvalid
  have hwell := validateBlock_wellFormed hvalid
  obtain ⟨applied, happlied, -, hcoinbase⟩ := hfacts.applied.transactions
  have hrecreates := hchain.recreates_coinbase hhash hcalls (block.hashed hblock) hfacts.height
    fun transaction hmem => hwell.hashed hblock hmem
  -- whoever creates a key of the coinbase again would have consumed something for it
  have hkeys : ∀ transaction ∈ block.transactions,
      ∀ k ∈ (block.coinbaseEntry P).keys, k ∉ (transaction.entry P).keys := by
    intro transaction hmem k hk hk'
    exact (hrecreates _ (List.mem_append_right _ (List.mem_map_of_mem hmem)) k hk' hk).2 rfl
  have habsent : ∀ k ∈ (block.coinbaseEntry P).keys, state.utxos.outputs.lookup k = none :=
    (hchain.oneTime hhash hcalls).absent (fun _ hk => absurd hk List.not_mem_nil)
      fun e he => hrecreates e (List.mem_append_left _ he)
  have hfresh : Fresh state.utxos.outputs (block.coinbaseEntry P).created :=
    fresh_iff.mpr ⟨(fresh_iff.mp hcoinbase.fresh).1, fun kv hkv =>
      habsent _ (List.mem_map_of_mem hkv)⟩
  have hfits : valueOf block.coinbase.outputs < 2 ^ 64 := by
    rw [(exactBlock_of_validated hfacts).coinbase]
    exact toNat_lt _
  let found : HistoryBlock := {
    height := block.challenge.height
    timestamp := block.challenge.timestamp
    confirmations := walletConfirmations acceptedHeight block.challenge.height }
  obtain ⟨mined, hmined, hfirst⟩ := replayCoinbase_ok destination nextHeight found
    hfresh hfits
  obtain ⟨entries, hentries, hrest⟩ := replayTransactions_ok destination nextHeight found
    happlied hfresh hkeys
  have hend : create applied.view.outputs (block.coinbaseEntry P).created =
      (state.advance validated).utxos.outputs := hcoinbase.entries_eq.symm
  rw [hend] at hentries hrest
  refine ⟨mined ++ entries, hmined.append hentries, fun limit history => ?_⟩
  have hstart : replayCoinbase P destination nextHeight limit found
      { outputs := state.utxos.outputs, history } block = _ := hfirst limit history
  rw [List.foldl_append, ← hrest, replayBlock, hstart]
  rfl

end Blocks

/-! ## The active chain -/

section Chain

variable {params : NetworkParams} {verifier : ConsensusPowVerifier} {accepted : List Acceptance}
  {calls : List HashCall} {node : Node}

/-- The blocks of a branch, read back from the index. -/
theorem replayBranch_ok (acceptedHeight : UInt64)
    (htree : IndexOf P params verifier accepted node.index) (hparams : node.params = params)
    (hhash : P.CollisionFree calls)
    (hcalls : ∀ a ∈ accepted, ∀ call ∈ a.block.hashCalls P, call ∈ calls) {id : Bytes32}
    {branch : List Acceptance} (hbranch : Branch P node.index.genesis accepted id branch) :
    ∀ {state : ChainState}, stateAfter P params verifier branch = .ok state →
      ∃ entries, Accounts destination ∅ state.utxos.outputs entries ∧
        ∀ limit,
          (branch.map (·.id P)).foldlM
              (node.replayActive P destination acceptedHeight limit) { outputs := ∅, history := [] } =
            .ok {
              outputs := state.utxos.outputs
              history := entries.foldl (retainNewestWalletHistory limit) [] } := by
  induction hbranch with
  | genesis =>
      intro state hstate
      simp only [stateAfter, bind_eq_ok, List.foldlM_nil, pure_eq_ok] at hstate
      obtain ⟨_, hnew, rfl⟩ := hstate
      obtain ⟨-, -, -, -, hutxos, -, -⟩ := new_eq_ok hnew
      rw [hutxos]
      exact ⟨[], .nil rfl, fun _ => rfl⟩
  | @child a branch hmem hbranch ih =>
      intro state hstate
      obtain ⟨base, validated, hbase, hvalid, rfl⟩ := stateAfter_snoc.mp hstate
      obtain ⟨before, hbefore, hreplayed⟩ := ih hbase
      obtain ⟨chain, hchain, hmap⟩ := stateAfter_run hbase
      have hchainCalls : ∀ b ∈ chain, ∀ call ∈ b.block.hashCalls P, call ∈ calls := by
        intro b hb
        have hb' := List.mem_map_of_mem
          (f := fun b => (⟨b.block, b.context.nowUnixSeconds⟩ : Acceptance)) hb
        rw [hmap] at hb'
        exact hcalls ⟨b.block, b.context.nowUnixSeconds⟩ (hbranch.subset hb')
      obtain ⟨entries, hentries, hblock⟩ := replayBlock_ok destination node.state.nextHeight
        acceptedHeight hchain hvalid hhash hchainCalls (hcalls a hmem)
      obtain ⟨_, entry, _, _, hlookup, hentry, _⟩ := htree.entry a hmem
      have hnetwork : a.block.challenge.networkId = node.params.networkId :=
        (validateBlock_validated hvalid).network.trans (by rw [stateAfter_params hbase, hparams])
      have hdecode : decodeBlock P entry.canonical node.params.networkId = .ok a.block :=
        hnetwork ▸ decodeBlock_encodeBlock hentry.canonical
      refine ⟨before ++ entries, hbefore.append hentries, fun limit => ?_⟩
      have hone : ∀ history, node.replayActive P destination acceptedHeight limit
          { outputs := base.utxos.outputs, history } (a.id P) = .ok {
            outputs := (base.advance validated).utxos.outputs
            history := entries.foldl (retainNewestWalletHistory limit) history } := by
        intro history
        simp only [Node.replayActive, hlookup, okOr_some, ok_bind, hdecode, mapErr_ok]
        exact hblock limit history
      rw [List.map_append, List.foldlM_append, hreplayed, ok_bind, List.map_singleton,
        List.foldlM_cons, hone, ok_bind, List.foldl_append]
      rfl

end Chain

end Scan

/-! ## What a history adds up to -/

/-- The history of a key, of any node and with any limit, is the newest part of one list of
entries; and the net amounts of that list add up to what the key owns. -/
theorem wallet_history_exact {params : NetworkParams} {verifier : ConsensusPowVerifier}
    {accepted : List Acceptance} {node : Node} (h : NodeRun P params verifier accepted node)
    (hhash : P.CollisionFree (accepted.flatMap (·.block.hashCalls P))) (destination : Bytes32)
    (acceptedHeight : UInt64) :
    ∃ (entries : List WalletHistoryEntry) (amounts : List Int),
      (∀ limit, node.confirmedWalletHistory P destination acceptedHeight limit =
        .ok (entries.drop (entries.length - limit))) ∧
      entries.map (·.netAmountAtoms) = amounts.map toString ∧
      amounts.sum = node.state.utxos.ownedValue destination := by
  have hconsistent := h.consistent
  obtain ⟨branch, hbranch, hstate, hactive, -⟩ := hconsistent.follows.live
  obtain ⟨entries, ⟨amounts, htexts, hsum⟩, hreplayed⟩ := replayBranch_ok destination
    acceptedHeight hconsistent.follows.tree hconsistent.constant.1 hhash
    (fun a ha call hcall => List.mem_flatMap.mpr ⟨a, ha, hcall⟩) hbranch hstate
  refine ⟨entries, amounts, fun limit => ?_, htexts, ?_⟩
  · simp only [Node.confirmedWalletHistory, hactive, List.drop_one, List.tail_cons, hreplayed,
      ok_bind, foldl_retainNewest]
    rfl
  · have hempty : weight (ownedValue destination) (∅ : HistoryOutputs) = 0 := rfl
    rw [hempty] at hsum
    rw [UtxoSet.ownedValue, ← hsum, Int.natCast_zero, Int.zero_add]

/-- The steward is paid by two coinbases and funds a channel with the first of them. -/
def sampleSpentBlocks : List Acceptance := [sampleFirst, ⟨sampleBlock₂, 1120⟩]

def sampleSpentNode : Node := (sampleSubmit sampleNode₀ sampleSpentBlocks).getD sampleNode₀

theorem sampleSpentNode_run :
    NodeRun samplePlatform sampleParams sampleVerifier sampleSpentBlocks sampleSpentNode := by
  have hsome : (sampleSubmit sampleNode₀ sampleSpentBlocks).isSome := by decide +kernel
  exact sampleSubmit_getD_run sampleNode₀_run hsome

theorem wallet_history_exact_sample :
    sampleSpentNode.state.utxos.ownedValue (toBytes 3) = 98989 ∧
      ∃ (entries : List WalletHistoryEntry) (amounts : List Int),
        (∀ limit, sampleSpentNode.confirmedWalletHistory samplePlatform (toBytes 3) 2 limit =
          .ok (entries.drop (entries.length - limit))) ∧
        entries.map (·.netAmountAtoms) = amounts.map toString ∧
        amounts.sum = sampleSpentNode.state.utxos.ownedValue (toBytes 3) :=
  ⟨by decide +kernel, wallet_history_exact sampleSpentNode_run (by decide +kernel) (toBytes 3) 2⟩

end CommonFoundry
