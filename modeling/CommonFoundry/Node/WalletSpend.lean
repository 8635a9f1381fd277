/-
# `CommonFoundry.Node.WalletSpend` — what the test wallet spends

Taking the largest outputs first, a send reaches its amount within the limit on inputs if any
choice of outputs does, and with the fewest inputs (`selectSendUtxos_best`).  A payment or a
consolidation that succeeds has put one transaction into the pool, which burns the fee that
was asked for: what it burns is what its inputs are worth beyond its outputs, by the rules of
the pool, and the wallet has counted the same values.
-/
import CommonFoundry.Node.Wallet

namespace CommonFoundry

open Lib Lib.Outcome Lib.Ledger

/-- What some candidates are worth. -/
def candidatesValue (candidates : List (OutPoint × UInt64)) : Nat :=
  (candidates.map fun candidate => candidate.2.toNat).sum

/-! ## Sums -/

theorem checkedWalletAdd_eq_ok {left right total : UInt64} :
    checkedWalletAdd left right = .ok total ↔ total.toNat = left.toNat + right.toNat := by
  rw [checkedWalletAdd, okOr_eq_ok, checkedAdd_eq_some]

theorem foldlM_checkedWalletAdd {values : List UInt64} {start total : UInt64} :
    values.foldlM checkedWalletAdd start = .ok total ↔
      total.toNat = start.toNat + (values.map UInt64.toNat).sum := by
  induction values generalizing start with
  | nil =>
      rw [List.foldlM_nil, pure_eq_ok, List.map_nil, List.sum_nil, Nat.add_zero,
        ← UInt64.toNat_inj, eq_comm]
  | cons value rest ih =>
      simp only [foldlM_cons_eq_ok, checkedWalletAdd_eq_ok, ih, List.map_cons, List.sum_cons]
      constructor
      · rintro ⟨middle, hmiddle, htotal⟩
        omega
      · intro htotal
        have hlt := total.toNat_lt
        exact ⟨start + value, toNat_add_of_lt (by omega), by rw [toNat_add_of_lt (by omega)]; omega⟩

theorem checkedWalletSum_eq_ok {candidates : List (OutPoint × UInt64)} {total : UInt64} :
    checkedWalletSum (candidates.map (·.2)) = .ok total ↔
      total.toNat = candidatesValue candidates := by
  rw [checkedWalletSum, foldlM_checkedWalletAdd, UInt64.toNat_zero, Nat.zero_add, List.map_map]
  rfl

/-! ## The selection -/

section Sorting

variable {α K : Type} [LinearOrder K] (key : α → K)

theorem sortBy_perm (l : List α) : (sortBy key l).Perm l :=
  List.perm_insertionSort _ l

theorem sortBy_pairwise (l : List α) :
    (sortBy key l).Pairwise fun left right => key left ≤ key right := by
  have : Std.Total fun left right => key left ≤ key right :=
    ⟨fun left right => le_total (key left) (key right)⟩
  have : IsTrans α fun left right => key left ≤ key right := ⟨fun _ _ _ => le_trans⟩
  exact List.pairwise_insertionSort _ l

end Sorting

theorem value_le_of_sendKey {left right : OutPoint × UInt64} (h : sendKey left ≤ sendKey right) :
    right.2.toNat ≤ left.2.toNat := by
  rcases Prod.Lex.toLex_le_toLex.mp h with hlt | ⟨heq, _⟩
  · exact le_of_lt (OrderDual.toDual_lt_toDual.mp hlt)
  · exact (OrderDual.toDual_inj.mp heq).ge

/-- The values of the sorted candidates descend. -/
theorem sortBy_sendKey (candidates : List (OutPoint × UInt64)) :
    ((sortBy sendKey candidates).map fun candidate => candidate.2.toNat).Pairwise (· ≥ ·) :=
  List.pairwise_map.mpr ((sortBy_pairwise sendKey candidates).imp value_le_of_sendKey)

/-- The loop takes candidates until they reach what is required. -/
theorem selectLoop_eq {required : UInt64} {candidates : List (OutPoint × UInt64)}
    (outpoints : List OutPoint) (selectedValue : UInt64)
    (hsum : selectedValue.toNat + candidatesValue candidates < 2 ^ 64)
    (hless : selectedValue < required) :
    let count := countUntil (required.toNat - selectedValue.toNat)
      (candidates.map fun candidate => candidate.2.toNat)
    ∃ value, selectLoop required candidates outpoints selectedValue =
        .ok (outpoints ++ (candidates.take count).map (·.1), value) ∧
      value.toNat = selectedValue.toNat + candidatesValue (candidates.take count) := by
  induction candidates generalizing outpoints selectedValue with
  | nil => exact ⟨selectedValue, by simp [selectLoop, pure_eq_ok], rfl⟩
  | cons candidate rest ih =>
      obtain ⟨outpoint, value⟩ := candidate
      have hvalue : candidatesValue ((outpoint, value) :: rest) =
          value.toNat + candidatesValue rest := List.sum_cons
      have hadd := toNat_add_of_lt (a := selectedValue) (b := value) (by omega)
      have hok : checkedWalletAdd selectedValue value = .ok (selectedValue + value) :=
        checkedWalletAdd_eq_ok.mpr hadd
      rw [UInt64.lt_iff_toNat_lt] at hless
      intro count
      by_cases hreach : selectedValue + value ≥ required
      · have hcount : count = 1 := by
          rw [ge_iff_le, UInt64.le_iff_toNat_le, hadd] at hreach
          exact if_pos (show required.toNat - selectedValue.toNat ≤ value.toNat by omega)
        refine ⟨selectedValue + value, ?_, ?_⟩
        · rw [selectLoop, hok, ok_bind, if_pos hreach, hcount]
          rfl
        · rw [hcount, hadd]
          rfl
      · have hagain : selectedValue + value < required := UInt64.not_le.mp hreach
        rw [ge_iff_le, UInt64.le_iff_toNat_le, hadd] at hreach
        obtain ⟨total, hrest, htotal⟩ := ih (outpoints ++ [outpoint])
          (selectedValue + value) (by omega) hagain
        have hcount : count = countUntil (required.toNat - (selectedValue + value).toNat)
            (rest.map fun candidate => candidate.2.toNat) + 1 := by
          rw [hadd, ← Nat.sub_sub]
          exact if_neg (show ¬required.toNat - selectedValue.toNat ≤ value.toNat by omega)
        refine ⟨total, ?_, ?_⟩
        · rw [selectLoop, hok, ok_bind, if_neg (UInt64.not_le.mpr hagain), hrest, hcount,
            List.take_succ_cons, List.map_cons, List.append_assoc]
          rfl
        · rw [htotal, hcount, List.take_succ_cons, hadd, Nat.add_assoc]
          rfl

/-- Some of the candidates, and none better. -/
structure WalletCoinSelection.Best (candidates : List (OutPoint × UInt64)) (required : UInt64)
    (selection : WalletCoinSelection) : Prop where
  chosen : ∃ chosen : List (OutPoint × UInt64), chosen.Subperm candidates ∧
    chosen.length ≤ maxTransactionInputs ∧ selection.outpoints = chosen.map (·.1) ∧
    selection.selectedValue.toNat = candidatesValue chosen
  available : selection.available.toNat = candidatesValue candidates
  reaches : required ≤ selection.selectedValue ↔
    ∃ some : List (OutPoint × UInt64), some.Subperm candidates ∧
      some.length ≤ maxTransactionInputs ∧ required.toNat ≤ candidatesValue some
  fewest : required ≤ selection.selectedValue →
    ∀ some : List (OutPoint × UInt64), some.Subperm candidates →
      required.toNat ≤ candidatesValue some → selection.outpoints.length ≤ some.length

theorem subperm_map {α β : Type} (f : α → β) {l s : List α} (h : s.Subperm l) :
    (s.map f).Subperm (l.map f) := by
  obtain ⟨s', hperm, hsub⟩ := h
  exact ⟨s'.map f, hperm.map f, hsub.map f⟩

/-- Sublists of the values are values of sublists. -/
theorem exists_subperm_map {α β : Type} {f : α → β} {l : List α} {s : List β}
    (h : s.Subperm (l.map f)) : ∃ s' : List α, s'.Subperm l ∧ (s'.map f).Perm s := by
  obtain ⟨s', hperm, hsub⟩ := h
  obtain ⟨l', hl', rfl⟩ := List.sublist_map_iff.mp hsub
  exact ⟨l', hl'.subperm, hperm⟩

theorem selectSendUtxos_best {candidates : List (OutPoint × UInt64)} {required : UInt64}
    (hsum : candidatesValue candidates < 2 ^ 64) (hrequired : 1 ≤ required) :
    ∃ selection, selectSendUtxos candidates required = .ok selection ∧
      selection.Best candidates required := by
  have hperm := sortBy_perm sendKey candidates
  have hsorted := sortBy_sendKey candidates
  have hpos : 0 < required.toNat := UInt64.le_iff_toNat_le.mp hrequired
  obtain ⟨available, havailable⟩ : ∃ available : UInt64,
      available.toNat = candidatesValue candidates :=
    ⟨UInt64.ofNat (candidatesValue candidates), UInt64.toNat_ofNat_of_lt' hsum⟩
  have htake : candidatesValue ((sortBy sendKey candidates).take maxTransactionInputs) ≤
      candidatesValue candidates := by
    rw [candidatesValue, candidatesValue, ← (hperm.map _).sum_eq]
    exact ((List.take_sublist _ _).map _).sum_le_sum fun _ _ => Nat.zero_le _
  obtain ⟨value, hloop, hvalue⟩ :=
    selectLoop_eq [] 0
      (show 0 + candidatesValue ((sortBy sendKey candidates).take maxTransactionInputs) < 2 ^ 64 by
        omega) (UInt64.lt_iff_toNat_lt.mpr hpos)
  rw [UInt64.toNat_zero, Nat.zero_add, Nat.sub_zero] at hvalue
  rw [UInt64.toNat_zero, Nat.sub_zero, List.nil_append] at hloop
  -- the values of the candidates taken
  have hchosen : candidatesValue (((sortBy sendKey candidates).take maxTransactionInputs).take
      (countUntil required.toNat (((sortBy sendKey candidates).take maxTransactionInputs).map
        fun candidate => candidate.2.toNat))) =
      ((((sortBy sendKey candidates).map fun candidate => candidate.2.toNat).take
        maxTransactionInputs).take (countUntil required.toNat
          (((sortBy sendKey candidates).map fun candidate => candidate.2.toNat).take
            maxTransactionInputs))).sum := by
    rw [candidatesValue, List.map_take, List.map_take]
  refine ⟨⟨_, value, available⟩, ?_, ⟨_, ?_, ?_, rfl, hvalue⟩, havailable, ?_, ?_⟩
  · rw [selectSendUtxos, checkedWalletSum_eq_ok.mpr havailable, ok_bind, hloop]
    rfl
  · exact (((List.take_sublist _ _).trans (List.take_sublist _ _)).subperm).trans hperm.subperm
  · rw [List.length_take, List.length_take]
    omega
  · rw [UInt64.le_iff_toNat_le, hvalue, hchosen, sum_take_countUntil_iff hsorted]
    constructor
    · rintro ⟨values, hsub, hlength, hreach⟩
      obtain ⟨some, hsome, hvalues⟩ := exists_subperm_map hsub
      refine ⟨some, hsome.trans hperm.subperm, ?_, ?_⟩
      · rw [← List.length_map fun candidate : OutPoint × UInt64 => candidate.2.toNat,
          hvalues.length_eq]
        exact hlength
      · rw [candidatesValue, hvalues.sum_eq]
        exact hreach
    · rintro ⟨some, hsub, hlength, hreach⟩
      exact ⟨_, subperm_map _ (hsub.trans hperm.symm.subperm), by rw [List.length_map]; exact hlength,
        hreach⟩
  · intro _ some hsub hreach
    have hcount := countUntil_le maxTransactionInputs hsorted hpos
      (subperm_map (fun candidate => candidate.2.toNat) (hsub.trans hperm.symm.subperm)) hreach
    rw [List.length_map] at hcount
    rw [List.length_map, List.length_take, List.map_take]
    exact (min_le_left _ _).trans hcount

/-! ## One transaction more -/

/-- A transaction is in the pool that was not, of outputs that are unspent on the chain and in
the pool, and it burns what these are worth beyond its own. -/
structure Node.Adds (P : Platform) (node : Node) (entry : MempoolEntry) (node' : Node) : Prop where
  fresh : node.mempool.entries.contains entry.txid = false
  txid : entry.txid = entry.transaction.txid P
  added : node' = { node with mempool := {
    entries := node.mempool.entries.insert entry.txid entry
    bytes := node.mempool.bytes + entry.encodedBytes } }
  unspent : ∀ outpoint ∈ entry.transaction.consumed,
    (∃ output, node.state.utxos.get outpoint = some output) ∧
      outpoint ∉ mempoolSpentInputs node.mempool.entries
  burned : held outputValue node.state.utxos.outputs entry.transaction.consumed =
    valueOf entry.transaction.outputs + entry.feeBurned.toNat

section

variable {P : Platform} {node node' : Node} {wallet : DevWallet}
  {iteration : List (OutPoint × TxOutput)}

theorem submitTransaction_adds {transaction : Transaction} {entry : MempoolEntry}
    (h : node.submitTransaction P transaction = (.ok entry, node')) :
    node.Adds P entry node' ∧ entry.transaction = transaction := by
  rw [Node.submitTransaction] at h
  split at h
  · next found mempool hsubmit =>
      obtain ⟨hentry, rfl⟩ := Prod.mk.inj h
      obtain rfl := Except.ok.inj hentry
      simp only [Mempool.submit, bind_eq_ok, mapErr_eq_ok, require_eq_ok, pure_eq_ok,
        validateMempoolTransaction_eq_ok, Prod.mk.injEq] at hsubmit
      obtain ⟨canonical, _, _, hnew, _, _, _, _, fee, ⟨hinputs, hpasses, _⟩, _, _, rfl, rfl⟩ :=
        hsubmit
      exact ⟨⟨Bool.eq_false_of_not_eq_true hnew, rfl, rfl, hinputs, hpasses.burned⟩, rfl⟩
  · cases (Prod.mk.inj h).1

theorem previous_of_forall₂ {f : TxInput × SigningKey → Outcome ChainError TxInput}
    (hf : ∀ pair input, f pair = .ok input → input.previous = pair.1.previous)
    {pairs : List (TxInput × SigningKey)} {inputs : List TxInput}
    (h : List.Forall₂ (fun pair input => f pair = .ok input) pairs inputs) :
    inputs.map (·.previous) = pairs.map fun pair => pair.1.previous := by
  induction h with
  | nil => rfl
  | cons hhead _ ih => rw [List.map_cons, List.map_cons, ih, hf _ _ hhead]

/-- A pass over inputs and keys that only writes witnesses. -/
theorem previous_of_mapM {keys : List SigningKey} {inputs inputs' : List TxInput}
    {f : TxInput × SigningKey → Outcome ChainError TxInput}
    (hf : ∀ pair input, f pair = .ok input → input.previous = pair.1.previous)
    (hlength : keys.length = inputs.length) (h : (inputs.zip keys).mapM f = .ok inputs') :
    inputs'.map (·.previous) = inputs.map (·.previous) := by
  have hzip : (inputs.zip keys).map (·.1) = inputs := List.map_fst_zip hlength.ge
  calc inputs'.map (·.previous)
      = ((inputs.zip keys).map (·.1)).map (·.previous) := by
        rw [previous_of_forall₂ hf (mapM_eq_ok.mp h), List.map_map]
        rfl
    _ = inputs.map (·.previous) := by rw [hzip]

/-- Signing changes witnesses only. -/
theorem signAll_eq_ok {transaction signed : Transaction} {keys : List SigningKey}
    (h : transaction.signAll P keys = .ok signed) :
    signed.consumed = transaction.consumed ∧ signed.outputs = transaction.outputs := by
  simp only [Transaction.signAll, bind_eq_ok, require_eq_ok, pure_eq_ok] at h
  obtain ⟨_, hlength, named, hnamed, inputs, hinputs, rfl⟩ := h
  have hfirst := previous_of_mapM (fun pair input hinput => by
    split at hinput
    · obtain rfl := Except.ok.inj hinput
      rfl
    · cases hinput) hlength hnamed
  have hcount : keys.length = named.length := by
    rw [hlength, ← List.length_map (·.previous), ← hfirst, List.length_map]
  have hsecond := previous_of_mapM (fun pair input hinput => by
    split at hinput
    · obtain rfl := Except.ok.inj hinput
      rfl
    · cases hinput) hcount hinputs
  exact ⟨hsecond.trans hfirst, rfl⟩

theorem signWalletTransaction_eq_ok {transaction signed : Transaction} {feeBurned : UInt64}
    (h : signWalletTransaction P wallet transaction feeBurned = .ok signed) :
    signed.consumed = transaction.consumed ∧ signed.outputs = transaction.outputs := by
  simp only [signWalletTransaction, bind_eq_ok, mapErr_eq_ok, require_eq_ok, pure_eq_ok] at h
  obtain ⟨_, hsigned, _, _, _, _, rfl⟩ := h
  exact signAll_eq_ok hsigned

/-! ## The values of candidates -/

/-- A hash map read in some order. -/
structure Lists (iteration : List (OutPoint × TxOutput)) (utxos : UtxoSet) : Prop where
  nodup : (iteration.map (·.1)).Nodup
  mem_iff : ∀ outpoint output,
    (outpoint, output) ∈ iteration ↔ utxos.get outpoint = some output

/-- Candidates are worth what the outputs of that name are. -/
def Priced (utxos : UtxoSet) (candidates : List (OutPoint × UInt64)) : Prop :=
  ∀ candidate ∈ candidates, ∃ output, utxos.get candidate.1 = some output ∧
    output.value = candidate.2

theorem held_of_priced {utxos : UtxoSet} {candidates : List (OutPoint × UInt64)}
    (h : Priced utxos candidates) :
    held outputValue utxos.outputs (candidates.map (·.1)) = candidatesValue candidates := by
  rw [held, candidatesValue, List.map_map]
  refine congrArg List.sum (List.map_congr_left fun candidate hcandidate => ?_)
  obtain ⟨output, hget, hvalue⟩ := h candidate hcandidate
  rw [UtxoSet.get] at hget
  rw [Function.comp_apply, hget, ← hvalue]
  rfl

theorem Priced.subperm {utxos : UtxoSet} {candidates chosen : List (OutPoint × UInt64)}
    (h : Priced utxos candidates) (hsub : chosen.Subperm candidates) : Priced utxos chosen :=
  fun candidate hcandidate => h candidate (hsub.subset hcandidate)

/-- The loop over the unspent outputs collects only such candidates. -/
theorem priced_of_collect {utxos : UtxoSet} {reserved : Finset OutPoint}
    {entries : List (OutPoint × TxOutput)}
    (hentries : ∀ entry ∈ entries, utxos.get entry.1 = some entry.2)
    {found found' : List (OutPoint × UInt64) × UInt64} (hfound : Priced utxos found.1)
    (h : entries.foldlM (node.collectCandidate P wallet reserved) found = .ok found') :
    Priced utxos found'.1 := by
  induction entries generalizing found with
  | nil =>
      obtain rfl := pure_eq_ok.mp h
      exact hfound
  | cons entry rest ih =>
      obtain ⟨middle, hmiddle, hrest⟩ := foldlM_cons_eq_ok.mp h
      obtain ⟨hentry, hentries⟩ := List.forall_mem_cons.mp hentries
      refine ih hentries ?_ hrest
      rw [Node.collectCandidate] at hmiddle
      split at hmiddle
      · obtain rfl := pure_eq_ok.mp hmiddle
        exact hfound
      · split at hmiddle
        · obtain ⟨_, _, hmiddle⟩ := bind_eq_ok.mp hmiddle
          obtain rfl := pure_eq_ok.mp hmiddle
          exact hfound
        · split at hmiddle
          · obtain rfl := pure_eq_ok.mp hmiddle
            intro candidate hcandidate
            rcases List.mem_append.mp hcandidate with hcandidate | hcandidate
            · exact hfound candidate hcandidate
            · rw [List.mem_singleton.mp hcandidate]
              exact ⟨entry.2, hentry, rfl⟩
          · obtain rfl := pure_eq_ok.mp hmiddle
            exact hfound

theorem best_of_selectSendUtxos {candidates : List (OutPoint × UInt64)} {required : UInt64}
    {selection : WalletCoinSelection} (h : selectSendUtxos candidates required = .ok selection)
    (hrequired : 1 ≤ required) : selection.Best candidates required := by
  have hsum : candidatesValue candidates < 2 ^ 64 := by
    obtain ⟨available, havailable, _⟩ := bind_eq_ok.mp h
    rw [← checkedWalletSum_eq_ok.mp havailable]
    exact available.toNat_lt
  obtain ⟨selection', hselection, hbest⟩ := selectSendUtxos_best hsum hrequired
  obtain rfl := Except.ok.inj (h.symm.trans hselection)
  exact hbest

/-! ## Sending -/

/-- What a payment is made of, and what its inputs are worth. -/
structure Node.Payment (P : Platform) (node : Node) (wallet : DevWallet) (recipient : Bytes32)
    (amount feeBurned change : UInt64) (transaction : Transaction) : Prop where
  inputs : held outputValue node.state.utxos.outputs transaction.consumed =
    amount.toNat + feeBurned.toNat + change.toNat
  within : transaction.consumed.length ≤ maxTransactionInputs
  outputs : transaction.outputs =
    { value := amount, lock := .key recipient, spendableHeight := node.state.nextHeight } ::
      if change > 0 then
        [{ value := change, lock := .key (wallet.destination P),
           spendableHeight := node.state.nextHeight }]
      else []

/-- The change that is left out is nothing. -/
theorem Node.Payment.valueOf {recipient : Bytes32} {amount feeBurned change : UInt64}
    {transaction : Transaction}
    (h : node.Payment P wallet recipient amount feeBurned change transaction) :
    valueOf transaction.outputs = amount.toNat + change.toNat := by
  rw [h.outputs]
  by_cases hchange : change > 0
  · rw [if_pos hchange]
    simp [CommonFoundry.valueOf, outputValue]
  · obtain rfl : change = 0 := UInt64.le_zero_iff.mp (UInt64.not_lt.mp hchange)
    rw [if_neg hchange]
    simp [CommonFoundry.valueOf, outputValue]

theorem consumed_unsigned (outpoints : List OutPoint) :
    (outpoints.map unsignedInput).map (·.previous) = outpoints := by
  rw [List.map_map]
  exact List.map_id outpoints

theorem buildSend_eq_ok {recipient : Bytes32} {amount feeBurned change : UInt64}
    {transaction : Transaction} (hlists : Lists iteration node.state.utxos)
    (h : node.buildSend P wallet iteration recipient amount feeBurned =
      .ok (transaction, change)) :
    node.Payment P wallet recipient amount feeBurned change transaction := by
  simp only [Node.buildSend, bind_eq_ok, require_eq_ok, okOr_eq_ok, checkedAdd_eq_some] at h
  obtain ⟨_, _, _, hamount, required, hrequired, ⟨candidates, immature⟩, hcollect, selection,
    hselection, h⟩ := h
  have hpriced : Priced node.state.utxos candidates :=
    priced_of_collect (fun entry hentry => (hlists.mem_iff entry.1 entry.2).mp hentry)
      (fun _ hnone => absurd hnone List.not_mem_nil) hcollect
  have hpositive : 1 ≤ required := by
    have hne : amount.toNat ≠ 0 := fun hzero => hamount (UInt64.toNat_inj.mp hzero)
    rw [UInt64.le_iff_toNat_le, hrequired, UInt64.toNat_one]
    omega
  obtain ⟨chosen, hsub, hlength, hnames, hvalue⟩ :=
    (best_of_selectSendUtxos hselection hpositive).chosen
  split at h
  · split at h
    · cases h
    · obtain ⟨_, _, h⟩ := bind_eq_ok.mp h
      split at h <;> cases h
  · next hreaches =>
      obtain ⟨signed, hsigned, h⟩ := bind_eq_ok.mp h
      obtain ⟨rfl, rfl⟩ := Prod.mk.inj (pure_eq_ok.mp h)
      obtain ⟨hconsumed, houtputs⟩ := signWalletTransaction_eq_ok hsigned
      have hconsumed : signed.consumed = chosen.map (·.1) := by
        rw [hconsumed, ← hnames]
        exact consumed_unsigned selection.outpoints
      have hle := UInt64.not_lt.mp hreaches
      refine ⟨?_, ?_, houtputs⟩
      · rw [hconsumed, held_of_priced (hpriced.subperm hsub), ← hvalue,
          UInt64.toNat_sub_of_le _ _ hle]
        rw [UInt64.le_iff_toNat_le] at hle
        omega
      · rw [hconsumed, List.length_map]
        exact hlength

theorem sendFromDevWallet_ok {recipient : Bytes32} {amount feeBurned : UInt64}
    {response : WalletSendResponse} (hlists : Lists iteration node.state.utxos)
    (h : node.sendFromDevWallet P wallet iteration recipient amount feeBurned =
      (.ok response, node')) :
    ∃ entry change, node.Adds P entry node' ∧ entry.feeBurned = feeBurned ∧
      node.Payment P wallet recipient amount feeBurned change entry.transaction ∧
      response.txid = hexEncode entry.txid.1 ∧ response.amountAtoms = toString amount ∧
      response.feeBurnedAtoms = toString feeBurned ∧
      response.changeAtoms = toString change := by
  rw [Node.sendFromDevWallet] at h
  split at h
  · cases (Prod.mk.inj h).1
  · next transaction change hbuild =>
      split at h
      · cases mapErr_eq_ok.mp (Prod.mk.inj h).1
      · next entry found hsubmit =>
          obtain ⟨hresponse, rfl⟩ := Prod.mk.inj h
          obtain rfl := Except.ok.inj hresponse
          obtain ⟨hadds, rfl⟩ := submitTransaction_adds hsubmit
          have hpayment := buildSend_eq_ok hlists hbuild
          have hburned := hadds.burned
          rw [hpayment.inputs, hpayment.valueOf] at hburned
          have hfee : entry.feeBurned = feeBurned := UInt64.toNat_inj.mp (by omega)
          exact ⟨entry, change, hadds, hfee, hpayment, rfl, rfl, by rw [hfee], rfl⟩

theorem sendFromDevWallet_error {recipient : Bytes32} {amount feeBurned : UInt64}
    {fault : Fault WalletError}
    (h : node.sendFromDevWallet P wallet iteration recipient amount feeBurned =
      (.error fault, node')) : node' = node := by
  rw [Node.sendFromDevWallet] at h
  split at h
  · exact (Prod.mk.inj h).2.symm
  · split at h
    · next hsubmit =>
        obtain ⟨_, rfl⟩ := Prod.mk.inj h
        exact submitTransaction_fails hsubmit
    · cases (Prod.mk.inj h).1

/-! ## Consolidating -/

/-- What a consolidation is made of, and what its inputs are worth. -/
structure Node.Consolidation (P : Platform) (node : Node) (wallet : DevWallet)
    (feeBurned outputAtoms : UInt64) (maxInputs : Nat) (transaction : Transaction) : Prop where
  inputs : held outputValue node.state.utxos.outputs transaction.consumed =
    outputAtoms.toNat + feeBurned.toNat
  several : 2 ≤ transaction.consumed.length
  within : transaction.consumed.length ≤ maxInputs ∧ maxInputs ≤ maxTransactionInputs
  positive : 0 < outputAtoms
  outputs : transaction.outputs = [{
    value := outputAtoms
    lock := .key (wallet.destination P)
    spendableHeight := node.state.nextHeight }]

theorem priced_consolidationCandidates (hlists : Lists iteration node.state.utxos) :
    Priced node.state.utxos (node.consolidationCandidates P wallet iteration) := by
  intro candidate hcandidate
  obtain ⟨entry, hentry, rfl⟩ := List.mem_map.mp hcandidate
  exact ⟨entry.2, (hlists.mem_iff entry.1 entry.2).mp (List.mem_filter.mp hentry).1, rfl⟩

theorem buildConsolidation_eq_ok {feeBurned inputAtoms outputAtoms : UInt64} {maxInputs : Nat}
    {transaction : Transaction} (hlists : Lists iteration node.state.utxos)
    (h : node.buildConsolidation P wallet iteration feeBurned maxInputs =
      .ok (transaction, inputAtoms, outputAtoms)) :
    node.Consolidation P wallet feeBurned outputAtoms maxInputs transaction ∧
      inputAtoms.toNat = outputAtoms.toNat + feeBurned.toNat := by
  simp only [Node.buildConsolidation, bind_eq_ok, require_eq_ok, okOr_eq_ok,
    Option.filter_eq_some_iff, checkedSub_eq_some, pure_eq_ok, Prod.mk.injEq] at h
  obtain ⟨_, ⟨_, hmax⟩, _, hseveral, input, hinput, output, ⟨hsub, hpositive⟩, signed,
    hsigned, rfl, rfl, rfl⟩ := h
  obtain ⟨hconsumed, houtputs⟩ := signWalletTransaction_eq_ok hsigned
  have hconsumed : signed.consumed =
      ((sortBy consolidateKey (node.consolidationCandidates P wallet iteration)).take
        maxInputs).map (·.1) := by
    rw [hconsumed, Transaction.consumed, List.map_map]
    rfl
  have hlength : signed.consumed.length = ((sortBy consolidateKey
      (node.consolidationCandidates P wallet iteration)).take maxInputs).length := by
    rw [hconsumed, List.length_map]
  have hpriced := (priced_consolidationCandidates hlists).subperm
    (((List.take_sublist maxInputs _).subperm).trans
      (sortBy_perm consolidateKey (node.consolidationCandidates P wallet iteration)).subperm)
  rw [checkedWalletSum_eq_ok, ← held_of_priced hpriced, ← hconsumed] at hinput
  refine ⟨⟨by omega, ?_, ⟨?_, hmax⟩, of_decide_eq_true hpositive, houtputs⟩, by omega⟩
  · rw [hlength]
    exact Nat.not_lt.mp hseveral
  · rw [hlength]
    exact List.length_take_le maxInputs _

theorem consolidateDevWallet_ok {feeBurned : UInt64} {maxInputs : Nat}
    {response : WalletConsolidateResponse} (hlists : Lists iteration node.state.utxos)
    (h : node.consolidateDevWallet P wallet iteration feeBurned maxInputs =
      (.ok response, node')) :
    ∃ (entry : MempoolEntry) (inputAtoms outputAtoms : UInt64),
      node.Adds P entry node' ∧ entry.feeBurned = feeBurned ∧
      node.Consolidation P wallet feeBurned outputAtoms maxInputs entry.transaction ∧
      inputAtoms.toNat = outputAtoms.toNat + feeBurned.toNat ∧
      response.txid = hexEncode entry.txid.1 ∧
      response.inputsConsolidated = entry.transaction.inputs.length ∧
      response.inputAtoms = toString inputAtoms ∧
      response.outputAtoms = toString outputAtoms ∧
      response.feeBurnedAtoms = toString feeBurned := by
  rw [Node.consolidateDevWallet] at h
  split at h
  · cases (Prod.mk.inj h).1
  · next transaction inputAtoms outputAtoms hbuild =>
      split at h
      · cases mapErr_eq_ok.mp (Prod.mk.inj h).1
      · next entry found hsubmit =>
          obtain ⟨hresponse, rfl⟩ := Prod.mk.inj h
          obtain rfl := Except.ok.inj hresponse
          obtain ⟨hadds, rfl⟩ := submitTransaction_adds hsubmit
          obtain ⟨hconsolidation, hatoms⟩ := buildConsolidation_eq_ok hlists hbuild
          have hburned := hadds.burned
          have hvalue : valueOf entry.transaction.outputs = outputAtoms.toNat := by
            rw [hconsolidation.outputs]
            simp [valueOf, outputValue]
          rw [hconsolidation.inputs, hvalue] at hburned
          have hfee : entry.feeBurned = feeBurned := UInt64.toNat_inj.mp (by omega)
          exact ⟨entry, inputAtoms, outputAtoms, hadds, hfee, hconsolidation, hatoms, rfl, rfl, rfl, rfl,
            by rw [hfee]⟩

theorem consolidateDevWallet_error {feeBurned : UInt64} {maxInputs : Nat}
    {fault : Fault WalletError}
    (h : node.consolidateDevWallet P wallet iteration feeBurned maxInputs =
      (.error fault, node')) : node' = node := by
  rw [Node.consolidateDevWallet] at h
  split at h
  · exact (Prod.mk.inj h).2.symm
  · split at h
    · next hsubmit =>
        obtain ⟨_, rfl⟩ := Prod.mk.inj h
        exact submitTransaction_fails hsubmit
    · cases (Prod.mk.inj h).1

end

/-- Selection is best within the limit on inputs.  In a reachable node, whatever the order in
which its unspent outputs are read, the two ways to spend put one transaction into the pool
that burns the fee that was asked for, or change nothing. -/
theorem wallet_spends (P : Platform) :
    (∀ (candidates : List (OutPoint × UInt64)) (required : UInt64),
      candidatesValue candidates < 2 ^ 64 → 1 ≤ required →
        ∃ selection, selectSendUtxos candidates required = .ok selection ∧
          selection.Best candidates required) ∧
    ∀ {params : NetworkParams} {verifier : ConsensusPowVerifier} {accepted : List Acceptance}
      {node : Node}, NodeRun P params verifier accepted node →
      ∀ (wallet : DevWallet) (iteration : List (OutPoint × TxOutput)),
        Lists iteration node.state.utxos →
        (∀ recipient amount feeBurned response node',
          node.sendFromDevWallet P wallet iteration recipient amount feeBurned =
              (.ok response, node') →
            ∃ entry change, node.Adds P entry node' ∧ entry.feeBurned = feeBurned ∧
              node.Payment P wallet recipient amount feeBurned change entry.transaction ∧
              response.changeAtoms = toString change) ∧
        (∀ recipient amount feeBurned fault node',
          node.sendFromDevWallet P wallet iteration recipient amount feeBurned =
            (.error fault, node') → node' = node) ∧
        (∀ feeBurned maxInputs response node',
          node.consolidateDevWallet P wallet iteration feeBurned maxInputs =
              (.ok response, node') →
            ∃ entry outputAtoms, node.Adds P entry node' ∧ entry.feeBurned = feeBurned ∧
              node.Consolidation P wallet feeBurned outputAtoms maxInputs entry.transaction ∧
              response.outputAtoms = toString outputAtoms) ∧
        ∀ feeBurned maxInputs fault node',
          node.consolidateDevWallet P wallet iteration feeBurned maxInputs =
            (.error fault, node') → node' = node := by
  refine ⟨fun candidates required => selectSendUtxos_best, ?_⟩
  intro params verifier accepted node _ wallet iteration hlists
  refine ⟨?_, fun _ _ _ _ _ => sendFromDevWallet_error, ?_,
    fun _ _ _ _ => consolidateDevWallet_error⟩
  · intro recipient amount feeBurned response node' hsend
    obtain ⟨entry, change, hadds, hfee, hpayment, _, _, _, hchange⟩ :=
      sendFromDevWallet_ok hlists hsend
    exact ⟨entry, change, hadds, hfee, hpayment, hchange⟩
  · intro feeBurned maxInputs response node' hconsolidate
    obtain ⟨entry, _, outputAtoms, hadds, hfee, hconsolidation, _, _, _, _, houtput, _⟩ :=
      consolidateDevWallet_ok hlists hconsolidate
    exact ⟨entry, outputAtoms, hadds, hfee, hconsolidation, houtput⟩

/-! ## A wallet of the sample network -/

/-- The wallet of the steward. -/
def sampleWallet : DevWallet := { signingKey := ⟨toBytes 3⟩, legacyShared := false }

/-- The outputs of a coinbase under their names. -/
def sampleCoinbase (block : Block) : List (OutPoint × TxOutput) :=
  block.coinbase.outputs.zipIdx.map fun (output, index) =>
    (⟨block.coinbaseOutpointId samplePlatform, UInt32.ofNat index⟩, output)

def sampleIteration : List (OutPoint × TxOutput) :=
  sampleCoinbase sampleRivalChild.block ++ sampleCoinbase sampleRival.block

theorem lists_of_toFinmap {utxos : UtxoSet} {iteration : List (OutPoint × TxOutput)}
    (hnodup : (iteration.map (·.1)).Nodup)
    (houtputs : utxos.outputs = (iteration.map Prod.toSigma).toFinmap) :
    Lists iteration utxos := by
  refine ⟨hnodup, fun outpoint output => ?_⟩
  have hkeys : (iteration.map Prod.toSigma).NodupKeys := by
    rw [List.NodupKeys, List.keys, List.map_map]
    exact hnodup
  rw [UtxoSet.get, houtputs, List.toFinmap, Finmap.lookup_toFinmap, AList.lookup_to_alist,
    ← Option.mem_def, List.mem_dlookup_iff hkeys, List.mem_map]
  constructor
  · intro hmem
    exact ⟨_, hmem, rfl⟩
  · rintro ⟨entry, hmem, hentry⟩
    obtain ⟨rfl, heq⟩ := Sigma.mk.inj hentry
    obtain rfl := eq_of_heq heq
    exact hmem

theorem sampleIteration_lists : Lists sampleIteration sampleNode.state.utxos :=
  lists_of_toFinmap (by decide +kernel) (by decide +kernel)

theorem exists_of_isOk {ε α σ : Type} {result : Outcome ε α × σ} (h : result.1.isOk) :
    ∃ value state, result = (.ok value, state) := by
  obtain ⟨outcome, state⟩ := result
  cases outcome with
  | ok value => exact ⟨value, state, rfl⟩
  | error fault => cases h

/-- The steward pays 150000 out of both rewards, with change, or puts them together. -/
theorem wallet_spends_sample :
    (∃ selection, selectSendUtxos [(⟨zero32, 0⟩, 5), (⟨zero32, 1⟩, 7)] 6 = .ok selection ∧
      selection.Best [(⟨zero32, 0⟩, 5), (⟨zero32, 1⟩, 7)] 6) ∧
    (∃ response node' entry change,
      sampleNode.sendFromDevWallet samplePlatform sampleWallet sampleIteration (toBytes 9) 150000
        20000 = (.ok response, node') ∧
      sampleNode.Adds samplePlatform entry node' ∧ entry.feeBurned = 20000 ∧
      sampleNode.Payment samplePlatform sampleWallet (toBytes 9) 150000 20000 change
        entry.transaction) ∧
    (∃ response node' entry outputAtoms,
      sampleNode.consolidateDevWallet samplePlatform sampleWallet sampleIteration 20000 2 =
        (.ok response, node') ∧
      sampleNode.Adds samplePlatform entry node' ∧ entry.feeBurned = 20000 ∧
      sampleNode.Consolidation samplePlatform sampleWallet 20000 outputAtoms 2
        entry.transaction) ∧
    (∃ fault node', sampleNode.sendFromDevWallet samplePlatform sampleWallet sampleIteration
      (toBytes 9) 0 20000 = (.error fault, node') ∧ node' = sampleNode) ∧
    (∃ fault node', sampleNode.consolidateDevWallet samplePlatform sampleWallet sampleIteration
      20000 1 = (.error fault, node') ∧ node' = sampleNode) := by
  obtain ⟨hselect, hspend⟩ := wallet_spends samplePlatform
  obtain ⟨hsend, hsendError, hconsolidate, hconsolidateError⟩ :=
    hspend sampleNode_run sampleWallet sampleIteration sampleIteration_lists
  refine ⟨hselect _ 6 (by decide) (by decide), ?_, ?_, ?_, ?_⟩
  · obtain ⟨response, node', hok⟩ := exists_of_isOk (show (sampleNode.sendFromDevWallet
      samplePlatform sampleWallet sampleIteration (toBytes 9) 150000 20000).1.isOk by
        decide +kernel)
    obtain ⟨entry, change, hadds, hfee, hpayment, _⟩ := hsend _ _ _ _ _ hok
    exact ⟨response, node', entry, change, hok, hadds, hfee, hpayment⟩
  · obtain ⟨response, node', hok⟩ := exists_of_isOk (show (sampleNode.consolidateDevWallet
      samplePlatform sampleWallet sampleIteration 20000 2).1.isOk by decide +kernel)
    obtain ⟨entry, outputAtoms, hadds, hfee, hconsolidation, _⟩ := hconsolidate _ _ _ _ hok
    exact ⟨response, node', entry, outputAtoms, hok, hadds, hfee, hconsolidation⟩
  · have hzero : sampleNode.sendFromDevWallet samplePlatform sampleWallet sampleIteration
        (toBytes 9) 0 20000 = (fail .walletZeroAmount, sampleNode) := by
      rw [Node.sendFromDevWallet, Node.buildSend]
      rfl
    exact ⟨_, _, hzero, hsendError _ _ _ _ _ hzero⟩
  · have hone : sampleNode.consolidateDevWallet samplePlatform sampleWallet sampleIteration
        20000 1 = (fail .invalidConsolidationMaxInputs, sampleNode) := by
      rw [Node.consolidateDevWallet, Node.buildConsolidation]
      rfl
    exact ⟨_, _, hone, hconsolidateError _ _ _ _ hone⟩

end CommonFoundry
