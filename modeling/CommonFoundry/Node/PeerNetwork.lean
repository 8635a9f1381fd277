/-
# `CommonFoundry.Node.PeerNetwork` — any number of nodes and sessions at once

Nodes that run, the sessions that nodes and thin miners open with them, and calls from outside,
in any order.  The states of the nodes change between any two sections of a session.

Where a connection delivers an answer or fails, no session ends with a complaint about its peer
(`network_sessions`), and what it reports was so at a moment of the session.  Where anything may
arrive in place of an answer, the nodes go on as before, and the report of a sync still says what
its own node did (`untrusted_sessions`).
-/
import CommonFoundry.Node.PeerClient

namespace CommonFoundry

open Lib Lib.Outcome

section

variable {ι : Type}

/-- Nodes that answer.  `lost` is what else may arrive in place of an answer. -/
def peerAnswering (P : Platform) (identity : ι → ProcessIdentity)
    (lost : Outcome ConnectionError PeerMessage → Bool) :
    Answering Node Surroundings PeerCall (Outcome ConnectionError PeerMessage) PeerMessage SessionError
      ι where
  handle i surroundings call := serveCall P (identity i) surroundings call
  deliver := .ok
  lost

/-- A connection that delivers an answer or fails in one of these ways. -/
def orFails (broken : ConnectionError → Bool) : Outcome ConnectionError PeerMessage → Bool
  | .error (.err error) => broken error
  | _ => false

/-- Every node runs. -/
def Running (P : Platform) (params : NetworkParams) (verifier : ConsensusPowVerifier)
    (states : ι → Node) : Prop :=
  ∀ i, ∃ accepted, NodeRun P params verifier accepted (states i)

section

variable {P : Platform} {params : NetworkParams} {verifier : ConsensusPowVerifier}
  {states states' : ι → Node}

theorem Running.after (h : Running P params verifier states)
    (hafter : AllAfter (NodeCall.perform P) states states') : Running P params verifier states' := by
  intro i
  obtain ⟨accepted, hrun⟩ := h i
  obtain ⟨more, hmore⟩ := hrun.after (hafter i)
  exact ⟨_, hmore⟩

/-- What a node of the network holds it keeps. -/
theorem Running.contains_after (h : Running P params verifier states)
    (hafter : AllAfter (NodeCall.perform P) states states') {i : ι} {id : Bytes32}
    (hid : (states i).index.contains id = true) : (states' i).index.contains id = true := by
  obtain ⟨accepted, hrun⟩ := h i
  exact hrun.contains_after (hafter i) hid

end

/-! ## Requests and their answers -/

section

variable [DecidableEq ι] {R : Type}

/-- What a session that the place `i` opens with the node `j` ensures. -/
abbrev SessionEnsures (P : Platform) (identity : ι → ProcessIdentity)
    (lost : Outcome ConnectionError PeerMessage → Bool) (i j : ι)
    (Post : Outcome SessionError R → (ι → Node) → Prop) (talk : PeerTalk R) (states : ι → Node) :
    Prop :=
  Ensures (NodeCall.perform P) (peerAnswering P identity lost) i j Post talk states

variable {P : Platform} {identity : ι → ProcessIdentity} {i j : ι} {states : ι → Node}
  {Post : Outcome SessionError R → (ι → Node) → Prop}

theorem exchange_ensures {lost : Outcome ConnectionError PeerMessage → Bool} {call : PeerCall}
    {rest : PeerMessage → PeerTalk R}
    (hok : ∀ states', AllAfter (NodeCall.perform P) states states' → ∀ message,
      lost (.ok message) = true → SessionEnsures P identity lost i j Post (rest message) states')
    (herror : ∀ states', AllAfter (NodeCall.perform P) states states' → ∀ fault,
      lost (.error fault) = true → Post (mapErr SessionError.peer (.error fault)) states')
    (hserved : ∀ states', AllAfter (NodeCall.perform P) states states' → ∀ surroundings,
      Served (NodeCall.perform P) j
        (fun message => SessionEnsures P identity lost i j Post (rest message))
        (serveCall P (identity j) surroundings call) states') :
    SessionEnsures P identity lost i j Post (exchange call >>= rest) states := by
  intro states' hafter
  refine ⟨fun answer hlost => ?_, hserved states' hafter⟩
  cases answer with
  | ok message => exact hok states' hafter message hlost
  | error fault =>
      have hpost := fun states'' hlater => herror states'' hlater fault hlost
      cases fault with
      | err error => exact fun states'' hlater => hpost states'' (hafter.trans hlater)
      | panic => exact fun states'' hlater => hpost states'' (hafter.trans hlater)

theorem sessionCheck_ensures {lost : Outcome ConnectionError PeerMessage → Bool} {p : Prop}
    [Decidable p] {error : SessionError} {rest : Unit → PeerTalk R}
    (hpass : p → SessionEnsures P identity lost i j Post (rest ()) states)
    (hfail : ¬p → ∀ states', AllAfter (NodeCall.perform P) states states' →
      Post (.error (.err error)) states') :
    SessionEnsures P identity lost i j Post (sessionCheck p error >>= rest) states := by
  by_cases hp : p
  · rw [sessionCheck, require_pos hp]
    exact hpass hp
  · rw [sessionCheck, require_neg hp]
    exact hfail hp

/-- A section that does not change the node that answers. -/
theorem served_consult {B C : Type} {Answered : C → (ι → Node) → Prop}
    {method : Node → Outcome SessionError B} {answer : B → C}
    (h : ∀ states', AllAfter (NodeCall.perform P) states states' → ∀ b,
      method (states' j) = .ok b → ∀ states'', AllAfter (NodeCall.perform P) states' states'' →
        Answered (answer b) states'') :
    Served (NodeCall.perform P) j Answered
      ((Dialogue.critical fun node => (method node, node)) >>= fun b =>
        (pure (answer b) : PeerHandler C)) states := by
  refine .critical fun states' hafter b hb => ?_
  dsimp only at hb ⊢
  rw [Function.update_eq_self]
  exact h states' hafter b hb

section

variable {broken : ConnectionError → Bool}

/-- A request over a connection that may fail. -/
theorem request_ensures {call : PeerCall} {rest : PeerMessage → PeerTalk R}
    (hbroken : ∀ states', AllAfter (NodeCall.perform P) states states' → ∀ error,
      broken error = true → Post (.error (.err (.peer error))) states')
    (hserved : ∀ states', AllAfter (NodeCall.perform P) states states' → ∀ surroundings,
      Served (NodeCall.perform P) j
        (fun message => SessionEnsures P identity (orFails broken) i j Post (rest message))
        (serveCall P (identity j) surroundings call) states') :
    SessionEnsures P identity (orFails broken) i j Post (exchange call >>= rest) states := by
  refine exchange_ensures (fun states' hafter message hlost => ?_)
    (fun states' hafter fault hlost => ?_) hserved
  · cases hlost
  · cases fault with
    | err error => exact hbroken states' hafter error hlost
    | panic => cases hlost

/-- The greetings: the peer's says what it was at a moment. -/
theorem connect_ensures {hello : PeerHello} {rest : PeerMessage → PeerTalk R}
    (hbroken : ∀ states', AllAfter (NodeCall.perform P) states states' → ∀ error,
      broken error = true → Post (.error (.err (.peer error))) states')
    (hrest : ∀ states', AllAfter (NodeCall.perform P) states states' →
      SessionEnsures P identity (orFails broken) i j Post
        (rest (.hello ((states' j).peerHello (identity j)))) states') :
    SessionEnsures P identity (orFails broken) i j Post (exchange (.connect hello) >>= rest)
      states := by
  refine request_ensures hbroken fun states' hafter surroundings => ?_
  exact .read fun asked hasked last hlast => (hrest asked (hafter.trans hasked)).after hlast

/-- The inventory of the peer at a moment. -/
theorem getHeaders_ensures {locator : List Bytes32} {stop : Bytes32}
    {rest : PeerMessage → PeerTalk R}
    (hbroken : ∀ states', AllAfter (NodeCall.perform P) states states' → ∀ error,
      broken error = true → Post (.error (.err (.peer error))) states')
    (hrest : ∀ states', AllAfter (NodeCall.perform P) states states' →
      SessionEnsures P identity (orFails broken) i j Post
        (rest (.inventory ((states' j).inventoryAfter locator stop maxBlocksPerSync))) states') :
    SessionEnsures P identity (orFails broken) i j Post
      (exchange (.send (.getHeaders locator stop)) >>= rest) states := by
  refine request_ensures hbroken fun states' hafter surroundings => ?_
  exact .read fun asked hasked last hlast => (hrest asked (hafter.trans hasked)).after hlast

/-- The mempool of the peer at a moment. -/
theorem getMempool_ensures {rest : PeerMessage → PeerTalk R}
    (hbroken : ∀ states', AllAfter (NodeCall.perform P) states states' → ∀ error,
      broken error = true → Post (.error (.err (.peer error))) states')
    (hrest : ∀ states', AllAfter (NodeCall.perform P) states states' →
      SessionEnsures P identity (orFails broken) i j Post
        (rest (.transactionInventory (states' j).transactionInventory)) states') :
    SessionEnsures P identity (orFails broken) i j Post (exchange (.send .getMempool) >>= rest)
      states := by
  refine request_ensures hbroken fun states' hafter surroundings => ?_
  exact .read fun asked hasked last hlast => (hrest asked (hafter.trans hasked)).after hlast

/-- A block that the peer served at a moment. -/
theorem getBlock_ensures {id : Bytes32} {rest : PeerMessage → PeerTalk R}
    (hbroken : ∀ states', AllAfter (NodeCall.perform P) states states' → ∀ error,
      broken error = true → Post (.error (.err (.peer error))) states')
    (hrest : ∀ states', AllAfter (NodeCall.perform P) states states' → ∀ block,
      (states' j).serveBlock P id = .ok block →
        SessionEnsures P identity (orFails broken) i j Post (rest (.block block)) states') :
    SessionEnsures P identity (orFails broken) i j Post (exchange (.send (.getBlock id)) >>= rest)
      states := by
  refine request_ensures hbroken fun states' hafter surroundings => ?_
  exact served_consult fun asked hasked block hblock last hlast =>
    (hrest asked (hafter.trans hasked) block (mapErr_eq_ok.mp hblock)).after hlast

/-- A transaction that the peer served at a moment. -/
theorem getTransaction_ensures {txid : Bytes32} {rest : PeerMessage → PeerTalk R}
    (hbroken : ∀ states', AllAfter (NodeCall.perform P) states states' → ∀ error,
      broken error = true → Post (.error (.err (.peer error))) states')
    (hrest : ∀ states', AllAfter (NodeCall.perform P) states states' → ∀ transaction,
      (states' j).serveTransaction P txid = .ok transaction →
        SessionEnsures P identity (orFails broken) i j Post (rest (.transaction transaction))
          states') :
    SessionEnsures P identity (orFails broken) i j Post
      (exchange (.send (.getTransaction txid)) >>= rest) states := by
  refine request_ensures hbroken fun states' hafter surroundings => ?_
  exact served_consult fun asked hasked transaction htransaction last hlast =>
    (hrest asked (hafter.trans hasked) transaction (mapErr_eq_ok.mp htransaction)).after hlast

/-- A template that the peer built at a moment. -/
theorem getMiningTemplate_ensures {payout : Bytes32} {rest : PeerMessage → PeerTalk R}
    (hbroken : ∀ states', AllAfter (NodeCall.perform P) states states' → ∀ error,
      broken error = true → Post (.error (.err (.peer error))) states')
    (hrest : ∀ states', AllAfter (NodeCall.perform P) states states' → ∀ now template,
      (states' j).buildTemplate P payout now = .ok template →
        SessionEnsures P identity (orFails broken) i j Post (rest (.miningTemplate {
          challenge := template.challenge
          coinbase := template.coinbase
          transactions := template.transactions })) states') :
    SessionEnsures P identity (orFails broken) i j Post
      (exchange (.send (.getMiningTemplate payout)) >>= rest) states := by
  refine request_ensures hbroken fun states' hafter surroundings => ?_
  exact served_consult fun asked hasked template htemplate last hlast =>
    (hrest asked (hafter.trans hasked) _ template (mapErr_eq_ok.mp htemplate)).after hlast

end

end

/-! ## Pages between two nodes that go on -/

section

variable {P : Platform} {params : NetworkParams} {verifier : ConsensusPowVerifier}

theorem NodeRun.contains_genesis {accepted : List Acceptance} {node : Node}
    (h : NodeRun P params verifier accepted node) :
    node.index.contains node.index.genesis = true :=
  h.consistent.follows.tree.contains_iff.mpr List.mem_cons_self

/-- A node knows the blocks of its own locator. -/
theorem NodeRun.contains_locator {accepted : List Acceptance} {node : Node}
    (h : NodeRun P params verifier accepted node) {max : Nat} {start : Bytes32}
    (hstart : start ∈ node.blockLocator max) : node.index.contains start = true := by
  rw [Node.blockLocator] at hstart
  split at hstart
  · cases hstart
  · split at hstart
    · rw [List.mem_singleton.mp hstart]
      exact h.contains_genesis
    · rcases List.mem_append.mp hstart with hstart | hstart
      · obtain ⟨position, -, hposition⟩ := List.mem_filterMap.mp hstart
        obtain ⟨branch, hbranch, -⟩ := h.branch_of_position hposition
        exact h.consistent.follows.tree.contains_iff.mpr hbranch.mem_acceptedIds
      · rw [List.mem_singleton.mp hstart]
        exact h.contains_genesis

/-- What is left of a page: blocks that the peer holds, the first behind the block before or, if
there was none, behind a block of the own node. -/
def Offered (P : Platform) (params : NetworkParams) (verifier : ConsensusPowVerifier)
    (own peer : Node) (previous : Option Bytes32) (ids : List Bytes32) : Prop :=
  ∃ accepted start, NodeRun P params verifier accepted peer ∧ Linked P accepted start ids ∧
    match previous with
    | some id => id = start
    | none => own.index.contains start = true

variable {own own' peer peer' : Node}

theorem Offered.first {previous : Option Bytes32} {id : Bytes32} {rest : List Bytes32}
    (h : Offered P params verifier own peer previous (id :: rest)) :
    ∃ block, peer.serveBlock P id = .ok block ∧ block.blockId P = id ∧
      parentIsOrdered own previous block = true := by
  obtain ⟨accepted, start, hpeer, ⟨⟨a, ha, rfl, rfl⟩, -⟩, hstart⟩ := h
  refine ⟨a.block, hpeer.serveBlock ha, rfl, ?_⟩
  cases previous with
  | none => exact hstart
  | some previous => exact decide_eq_true (Eq.symm hstart)

/-- A parent that is in order stays so. -/
theorem NodeRun.parentIsOrdered_after {accepted : List Acceptance} {previous : Option Bytes32}
    {block : Block} (h : NodeRun P params verifier accepted own)
    (hafter : After (NodeCall.perform P) own own')
    (hordered : parentIsOrdered own previous block = true) :
    parentIsOrdered own' previous block = true := by
  cases previous with
  | none => exact h.contains_after hafter hordered
  | some previous => exact hordered

theorem Offered.rest {previous : Option Bytes32} {id : Bytes32} {rest : List Bytes32}
    (h : Offered P params verifier own peer previous (id :: rest)) :
    Offered P params verifier own' peer (some id) rest := by
  obtain ⟨accepted, start, hpeer, ⟨-, hrest⟩, -⟩ := h
  exact ⟨accepted, id, hpeer, hrest, rfl⟩

theorem Offered.after {accepted : List Acceptance} {previous : Option Bytes32}
    {ids : List Bytes32} (h : Offered P params verifier own peer previous ids)
    (hown : NodeRun P params verifier accepted own)
    (howns : After (NodeCall.perform P) own own') (hpeers : After (NodeCall.perform P) peer peer') :
    Offered P params verifier own' peer' previous ids := by
  obtain ⟨_, start, hpeer, hlinked, hstart⟩ := h
  obtain ⟨more, hmore⟩ := hpeer.after hpeers
  refine ⟨_, start, hmore, hlinked.mono (List.subset_append_left _ _), ?_⟩
  cases previous with
  | none => exact hown.contains_after howns hstart
  | some previous => exact hstart

theorem NodeRun.length_inventoryAfter_le {accepted : List Acceptance} {node : Node}
    (h : NodeRun P params verifier accepted node) (locator : List Bytes32) (stop : Bytes32)
    (max : Nat) : (node.inventoryAfter locator stop max).length ≤ max := by
  rcases h.inventory_isPage locator stop max with hnil | ⟨start, -, hpage⟩
  · rw [hnil]
    exact Nat.zero_le max
  · exact hpage.bounded

/-- The page that a node lists behind a locator. -/
theorem NodeRun.offers {accepted accepted' : List Acceptance}
    (hown : NodeRun P params verifier accepted own)
    (hpeer : NodeRun P params verifier accepted' peer) (locator : List Bytes32)
    (hlocator : ∀ start ∈ locator, own.index.contains start = true) (stop : Bytes32) (max : Nat) :
    Offered P params verifier own peer none (peer.inventoryAfter locator stop max) := by
  rcases hpeer.inventory_isPage locator stop max with hnil | ⟨start, hstart, hpage⟩
  · rw [hnil]
    exact ⟨accepted', own.index.genesis, hpeer, trivial, hown.contains_genesis⟩
  · exact ⟨accepted', start, hpeer, hpage.linked, hlocator start hstart⟩

end

/-! ## The loops -/

section

variable [DecidableEq ι] {P : Platform} {params : NetworkParams} {verifier : ConsensusPowVerifier}
  {identity : ι → ProcessIdentity} {i j : ι} {broken : ConnectionError → Bool}

/-- An end that is no complaint about the peer: the connection failed, or the own node refused
what it got. -/
inductive Blameless (broken : ConnectionError → Bool) : Fault SessionError → Prop
  | peer {error : ConnectionError} : broken error = true → Blameless broken (.err (.peer error))
  | node {error : NodeError} : Blameless broken (.err (.node error))
  | panic : Blameless broken .panic

theorem Blameless.refused {result : Outcome NodeError UInt64} {fault : Fault SessionError}
    (h : mapErr SessionError.node result = .error fault) : Blameless broken fault := by
  cases result with
  | ok fees => cases h
  | error own =>
      cases own with
      | err error =>
          obtain rfl := Except.error.inj h
          exact .node
      | panic =>
          obtain rfl := Except.error.inj h
          exact .panic

/-- The report of a sync after some more blocks. -/
def SyncReport.addBlocks (report : SyncReport) (requested known : Nat) : SyncReport :=
  { report with
    requestedBlocks := report.requestedBlocks + requested
    acceptedBlocks := report.acceptedBlocks + requested
    alreadyKnown := report.alreadyKnown + known }

/-- After some more transactions. -/
def SyncReport.addTransactions (report : SyncReport) (admitted refused : Nat) : SyncReport :=
  { report with
    requestedTransactions := report.requestedTransactions + (admitted + refused)
    acceptedTransactions := report.acceptedTransactions + admitted
    rejectedTransactions := report.rejectedTransactions + refused }

/-- One block more that was known. -/
theorem SyncReport.addBlocks_known (report : SyncReport) (requested known : Nat) :
    report.addBlocks requested (known + 1) =
      SyncReport.addBlocks { report with alreadyKnown := report.alreadyKnown + 1 }
        requested known := by
  rw [SyncReport.addBlocks, ← Nat.add_assoc, Nat.add_right_comm]
  rfl

/-- One that was requested. -/
theorem SyncReport.addBlocks_requested (report : SyncReport) (requested known : Nat) :
    report.addBlocks (requested + 1) known =
      SyncReport.addBlocks { report with
        requestedBlocks := report.requestedBlocks + 1
        acceptedBlocks := report.acceptedBlocks + 1 } requested known := by
  rw [SyncReport.addBlocks, Nat.add_comm requested, ← Nat.add_assoc, ← Nat.add_assoc]
  rfl

theorem SyncReport.addTransactions_admitted (report : SyncReport) (admitted refused : Nat) :
    report.addTransactions (admitted + 1) refused =
      SyncReport.addTransactions { report with
        requestedTransactions := report.requestedTransactions + 1
        acceptedTransactions := report.acceptedTransactions + 1 } admitted refused := by
  rw [SyncReport.addTransactions, Nat.add_right_comm, Nat.add_comm _ 1,
    ← Nat.add_assoc report.requestedTransactions, Nat.add_comm admitted 1,
    ← Nat.add_assoc report.acceptedTransactions]
  rfl

theorem SyncReport.addTransactions_refused (report : SyncReport) (admitted refused : Nat) :
    report.addTransactions admitted (refused + 1) =
      SyncReport.addTransactions { report with
        requestedTransactions := report.requestedTransactions + 1
        rejectedTransactions := report.rejectedTransactions + 1 } admitted refused := by
  rw [SyncReport.addTransactions, ← Nat.add_assoc admitted, Nat.add_comm _ 1,
    ← Nat.add_assoc report.requestedTransactions, Nat.add_comm refused 1,
    ← Nat.add_assoc report.rejectedTransactions]
  rfl

theorem syncBlocks_ensures {surroundings : Bytes32 → Surroundings}
    {Post : Outcome SessionError SyncReport → (ι → Node) → Prop} {ids : List Bytes32} :
    ∀ {states : ι → Node} {previous : Option Bytes32} {report : SyncReport},
      Running P params verifier states →
      Offered P params verifier (states i) (states j) previous ids →
      (∀ states', AllAfter (NodeCall.perform P) states states' → ∀ fault,
        Blameless broken fault → Post (.error fault) states') →
      (∀ states', AllAfter (NodeCall.perform P) states states' → ∀ requested known,
        requested + known = ids.length →
          (∀ id ∈ ids, (states' i).index.contains id = true) →
            Post (.ok (report.addBlocks requested known)) states') →
      SessionEnsures P identity (orFails broken) i j Post
        (syncBlocks P surroundings previous ids report) states := by
  induction ids with
  | nil =>
      intro states previous report _ _ _ hdone states' hafter
      exact hdone states' hafter 0 0 rfl (List.forall_mem_nil _)
  | cons id rest ih =>
      intro states previous report hrunning hoffered hfails hdone
      have hlater {states' : ι → Node} (hafter : AllAfter (NodeCall.perform P) states states') :
          Offered P params verifier (states' i) (states' j) previous (id :: rest) := by
        obtain ⟨accepted, hown⟩ := hrunning i
        exact hoffered.after hown (hafter i) (hafter j)
      rw [syncBlocks]
      refine .read fun looked hlooked => ?_
      by_cases hknown : (looked i).index.contains id = true
      · rw [if_pos hknown]
        refine ih (hrunning.after hlooked) (hlater hlooked).rest
          (fun states' hafter => hfails states' (hlooked.trans hafter)) ?_
        intro states' hafter requested known hcount hheld
        have hpost := hdone states' (hlooked.trans hafter) requested (known + 1)
          (by rw [List.length_cons, ← hcount, Nat.add_assoc])
          (List.forall_mem_cons.mpr
            ⟨(hrunning.after hlooked).contains_after hafter hknown, hheld⟩)
        rw [report.addBlocks_known] at hpost
        exact hpost
      · rw [if_neg hknown]
        refine getBlock_ensures
          (fun states' hafter error herror =>
            hfails states' (hlooked.trans hafter) _ (.peer herror)) ?_
        intro served hserved block hblock
        have hsofar := hlooked.trans hserved
        obtain ⟨block', hblock', hid, hordered⟩ := (hlater hsofar).first
        obtain rfl := Except.ok.inj (hblock.symm.trans hblock')
        refine .lift (fun b hb => ?_) fun _ hfault => by cases hfault
        obtain rfl := Except.ok.inj hb
        refine sessionCheck_ensures (fun _ => ?_) fun hnot => absurd hid hnot
        refine .read fun checked hchecked => ?_
        obtain ⟨accepted, hown⟩ := hrunning.after hsofar i
        have hordered' := hown.parentIsOrdered_after (hchecked i) hordered
        refine sessionCheck_ensures (fun _ => ?_) fun hnot => absurd hordered' hnot
        have hsubmit (submitted : ι → Node) : AllAfter (NodeCall.perform P) submitted
            (Function.update submitted i ((submitted i).submitBlock P (surroundings id).append block
              (surroundings id).now).2) :=
          .update (.one (NodeCall.submitBlock (surroundings id).append block (surroundings id).now))
        refine .critical (fun submitted hsubmitted fees hok => ?_)
          (fun submitted hsubmitted fault herror states' hafter => ?_)
        · have hbefore := hsofar.trans (hchecked.trans hsubmitted)
          have hsofar' := hbefore.trans (hsubmit submitted)
          refine ih (hrunning.after hsofar') (hlater hsofar').rest
            (fun states' hafter => hfails states' (hsofar'.trans hafter)) ?_
          have hheld : (Function.update submitted i ((submitted i).submitBlock P
              (surroundings id).append block (surroundings id).now).2 i).index.contains id =
                true := by
            obtain ⟨accepted, hown⟩ := hrunning.after hbefore i
            rw [Function.update_self, contains_submitBlock hown (Prod.ext (mapErr_eq_ok.mp hok) rfl)]
            exact .inr hid.symm
          intro states' hafter requested known hcount hrest
          have hpost := hdone states' (hsofar'.trans hafter) (requested + 1) known
            (by rw [List.length_cons, ← hcount, Nat.add_right_comm])
            (List.forall_mem_cons.mpr
              ⟨(hrunning.after hsofar').contains_after hafter hheld, hrest⟩)
          rw [report.addBlocks_requested] at hpost
          exact hpost
        · exact hfails states' (hsofar.trans (hchecked.trans (hsubmitted.trans
            ((hsubmit submitted).trans hafter)))) fault (.refused herror)

theorem syncTransactions_ensures {Post : Outcome SessionError SyncReport → (ι → Node) → Prop}
    {requested : List Bytes32} :
    ∀ {states : ι → Node} {report : SyncReport},
      (∀ states', AllAfter (NodeCall.perform P) states states' → ∀ error,
        broken error = true → Post (.error (.err (.peer error))) states') →
      (∀ states', AllAfter (NodeCall.perform P) states states' → ∀ admitted refused,
        admitted + refused = requested.length →
          Post (.ok (report.addTransactions admitted refused)) states') →
      SessionEnsures P identity (orFails broken) i j Post (syncTransactions P requested report)
        states := by
  induction requested with
  | nil =>
      intro states report _ hdone states' hafter
      exact hdone states' hafter 0 0 rfl
  | cons txid rest ih =>
      intro states report hfails hdone
      rw [syncTransactions]
      refine getTransaction_ensures hfails fun served hserved transaction htransaction => ?_
      have htxid : transaction.txid P = txid := serveTransaction_txid htransaction
      refine .lift (fun found hfound => ?_) fun _ hfault => by cases hfault
      obtain rfl := Except.ok.inj hfound
      refine sessionCheck_ensures (fun _ => ?_) fun hnot => absurd htxid hnot
      refine .critical (fun submitted hsubmitted passed hpassed => ?_)
        fun _ _ _ hfault => by cases hfault
      have hsubmit : AllAfter (NodeCall.perform P) submitted (Function.update submitted i
          ((submitted i).submitTransaction P transaction).2) :=
        .update (.one (NodeCall.submitTransaction transaction))
      have hsofar := (hserved.trans hsubmitted).trans hsubmit
      split
      · refine ih (fun states' hafter => hfails states' (hsofar.trans hafter)) ?_
        intro states' hafter admitted refused hcount
        have hpost := hdone states' (hsofar.trans hafter) (admitted + 1) refused
          (by rw [List.length_cons, ← hcount, Nat.add_right_comm])
        rw [report.addTransactions_admitted] at hpost
        exact hpost
      · refine ih (fun states' hafter => hfails states' (hsofar.trans hafter)) ?_
        intro states' hafter admitted refused hcount
        have hpost := hdone states' (hsofar.trans hafter) admitted (refused + 1)
          (by rw [List.length_cons, ← hcount, Nat.add_assoc])
        rw [report.addTransactions_refused] at hpost
        exact hpost

/-- A block that is not rejected is one that the node holds. -/
theorem contains_receiveBlock {accepted : List Acceptance} {node : Node}
    (h : NodeRun P params verifier accepted node) {surroundings : Surroundings} {block : Block}
    {status : BlockSubmissionStatus}
    (hstatus : (node.receiveBlock P surroundings block).1 = .ok status) (hnot : status ≠ .rejected) :
    (node.receiveBlock P surroundings block).2.index.contains (block.blockId P) = true := by
  rw [Node.receiveBlock] at hstatus ⊢
  split at hstatus
  · next hknown =>
      rw [if_pos hknown]
      exact hknown
  · next hnew =>
      rw [if_neg hnew]
      split at hstatus
      · next fees after hsubmit =>
          exact (contains_submitBlock h hsubmit _).mpr (.inr rfl)
      · exact absurd (Except.ok.inj hstatus).symm hnot
      · cases hstatus

/-- A submission: unless it is rejected, the peer holds the block. -/
theorem submitBlock_ensures {R : Type} {Post : Outcome SessionError R → (ι → Node) → Prop}
    {states : ι → Node} {block : Block} {rest : PeerMessage → PeerTalk R}
    (hrunning : Running P params verifier states)
    (hbroken : ∀ states', AllAfter (NodeCall.perform P) states states' → ∀ error,
      broken error = true → Post (.error (.err (.peer error))) states')
    (hrest : ∀ states', AllAfter (NodeCall.perform P) states states' → ∀ status,
      (status ≠ .rejected → (states' j).index.contains (block.blockId P) = true) →
        SessionEnsures P identity (orFails broken) i j Post
          (rest (.blockSubmissionResult {
            blockId := block.blockId P
            status
            peerHeight := ((states' j).peerHello (identity j)).height
            peerTip := (states' j).state.tip })) states') :
    SessionEnsures P identity (orFails broken) i j Post (exchange (.send (.submitBlock block)) >>= rest)
      states := by
  refine request_ensures hbroken fun asked hasked surroundings => ?_
  refine .critical fun received hreceived status hstatus => ?_
  refine .read fun told htold last hlast => ?_
  have hreceive : AllAfter (NodeCall.perform P) received
      (Function.update received j ((received j).receiveBlock P surroundings block).2) :=
    .update (receiveBlock_after _ _)
  have hbefore := hasked.trans hreceived
  have htold' := (hbefore.trans hreceive).trans htold
  refine (hrest told htold' status fun hnot => ?_).after hlast
  refine (hrunning.after (hbefore.trans hreceive)).contains_after htold ?_
  obtain ⟨accepted, hpeer⟩ := hrunning.after hbefore j
  rw [Function.update_self]
  exact contains_receiveBlock hpeer hstatus hnot

/-- The report of a relay after some more blocks, with the peer as it was then. -/
def RelayReport.addBlocks (report : RelayReport) (taken known : Nat) (peer : PeerHello) :
    RelayReport :=
  { report with
    acceptedBlocks := report.acceptedBlocks + taken
    alreadyKnown := report.alreadyKnown + known
    peerHeight := peer.height
    peerTip := peer.tip }

/-- `start` is the greeting, and `told` the last moment that the peer told of. -/
theorem relayBlocks_ensures {Post : Outcome SessionError RelayReport → (ι → Node) → Prop}
    {start : ι → Node} {ids : List Bytes32} :
    ∀ {states told : ι → Node} {report : RelayReport} {accepted : List Acceptance}
      {behind : Bytes32},
      Running P params verifier states →
      NodeRun P params verifier accepted (states i) → Linked P accepted behind ids →
      AllAfter (NodeCall.perform P) start told → AllAfter (NodeCall.perform P) told states →
      report = report.addBlocks 0 0 ((told j).peerHello (identity j)) →
      (∀ states', AllAfter (NodeCall.perform P) states states' → ∀ error,
        broken error = true → Post (.error (.err (.peer error))) states') →
      (∀ states', AllAfter (NodeCall.perform P) states states' → ∀ id ∈ ids,
        Post (.error (.err (.rejectedBlockSubmission id))) states') →
      (∀ told states', AllAfter (NodeCall.perform P) start told →
        AllAfter (NodeCall.perform P) told states' → AllAfter (NodeCall.perform P) states states' →
          ∀ taken known, taken + known = ids.length →
            (∀ id ∈ ids, (states' j).index.contains id = true) →
              Post (.ok (report.addBlocks taken known ((told j).peerHello (identity j)))) states') →
      SessionEnsures P identity (orFails broken) i j Post (relayBlocks P ids report) states := by
  induction ids with
  | nil =>
      intro states told report accepted behind _ _ _ htold hstates hreport _ _ hdone states' hafter
      rw [hreport]
      exact hdone told states' htold (hstates.trans hafter) hafter 0 0 rfl (List.forall_mem_nil _)
  | cons id rest ih =>
      intro states told report accepted behind hrunning hown hlinked htold hstates hreport hfails
        hrejected hdone
      obtain ⟨⟨a, ha, rfl, rfl⟩, hrest⟩ := hlinked
      rw [relayBlocks]
      refine .critical (fun served hserved block hblock => ?_)
        (fun served hserved fault hfault => ?_)
      · obtain ⟨more, hmore⟩ := hown.after (hserved i)
        have hserve := hmore.serveBlock (List.mem_append_left _ ha)
        obtain rfl := Except.ok.inj (hserve.symm.trans (mapErr_eq_ok.mp hblock))
        rw [Function.update_eq_self]
        refine submitBlock_ensures (hrunning.after hserved)
          (fun states' hafter => hfails states' (hserved.trans hafter)) ?_
        intro answered hanswered status hstatus
        have hsofar := hserved.trans hanswered
        obtain ⟨more', hmore'⟩ := hown.after (hsofar i)
        refine .lift (fun result hresult => ?_) nofun
        obtain rfl := Except.ok.inj hresult
        refine sessionCheck_ensures (fun _ => ?_) fun hnot => absurd rfl hnot
        cases status with
        | accepted =>
            refine ih (hrunning.after hsofar) hmore' (hrest.mono (List.subset_append_left _ _))
              (htold.trans (hstates.trans hsofar)) .refl rfl
              (fun states' hafter => hfails states' (hsofar.trans hafter))
              (fun states' hafter id hid =>
                hrejected states' (hsofar.trans hafter) id (List.mem_cons_of_mem _ hid)) ?_
            intro told states' htold hlast hafter taken known hcount hheld
            have hpost := hdone told states' htold hlast (hsofar.trans hafter) (taken + 1) known
              (by rw [List.length_cons, ← hcount, Nat.add_right_comm])
              (List.forall_mem_cons.mpr
                ⟨(hrunning.after hsofar).contains_after hafter (hstatus nofun), hheld⟩)
            rw [RelayReport.addBlocks, Nat.add_comm taken, ← Nat.add_assoc] at hpost
            exact hpost
        | alreadyKnown =>
            refine ih (hrunning.after hsofar) hmore' (hrest.mono (List.subset_append_left _ _))
              (htold.trans (hstates.trans hsofar)) .refl rfl
              (fun states' hafter => hfails states' (hsofar.trans hafter))
              (fun states' hafter id hid =>
                hrejected states' (hsofar.trans hafter) id (List.mem_cons_of_mem _ hid)) ?_
            intro told states' htold hlast hafter taken known hcount hheld
            have hpost := hdone told states' htold hlast (hsofar.trans hafter) taken (known + 1)
              (by rw [List.length_cons, ← hcount, Nat.add_assoc])
              (List.forall_mem_cons.mpr
                ⟨(hrunning.after hsofar).contains_after hafter (hstatus nofun), hheld⟩)
            rw [RelayReport.addBlocks, Nat.add_comm known, ← Nat.add_assoc] at hpost
            exact hpost
        | rejected =>
            exact fun states' hafter =>
              hrejected states' (hsofar.trans hafter) _ List.mem_cons_self
      · obtain ⟨more, hmore⟩ := hown.after (hserved i)
        have hserve := hmore.serveBlock (List.mem_append_left _ ha)
        dsimp only at hfault
        rw [show (served i).serveBlock P (a.id P) = .ok a.block from hserve] at hfault
        cases hfault

/-! ## The sessions -/

/-- States in the order in which they were passed. -/
def InOrder (P : Platform) (moments : List (ι → Node)) : Prop :=
  moments.IsChain (AllAfter (NodeCall.perform P))

/-- What a sync reports: the blocks and transactions that the peer `j` listed at a moment, for the
locator of the own node `i` at another, and what became of them. -/
structure SyncReport.Exact (report : SyncReport) (identity : ProcessIdentity) (i j : ι)
    (asked greeted listed offered compared finish : ι → Node) : Prop where
  remoteHello : report.remoteHello = (greeted j).peerHello identity
  inventoryItems : report.inventoryItems = ((listed j).inventoryAfter
    ((asked i).blockLocator maxBlocksPerSync) (greeted j).state.tip maxBlocksPerSync).length
  blocks : report.requestedBlocks + report.alreadyKnown = report.inventoryItems ∧
    report.acceptedBlocks = report.requestedBlocks
  held : ∀ id ∈ (listed j).inventoryAfter ((asked i).blockLocator maxBlocksPerSync)
    (greeted j).state.tip maxBlocksPerSync, (finish i).index.contains id = true
  transactionInventoryItems :
    report.transactionInventoryItems = (offered j).transactionInventory.length
  alreadyKnownTransactions : report.alreadyKnownTransactions =
    (offered j).transactionInventory.countP (· ∈ (compared i).transactionInventory)
  requestedTransactions : report.requestedTransactions =
    min maxTransactionsPerSync ((compared i).missingTransactions (offered j)).length
  transactions :
    report.acceptedTransactions + report.rejectedTransactions = report.requestedTransactions

/-- How a sync of the node `i` with the node `j` ends. -/
def SyncEnds (P : Platform) (identity : ι → ProcessIdentity) (broken : ConnectionError → Bool) (i j : ι)
    (start : ι → Node) : Outcome SessionError SyncReport → (ι → Node) → Prop
  | .error fault, _ => Blameless broken fault
  | .ok report, finish => ∃ asked greeted listed offered compared,
      InOrder P [start, asked, greeted, listed, offered, compared, finish] ∧
        report.Exact (identity j) i j asked greeted listed offered compared finish

theorem syncFromPeer_ensures {surroundings : Bytes32 → Surroundings} {states : ι → Node}
    (hrunning : Running P params verifier states) :
    SessionEnsures P identity (orFails broken) i j (SyncEnds P identity broken i j states)
      (syncFromPeer P surroundings (identity i)) states := by
  refine .read fun asked hasked => ?_
  dsimp only
  refine connect_ensures (fun _ _ error herror => .peer herror) fun greeted hgreeted => ?_
  refine .lift (fun hello hhello => ?_) nofun
  obtain rfl := Except.ok.inj hhello
  refine getHeaders_ensures (fun _ _ error herror => .peer herror) fun listed hlisted => ?_
  refine .lift (fun page hpage => ?_) nofun
  obtain rfl := Except.ok.inj hpage
  have hsofar := (hasked.trans hgreeted).trans hlisted
  obtain ⟨accepted, hasker⟩ := hrunning.after hasked i
  obtain ⟨accepted', hown⟩ := hrunning.after hsofar i
  obtain ⟨accepted'', hpeer⟩ := hrunning.after hsofar j
  have hoffered := hown.offers hpeer ((asked i).blockLocator maxBlocksPerSync)
    (fun start hstart =>
      hasker.contains_after ((hgreeted.trans hlisted) i) (hasker.contains_locator hstart))
    (greeted j).state.tip maxBlocksPerSync
  have hbounded := hpeer.length_inventoryAfter_le ((asked i).blockLocator maxBlocksPerSync)
    (greeted j).state.tip maxBlocksPerSync
  refine sessionCheck_ensures (fun _ => ?_) fun hnot => absurd (Nat.not_lt.mpr hbounded) hnot
  refine .bind (syncBlocks_ensures (hrunning.after hsofar) hoffered (fun _ _ _ hfault => hfault) ?_)
  intro pulled hpulled requested known hcount hheld
  refine getMempool_ensures (fun _ _ error herror => .peer herror) fun offered hoffers => ?_
  refine .lift (fun txids htxids => ?_) nofun
  obtain rfl := Except.ok.inj htxids
  refine .read fun compared hcompared => ?_
  simp only [List.contains_eq_mem, ← decide_not]
  refine syncTransactions_ensures (fun _ _ error herror => .peer herror) ?_
  intro finish hfinish admitted refused hadmission
  rw [List.length_take] at hadmission
  refine ⟨asked, greeted, listed, offered, compared, ?_, ?_⟩
  · exact .cons_cons hasked (.cons_cons hgreeted (.cons_cons hlisted
      (.cons_cons (hpulled.trans hoffers) (.cons_cons hcompared (.cons_cons hfinish
        (.singleton _))))))
  · have hlast := ((hoffers.trans hcompared).trans hfinish)
    refine ⟨rfl, rfl, ⟨?_, rfl⟩, fun id hid => ?_, rfl, rfl, (Nat.zero_add _).trans hadmission, ?_⟩
    · show 0 + requested + (0 + known) = _
      rw [Nat.zero_add, Nat.zero_add]
      exact hcount
    · exact (hrunning.after (hsofar.trans hpulled)).contains_after hlast (hheld id hid)
    · show 0 + admitted + (0 + refused) = 0 + (admitted + refused)
      rw [Nat.zero_add, Nat.zero_add, Nat.zero_add]

/-- What a relay reports: the blocks that it offered, all of which the peer holds, and what the
peer told of itself last. -/
structure RelayReport.Exact (report : RelayReport) (identity : ProcessIdentity) (i j : ι)
    (greeted offered told finish : ι → Node) : Prop where
  remoteHello : report.remoteHello = (greeted j).peerHello identity
  offeredBlocks : report.offeredBlocks =
    ((offered i).relayInventoryAfter (greeted j).state.tip maxBlocksPerSync).length
  blocks : report.acceptedBlocks + report.alreadyKnown = report.offeredBlocks
  held : ∀ id ∈ (offered i).relayInventoryAfter (greeted j).state.tip maxBlocksPerSync,
    (finish j).index.contains id = true
  peer : report.peerHeight = ((told j).peerHello identity).height ∧
    report.peerTip = (told j).state.tip

/-- How a relay of the node `i` to the node `j` ends. -/
def RelayEnds (P : Platform) (identity : ι → ProcessIdentity) (broken : ConnectionError → Bool) (i j : ι)
    (start : ι → Node) : Outcome SessionError RelayReport → (ι → Node) → Prop
  | .error fault, _ => (∃ error, broken error = true ∧ fault = .err (.peer error)) ∨
      ∃ id, fault = .err (.rejectedBlockSubmission id)
  | .ok report, finish => ∃ greeted offered told,
      InOrder P [start, greeted, offered, finish] ∧ InOrder P [greeted, told, finish] ∧
        report.Exact (identity j) i j greeted offered told finish

theorem relayBlocksToPeer_ensures {states : ι → Node} (hrunning : Running P params verifier states) :
    SessionEnsures P identity (orFails broken) i j (RelayEnds P identity broken i j states)
      (relayBlocksToPeer P (identity i)) states := by
  refine .read fun asked hasked => ?_
  refine connect_ensures (fun _ _ error herror => .inl ⟨error, herror, rfl⟩)
    fun greeted hgreeted => ?_
  refine .lift (fun hello hhello => ?_) nofun
  obtain rfl := Except.ok.inj hhello
  refine .read fun offered hoffered => ?_
  have hsofar := hasked.trans hgreeted
  obtain ⟨accepted, hown⟩ := hrunning.after (hsofar.trans hoffered) i
  obtain ⟨behind, hpage⟩ := hown.relay_isPage (greeted j).state.tip maxBlocksPerSync
  refine relayBlocks_ensures (hrunning.after (hsofar.trans hoffered)) hown hpage.linked
    AllAfter.refl hoffered rfl (fun _ _ error herror => .inl ⟨error, herror, rfl⟩)
    (fun _ _ id _ => .inr ⟨id, rfl⟩) ?_
  intro told finish htold hlast hfinish taken known hcount hheld
  refine ⟨greeted, offered, told, ?_, ?_, rfl, rfl, ?_, hheld, rfl, rfl⟩
  · exact .cons_cons hsofar (.cons_cons hoffered (.cons_cons hfinish (.singleton _)))
  · exact .cons_cons htold (.cons_cons hlast (.singleton _))
  · show 0 + taken + (0 + known) = _
    rw [Nat.zero_add, Nat.zero_add]
    exact hcount

/-- How a request for a template to the node `j` ends. -/
def TemplateEnds (P : Platform) (identity : ι → ProcessIdentity) (broken : ConnectionError → Bool) (j : ι)
    (payout : Bytes32) (start : ι → Node) :
    Outcome SessionError MiningTemplateResponse → (ι → Node) → Prop
  | .error fault, _ => (∃ error, broken error = true ∧ fault = .err (.peer error)) ∨
      fault = .err .unexpectedMiningTemplate
  | .ok response, finish => ∃ greeted built now template,
      InOrder P [start, greeted, built, finish] ∧
        response.remoteHello = (greeted j).peerHello (identity j) ∧
          (built j).buildTemplate P payout now = .ok template ∧
            response.template.challenge = template.challenge ∧
              response.template.coinbase = template.coinbase ∧
                response.template.transactions = template.transactions ∧
                  template.challenge.previousBlock = (greeted j).state.tip

/-- A node pays the miner that asks. -/
theorem buildTemplate_pays {node : Node} {payout : Bytes32} {now : UInt64} {template : BlockTemplate}
    (h : node.buildTemplate P payout now = .ok template) :
    MiningTemplate.pays {
      challenge := template.challenge
      coinbase := template.coinbase
      transactions := template.transactions } payout = true := by
  simp only [Node.buildTemplate, bind_eq_ok, okOr_eq_ok, mapErr_eq_ok, pure_eq_ok] at h
  obtain ⟨_, _, _, _, _, _, _, _, _, _, _, _, _, _, _, _, rfl⟩ := h
  exact decide_eq_true rfl

theorem requestMiningTemplate_ensures {hello : PeerHello} {payout : Bytes32} {states : ι → Node} :
    SessionEnsures P identity (orFails broken) i j (TemplateEnds P identity broken j payout states)
      (requestMiningTemplate hello payout) states := by
  refine connect_ensures (fun _ _ error herror => .inl ⟨error, herror, rfl⟩)
    fun greeted hgreeted => ?_
  refine .lift (fun hello hhello => ?_) nofun
  obtain rfl := Except.ok.inj hhello
  refine getMiningTemplate_ensures (fun _ _ error herror => .inl ⟨error, herror, rfl⟩)
    fun built hbuilt now template htemplate => ?_
  refine .lift (fun sent hsent => ?_) nofun
  obtain rfl := Except.ok.inj hsent
  refine sessionCheck_ensures (fun hfits => ?_) fun _ _ _ => .inr rfl
  refine sessionCheck_ensures (fun _ finish hfinish => ?_) fun hnot =>
    absurd (buildTemplate_pays htemplate) hnot
  refine ⟨greeted, built, now, template, ?_, rfl, htemplate, rfl, rfl, rfl, ?_⟩
  · exact .cons_cons hgreeted (.cons_cons hbuilt (.cons_cons hfinish (.singleton _)))
  · exact Classical.not_not.mp fun hnot => hfits (.inl hnot)

/-- How the submission of a mined block to the node `j` ends. -/
def SubmissionEnds (P : Platform) (identity : ι → ProcessIdentity) (broken : ConnectionError → Bool)
    (j : ι) (block : Block) (start : ι → Node) :
    Outcome SessionError BlockSubmissionResult → (ι → Node) → Prop
  | .error fault, _ => ∃ error, broken error = true ∧ fault = .err (.peer error)
  | .ok result, finish => ∃ told, InOrder P [start, told, finish] ∧
      result.blockId = block.blockId P ∧
        (result.status ≠ .rejected → (finish j).index.contains (block.blockId P) = true) ∧
          result.peerHeight = ((told j).peerHello (identity j)).height ∧
            result.peerTip = (told j).state.tip

theorem submitMinedBlock_ensures {hello : PeerHello} {block : Block} {states : ι → Node}
    (hrunning : Running P params verifier states) :
    SessionEnsures P identity (orFails broken) i j (SubmissionEnds P identity broken j block states)
      (submitMinedBlock P hello block) states := by
  refine connect_ensures (fun _ _ error herror => ⟨error, herror, rfl⟩) fun greeted hgreeted => ?_
  refine .lift (fun hello hhello => ?_) nofun
  refine submitBlock_ensures (hrunning.after hgreeted)
    (fun _ _ error herror => ⟨error, herror, rfl⟩) ?_
  intro told htold status hheld
  refine .lift (fun result hresult => ?_) nofun
  obtain rfl := Except.ok.inj hresult
  refine sessionCheck_ensures (fun _ finish hfinish => ?_) fun hnot => absurd rfl hnot
  refine ⟨told, ?_, rfl, fun hstatus => ?_, rfl, rfl⟩
  · exact .cons_cons (hgreeted.trans htold) (.cons_cons hfinish (.singleton _))
  · exact (hrunning.after (hgreeted.trans htold)).contains_after hfinish (hheld hstatus)

/-! ## Whatever arrives -/

/-- A connection on which anything may arrive. -/
def anything : Outcome ConnectionError PeerMessage → Bool := fun _ => true

/-- The node accepted so many blocks, at least, from one moment to another. -/
def Gained (P : Platform) (params : NetworkParams) (verifier : ConsensusPowVerifier) (count : Nat)
    (start finish : Node) : Prop :=
  ∀ accepted, NodeRun P params verifier accepted start →
    ∃ more, count ≤ more.length ∧ NodeRun P params verifier (accepted ++ more) finish

section

variable {node node' node'' : Node} {count count' : Nat}

theorem Gained.after (h : Gained P params verifier count node node')
    (hafter : After (NodeCall.perform P) node' node'') :
    Gained P params verifier count node node'' := by
  intro accepted hrun
  obtain ⟨more, hcount, hmore⟩ := h accepted hrun
  obtain ⟨last, hlast⟩ := hmore.after hafter
  refine ⟨more ++ last, ?_, List.append_assoc accepted more last ▸ hlast⟩
  rw [List.length_append]
  exact hcount.trans (Nat.le_add_right _ _)

theorem Gained.none : Gained P params verifier 0 node node :=
  fun accepted hrun => ⟨[], Nat.le_refl 0, (List.append_nil accepted).symm ▸ hrun⟩

theorem Gained.submit (h : Gained P params verifier count node node') {append : AppendOutcome}
    {block : Block} {acceptedAt fees : UInt64}
    (hsubmit : node'.submitBlock P append block acceptedAt = (.ok fees, node'')) :
    Gained P params verifier (count + 1) node node'' := by
  intro accepted hrun
  obtain ⟨more, hcount, hmore⟩ := h accepted hrun
  refine ⟨more ++ [⟨block, acceptedAt⟩], ?_, ?_⟩
  · rw [List.length_append, List.length_singleton]
    exact Nat.succ_le_succ hcount
  · exact List.append_assoc accepted more _ ▸ hmore.accepted hsubmit

end

section

variable {R : Type} {Post : Outcome SessionError R → (ι → Node) → Prop} {states : ι → Node}

theorem untrusted_exchange {call : PeerCall} {rest : PeerMessage → PeerTalk R}
    (herror : ∀ fault states', Post (.error fault) states')
    (hrest : ∀ states', AllAfter (NodeCall.perform P) states states' → ∀ message,
      SessionEnsures P identity anything i j Post (rest message) states') :
    SessionEnsures P identity anything i j Post (exchange call >>= rest) states := by
  refine exchange_ensures (fun states' hafter message _ => hrest states' hafter message)
    (fun states' _ fault _ => ?_) (fun states' hafter surroundings => ?_)
  · cases fault with
    | err error => exact herror _ states'
    | panic => exact herror _ states'
  · exact .of_forall (serveCall_moves call) fun states'' hlater message =>
      hrest states'' (hafter.trans hlater) message

end

theorem untrusted_syncBlocks {surroundings : Bytes32 → Surroundings}
    {Post : Outcome SessionError SyncReport → (ι → Node) → Prop} {start : Node}
    (herror : ∀ fault states', Post (.error fault) states') {ids : List Bytes32} :
    ∀ {states : ι → Node} {previous : Option Bytes32} {report : SyncReport} {count : Nat},
      Gained P params verifier count start (states i) →
      (∀ states' requested known, requested + known = ids.length →
        Gained P params verifier (count + requested) start (states' i) →
          Post (.ok (report.addBlocks requested known)) states') →
      SessionEnsures P identity anything i j Post (syncBlocks P surroundings previous ids report)
        states := by
  induction ids with
  | nil =>
      intro states previous report count hgained hdone states' hafter
      exact hdone states' 0 0 rfl (hgained.after (hafter i))
  | cons id rest ih =>
      intro states previous report count hgained hdone
      rw [syncBlocks]
      refine .read fun looked hlooked => ?_
      split
      · refine ih (hgained.after (hlooked i)) fun states' requested known hcount hmore => ?_
        have hpost := hdone states' requested (known + 1)
          (by rw [List.length_cons, ← hcount, Nat.add_assoc]) hmore
        rw [report.addBlocks_known] at hpost
        exact hpost
      · refine untrusted_exchange herror fun served hserved message => ?_
        refine .lift (fun block _ => ?_) fun fault _ states' _ => herror fault states'
        refine sessionCheck_ensures (fun _ => ?_) fun _ states' _ => herror _ states'
        refine .read fun checked hchecked => ?_
        refine sessionCheck_ensures (fun _ => ?_) fun _ states' _ => herror _ states'
        refine .critical (fun submitted hsubmitted fees hok => ?_)
          (fun _ _ fault _ states' _ => herror fault states')
        have hbefore := hgained.after ((hlooked.trans (hserved.trans
          (hchecked.trans hsubmitted))) i)
        have hnext : Gained P params verifier (count + 1) start (Function.update submitted i
            ((submitted i).submitBlock P (surroundings id).append block (surroundings id).now).2
              i) := by
          rw [Function.update_self]
          exact hbefore.submit (Prod.ext (mapErr_eq_ok.mp hok) rfl)
        refine ih hnext fun states' requested known hcount hmore => ?_
        have hpost := hdone states' (requested + 1) known
          (by rw [List.length_cons, ← hcount, Nat.add_right_comm])
          (by rwa [Nat.add_comm requested, ← Nat.add_assoc])
        rw [report.addBlocks_requested] at hpost
        exact hpost

theorem untrusted_syncTransactions {Post : Outcome SessionError SyncReport → (ι → Node) → Prop}
    {start : Node} {count : Nat} (herror : ∀ fault states', Post (.error fault) states')
    {requested : List Bytes32} :
    ∀ {states : ι → Node} {report : SyncReport},
      Gained P params verifier count start (states i) →
      (∀ states' admitted refused, admitted + refused = requested.length →
        Gained P params verifier count start (states' i) →
          Post (.ok (report.addTransactions admitted refused)) states') →
      SessionEnsures P identity anything i j Post (syncTransactions P requested report) states := by
  induction requested with
  | nil =>
      intro states report hgained hdone states' hafter
      exact hdone states' 0 0 rfl (hgained.after (hafter i))
  | cons txid rest ih =>
      intro states report hgained hdone
      rw [syncTransactions]
      refine untrusted_exchange herror fun served hserved message => ?_
      refine .lift (fun transaction _ => ?_) fun fault _ states' _ => herror fault states'
      refine sessionCheck_ensures (fun _ => ?_) fun _ states' _ => herror _ states'
      refine .critical (fun submitted hsubmitted passed hpassed => ?_)
        fun _ _ _ hfault => by cases hfault
      have hsubmit : AllAfter (NodeCall.perform P) submitted (Function.update submitted i
          ((submitted i).submitTransaction P transaction).2) :=
        .update (.one (NodeCall.submitTransaction transaction))
      have hnext := hgained.after (((hserved.trans hsubmitted).trans hsubmit) i)
      split
      · refine ih hnext fun states' admitted refused hcount hmore => ?_
        have hpost := hdone states' (admitted + 1) refused
          (by rw [List.length_cons, ← hcount, Nat.add_right_comm]) hmore
        rw [report.addTransactions_admitted] at hpost
        exact hpost
      · refine ih hnext fun states' admitted refused hcount hmore => ?_
        have hpost := hdone states' admitted (refused + 1)
          (by rw [List.length_cons, ← hcount, Nat.add_assoc]) hmore
        rw [report.addTransactions_refused] at hpost
        exact hpost

/-! ## Any session -/

/-- A session that a node or a thin miner opens. -/
inductive ClientCall where
  | sync (surroundings : Bytes32 → Surroundings)
  | relay
  | template (hello : PeerHello) (payout : Bytes32)
  | submission (hello : PeerHello) (block : Block)

inductive ClientReport where
  | synced (report : SyncReport)
  | relayed (report : RelayReport)
  | template (response : MiningTemplateResponse)
  | submitted (result : BlockSubmissionResult)

def ClientCall.talk (P : Platform) (identity : ProcessIdentity) : ClientCall → PeerTalk ClientReport
  | .sync surroundings => do
      let report ← syncFromPeer P surroundings identity
      pure (.synced report)
  | .relay => do
      let report ← relayBlocksToPeer P identity
      pure (.relayed report)
  | .template hello payout => do
      let response ← requestMiningTemplate hello payout
      pure (.template response)
  | .submission hello block => do
      let result ← submitMinedBlock P hello block
      pure (.submitted result)

/-- How a session ends over connections that deliver an answer or fail. -/
def ClientCall.Ends (P : Platform) (identity : ι → ProcessIdentity) (broken : ConnectionError → Bool)
    (i j : ι) (start : ι → Node) :
    ClientCall → Outcome SessionError ClientReport → (ι → Node) → Prop
  | .sync _, .ok (.synced report), finish =>
      SyncEnds P identity broken i j start (.ok report) finish
  | .sync _, .error fault, finish => SyncEnds P identity broken i j start (.error fault) finish
  | .relay, .ok (.relayed report), finish =>
      RelayEnds P identity broken i j start (.ok report) finish
  | .relay, .error fault, finish => RelayEnds P identity broken i j start (.error fault) finish
  | .template _ payout, .ok (.template response), finish =>
      TemplateEnds P identity broken j payout start (.ok response) finish
  | .template _ payout, .error fault, finish =>
      TemplateEnds P identity broken j payout start (.error fault) finish
  | .submission _ block, .ok (.submitted result), finish =>
      SubmissionEnds P identity broken j block start (.ok result) finish
  | .submission _ block, .error fault, finish =>
      SubmissionEnds P identity broken j block start (.error fault) finish
  | _, _, _ => False

theorem ClientCall.ensures {states : ι → Node} (hrunning : Running P params verifier states)
    (call : ClientCall) :
    SessionEnsures P identity (orFails broken) i j (call.Ends P identity broken i j states)
      (call.talk P (identity i)) states := by
  cases call with
  | sync surroundings =>
      refine .map ((syncFromPeer_ensures hrunning).mono fun result finish hends => ?_)
      cases result <;> exact hends
  | relay =>
      refine .map ((relayBlocksToPeer_ensures hrunning).mono fun result finish hends => ?_)
      cases result <;> exact hends
  | template hello payout =>
      refine .map (requestMiningTemplate_ensures.mono fun result finish hends => ?_)
      cases result <;> exact hends
  | submission hello block =>
      refine .map ((submitMinedBlock_ensures hrunning).mono fun result finish hends => ?_)
      cases result <;> exact hends

/-! ### Whatever arrives -/

/-- What a sync reports about its own node, whatever the peer answered. -/
structure SyncReport.Accounts (P : Platform) (params : NetworkParams)
    (verifier : ConsensusPowVerifier) (report : SyncReport) (start finish : Node) : Prop where
  blocks : report.requestedBlocks + report.alreadyKnown = report.inventoryItems ∧
    report.inventoryItems ≤ maxBlocksPerSync ∧ report.acceptedBlocks = report.requestedBlocks
  gained : Gained P params verifier report.acceptedBlocks start finish
  transactions :
    report.acceptedTransactions + report.rejectedTransactions = report.requestedTransactions ∧
      report.requestedTransactions ≤ maxTransactionsPerSync ∧
        report.requestedTransactions + report.alreadyKnownTransactions ≤
          report.transactionInventoryItems

/-- How a session ends when anything may arrive. -/
def ClientCall.UntrustedEnds (P : Platform) (params : NetworkParams)
    (verifier : ConsensusPowVerifier) (i : ι) (start : ι → Node) :
    ClientCall → Outcome SessionError ClientReport → (ι → Node) → Prop
  | _, .error _, _ => True
  | .sync _, .ok (.synced report), finish =>
      report.Accounts P params verifier (start i) (finish i)
  | .relay, .ok (.relayed report), _ =>
      report.acceptedBlocks + report.alreadyKnown = report.offeredBlocks ∧
        report.offeredBlocks ≤ maxBlocksPerSync
  | .template _ payout, .ok (.template response), _ =>
      response.template.pays payout = true ∧
        response.template.challenge.previousBlock = response.remoteHello.tip ∧
          response.template.challenge.height = saturatingAdd response.remoteHello.height 1
  | .submission _ block, .ok (.submitted result), _ => result.blockId = block.blockId P
  | _, _, _ => False

theorem untrusted_syncFromPeer (params : NetworkParams) (verifier : ConsensusPowVerifier)
    {surroundings : Bytes32 → Surroundings} {states : ι → Node} :
    SessionEnsures P identity anything i j
      (fun result finish => ∀ report, result = .ok report →
        report.Accounts P params verifier (states i) (finish i))
      (syncFromPeer P surroundings (identity i)) states := by
  refine .read fun asked hasked => ?_
  dsimp only
  refine untrusted_exchange (fun _ _ _ h => nomatch h) fun greeted hgreeted message => ?_
  refine .lift (fun hello _ => ?_) fun _ _ _ _ _ h => nomatch h
  refine untrusted_exchange (fun _ _ _ h => nomatch h) fun listed hlisted message => ?_
  refine .lift (fun ids _ => ?_) fun _ _ _ _ _ h => nomatch h
  refine sessionCheck_ensures (fun hbounded => ?_) fun _ _ _ _ h => nomatch h
  have hstart : Gained P params verifier 0 (states i) (listed i) :=
    Gained.none.after (((hasked.trans hgreeted).trans hlisted) i)
  refine .bind (untrusted_syncBlocks (fun _ _ _ h => nomatch h) hstart ?_)
  intro pulled requested known hcount hgained
  refine untrusted_exchange (fun _ _ _ h => nomatch h) fun offered hoffered message => ?_
  refine .lift (fun txids _ => ?_) fun _ _ _ _ _ h => nomatch h
  refine .read fun compared hcompared => ?_
  simp only [List.contains_eq_mem, ← decide_not]
  refine untrusted_syncTransactions (fun _ _ _ h => nomatch h)
    (hgained.after ((hoffered.trans hcompared) i)) ?_
  intro finish admitted refused hadmission hfinish report hreport
  obtain rfl := Except.ok.inj hreport
  rw [List.length_take] at hadmission
  refine ⟨⟨?_, Nat.not_lt.mp hbounded, rfl⟩, ?_, ?_, ?_, ?_⟩
  · show 0 + requested + (0 + known) = _
    rw [Nat.zero_add, Nat.zero_add]
    exact hcount
  · exact hfinish
  · show 0 + admitted + (0 + refused) = 0 + (admitted + refused)
    rw [Nat.zero_add, Nat.zero_add, Nat.zero_add]
  · show 0 + (admitted + refused) ≤ _
    omega
  · have hsplit := List.length_eq_countP_add_countP (l := txids)
      (· ∈ (compared i).transactionInventory)
    simp only [decide_eq_true_eq] at hsplit
    rw [List.countP_eq_length_filter (p := fun txid => decide (txid ∉ _))] at hsplit
    show 0 + (admitted + refused) + txids.countP _ ≤ txids.length
    omega

theorem untrusted_relayBlocks {Post : Outcome SessionError RelayReport → (ι → Node) → Prop}
    (herror : ∀ fault states', Post (.error fault) states') {ids : List Bytes32} :
    ∀ {states : ι → Node} {report : RelayReport},
      (∀ states' taken known (peer : UInt64 × Bytes32), taken + known = ids.length →
        Post (.ok { report with
          acceptedBlocks := report.acceptedBlocks + taken
          alreadyKnown := report.alreadyKnown + known
          peerHeight := peer.1
          peerTip := peer.2 }) states') →
      SessionEnsures P identity anything i j Post (relayBlocks P ids report) states := by
  induction ids with
  | nil =>
      intro states report hdone states' _
      exact hdone states' 0 0 (report.peerHeight, report.peerTip) rfl
  | cons id rest ih =>
      intro states report hdone
      rw [relayBlocks]
      refine .critical (fun served hserved block hblock => ?_)
        fun _ _ fault _ states' _ => herror fault states'
      refine untrusted_exchange herror fun answered hanswered message => ?_
      refine .lift (fun result _ => ?_) fun fault _ states' _ => herror fault states'
      refine sessionCheck_ensures (fun _ => ?_) fun _ states' _ => herror _ states'
      cases result.status with
      | accepted =>
          refine ih fun states' taken known peer hcount => ?_
          have hpost := hdone states' (taken + 1) known peer
            (by rw [List.length_cons, ← hcount, Nat.add_right_comm])
          rw [Nat.add_comm taken, ← Nat.add_assoc] at hpost
          exact hpost
      | alreadyKnown =>
          refine ih fun states' taken known peer hcount => ?_
          have hpost := hdone states' taken (known + 1) peer
            (by rw [List.length_cons, ← hcount, Nat.add_assoc])
          rw [Nat.add_comm known, ← Nat.add_assoc] at hpost
          exact hpost
      | rejected => exact fun states' _ => herror _ states'

theorem ClientCall.untrusted {states : ι → Node} (hrunning : Running P params verifier states)
    (call : ClientCall) :
    SessionEnsures P identity anything i j (call.UntrustedEnds P params verifier i states)
      (call.talk P (identity i)) states := by
  cases call with
  | sync surroundings =>
      refine .map ((untrusted_syncFromPeer params verifier).mono fun result finish haccounts => ?_)
      cases result with
      | ok report => exact haccounts report rfl
      | error fault => trivial
  | relay =>
      refine .map ?_
      refine .read fun asked hasked => ?_
      refine untrusted_exchange (fun _ _ => trivial) fun greeted hgreeted message => ?_
      refine .lift (fun hello _ => ?_) fun _ _ _ _ => trivial
      refine .read fun offered hoffered => ?_
      obtain ⟨accepted, hown⟩ := hrunning.after ((hasked.trans hgreeted).trans hoffered) i
      obtain ⟨behind, hpage⟩ := hown.relay_isPage hello.tip maxBlocksPerSync
      refine untrusted_relayBlocks (fun _ _ => trivial) fun states' taken known peer hcount => ?_
      refine ⟨?_, hpage.bounded⟩
      show 0 + taken + (0 + known) = _
      rw [Nat.zero_add, Nat.zero_add]
      exact hcount
  | template hello payout =>
      refine .map ?_
      refine untrusted_exchange (fun _ _ => trivial) fun greeted hgreeted message => ?_
      refine .lift (fun remoteHello _ => ?_) fun _ _ _ _ => trivial
      refine untrusted_exchange (fun _ _ => trivial) fun built hbuilt message => ?_
      refine .lift (fun template _ => ?_) fun _ _ _ _ => trivial
      refine sessionCheck_ensures (fun hfits => ?_) fun _ _ _ => trivial
      refine sessionCheck_ensures (fun hpays _ _ => ?_) fun _ _ _ => trivial
      obtain ⟨hprevious, hheight⟩ := not_or.mp hfits
      exact ⟨hpays, Classical.not_not.mp hprevious, Classical.not_not.mp hheight⟩
  | submission hello block =>
      refine .map ?_
      refine untrusted_exchange (fun _ _ => trivial) fun greeted hgreeted message => ?_
      refine .lift (fun remoteHello _ => ?_) fun _ _ _ _ => trivial
      refine untrusted_exchange (fun _ _ => trivial) fun answered hanswered message => ?_
      refine .lift (fun result _ => ?_) fun _ _ _ _ => trivial
      exact sessionCheck_ensures (fun hblock _ _ => hblock) fun _ _ _ => trivial

/-! ## What the sections of a session do -/

theorem exchange_moves {R : Type} {call : PeerCall} {rest : PeerMessage → PeerTalk R}
    (h : ∀ message, (rest message).Moves (After (NodeCall.perform P))) :
    (exchange call >>= rest).Moves (After (NodeCall.perform P)) := by
  refine .bind ?_ h
  exact fun answer => trivial

theorem expect_moves {A R : Type} {result : Outcome SessionError A} {rest : A → PeerTalk R}
    (h : ∀ a, (rest a).Moves (After (NodeCall.perform P))) :
    ((liftM result : PeerTalk A) >>= rest).Moves (After (NodeCall.perform P)) :=
  .bind .lift h

theorem syncBlocks_moves {surroundings : Bytes32 → Surroundings} {ids : List Bytes32} :
    ∀ {previous : Option Bytes32} {report : SyncReport},
      (syncBlocks P surroundings previous ids report).Moves (After (NodeCall.perform P)) := by
  induction ids with
  | nil => exact trivial
  | cons id rest ih =>
      intro previous report
      refine .bind (.read fun _ => .refl) fun known => ?_
      split
      · exact ih
      · refine exchange_moves fun message => expect_moves fun block => ?_
        refine .bind .lift fun _ => .bind (.read fun _ => .refl) fun ordered => ?_
        refine .bind .lift fun _ => .bind (.critical fun node => ?_) fun _ => ih
        exact .one (NodeCall.submitBlock (surroundings id).append block (surroundings id).now)

theorem syncTransactions_moves {requested : List Bytes32} :
    ∀ {report : SyncReport},
      (syncTransactions P requested report).Moves (After (NodeCall.perform P)) := by
  induction requested with
  | nil => exact trivial
  | cons txid rest ih =>
      intro report
      refine exchange_moves fun message => expect_moves fun transaction => ?_
      refine .bind .lift fun _ => .bind (.critical fun node => ?_) fun passed => ?_
      · exact .one (NodeCall.submitTransaction transaction)
      · split <;> exact ih

theorem relayBlocks_moves {ids : List Bytes32} :
    ∀ {report : RelayReport}, (relayBlocks P ids report).Moves (After (NodeCall.perform P)) := by
  induction ids with
  | nil => exact trivial
  | cons id rest ih =>
      intro report
      refine .bind (.critical fun _ => .refl) fun block => exchange_moves fun message => ?_
      refine expect_moves fun result => .bind .lift fun _ => ?_
      cases result.status with
      | accepted => exact ih
      | alreadyKnown => exact ih
      | rejected => exact trivial

/-- A session makes calls on its own node and nothing else. -/
theorem ClientCall.talk_moves {own : ProcessIdentity} (call : ClientCall) :
    (call.talk P own).Moves (After (NodeCall.perform P)) := by
  cases call with
  | sync surroundings =>
      refine .bind ?_ fun report => trivial
      refine .bind (.read fun _ => .refl) fun asked => exchange_moves fun message => ?_
      refine expect_moves fun hello => exchange_moves fun message => expect_moves fun ids => ?_
      refine .bind .lift fun _ => .bind syncBlocks_moves fun report => ?_
      refine exchange_moves fun message => expect_moves fun txids => ?_
      exact .bind (.read fun _ => .refl) fun known => syncTransactions_moves
  | relay =>
      refine .bind ?_ fun report => trivial
      refine .bind (.read fun _ => .refl) fun hello => exchange_moves fun message => ?_
      refine expect_moves fun remoteHello => .bind (.read fun _ => .refl) fun ids => ?_
      exact relayBlocks_moves
  | template hello payout =>
      refine .bind ?_ fun response => trivial
      refine exchange_moves fun message => expect_moves fun remoteHello => ?_
      refine exchange_moves fun message => expect_moves fun template => ?_
      exact .bind .lift fun _ => .bind .lift fun _ => trivial
  | submission hello block =>
      refine .bind ?_ fun result => trivial
      refine exchange_moves fun message => expect_moves fun remoteHello => ?_
      refine exchange_moves fun message => expect_moves fun result => ?_
      exact .bind .lift fun _ => trivial

/-! ## The network -/

section

variable {κ : Type} [DecidableEq κ]

/-- Nodes, and sessions between them. -/
abbrev PeerNet (ι κ : Type) :=
  Net Node PeerCall (Outcome ConnectionError PeerMessage) PeerMessage SessionError SessionError
    ClientReport ι κ

abbrev PeerEvent (ι κ : Type) :=
  NetEvent Surroundings (Outcome ConnectionError PeerMessage) NodeCall ι κ

/-- Every node runs, and every session is about to start. -/
structure PeerNet.Starts (P : Platform) (params : NetworkParams) (verifier : ConsensusPowVerifier)
    (identity : ι → ProcessIdentity) (calls : κ → ClientCall) (net : PeerNet ι κ) : Prop where
  running : Running P params verifier net.states
  talk : ∀ k, (net.callers k).talk = (calls k).talk P (identity (net.callers k).own)
  serving : ∀ k, (net.callers k).serving = none

variable {calls : κ → ClientCall} {net net' : PeerNet ι κ} {events : List (PeerEvent ι κ)}

omit [DecidableEq κ] in
theorem PeerNet.Starts.sound (h : net.Starts P params verifier identity calls)
    {lost : Outcome ConnectionError PeerMessage → Bool}
    {Post : κ → Outcome SessionError ClientReport → (ι → Node) → Prop}
    (hensures : ∀ k, SessionEnsures P identity lost (net.callers k).own (net.callers k).peer (Post k)
      ((calls k).talk P (identity (net.callers k).own)) net.states) :
    net.Sound (NodeCall.perform P) (peerAnswering P identity lost) Post := by
  intro k
  refine ⟨?_, ?_, fun handler hserving => ?_⟩
  · rw [h.talk k]
    exact (calls k).talk_moves
  · rw [h.talk k]
    exact hensures k
  · cases (h.serving k).symm.trans hserving

/-- Any number of nodes and sessions, and calls from outside, in any order, over connections that
deliver an answer or fail.  No session ends with a complaint about its peer: a sync says that its
connection failed or that its own node refused a block, a relay that its connection failed or
that the peer rejected a block, and what they report otherwise was so at moments in the order in
which they looked. -/
theorem network_sessions {broken : ConnectionError → Bool}
    (hstarts : net.Starts P params verifier identity calls)
    (hrun : runEvents (Net.step (NodeCall.perform P) (peerAnswering P identity (orFails broken)))
      events net = some net') :
    Running P params verifier net'.states ∧
      ∀ k result, (net'.callers k).talk = .done result →
        (calls k).Ends P identity broken (net.callers k).own (net.callers k).peer net.states result
          net'.states := by
  obtain ⟨hafter, hends⟩ := Net.run_ensures (fun _ _ call => serveCall_moves call)
    (hstarts.sound fun k => (calls k).ensures hstarts.running) hrun
  exact ⟨hstarts.running.after hafter, hends⟩

/-- The same, where anything may arrive in place of an answer: every node still runs, a sync
reports no more blocks than its own node accepted, and a miner gets only a template that pays it
and follows the tip it was greeted with. -/
theorem untrusted_sessions (hstarts : net.Starts P params verifier identity calls)
    (hrun : runEvents (Net.step (NodeCall.perform P) (peerAnswering P identity anything))
      events net = some net') :
    Running P params verifier net'.states ∧
      ∀ k result, (net'.callers k).talk = .done result →
        (calls k).UntrustedEnds P params verifier (net.callers k).own net.states result
          net'.states := by
  obtain ⟨hafter, hends⟩ := Net.run_ensures (fun _ _ call => serveCall_moves call)
    (hstarts.sound fun k => (calls k).untrusted hstarts.running) hrun
  exact ⟨hstarts.running.after hafter, hends⟩

end

end

end

/-! ## Two nodes and a relay -/

/-- A node that opens a relay to another. -/
def sampleNet (identity : Bool → ProcessIdentity) (states : Bool → Node) : PeerNet Bool Unit where
  states
  callers _ := {
    own := false
    peer := true
    talk := ClientCall.relay.talk samplePlatform (identity false)
    serving := none }

theorem sampleNet_starts {identity : Bool → ProcessIdentity} {states : Bool → Node}
    (h : Running samplePlatform sampleParams sampleVerifier states) :
    (sampleNet identity states).Starts samplePlatform sampleParams sampleVerifier identity
      fun _ => .relay where
  running := h
  talk _ := by rw [sampleNet]
  serving _ := rfl

/-- A greeting that arrives. -/
theorem sampleNet_greets (identity : Bool → ProcessIdentity) (states : Bool → Node) :
    ∃ net', runEvents (Net.step (NodeCall.perform samplePlatform)
        (peerAnswering samplePlatform identity (orFails fun _ => true)))
      [.work (), .request () ⟨0, .synced⟩, .serve (), .reply ()] (sampleNet identity states) =
        some net' := ⟨_, rfl⟩

/-- Anything that arrives in its place. -/
theorem sampleNet_misled (identity : Bool → ProcessIdentity) (states : Bool → Node) :
    ∃ net', runEvents (Net.step (NodeCall.perform samplePlatform)
        (peerAnswering samplePlatform identity anything))
      [.work (), .lose () (.ok .getMempool)] (sampleNet identity states) = some net' := ⟨_, rfl⟩

/-- A node with a fork, and one that was just opened. -/
def sampleNodes (fresh : Bool) : Node := if fresh then sampleNode₀ else sampleNode

theorem sampleNodes_running : Running samplePlatform sampleParams sampleVerifier sampleNodes := by
  intro fresh
  cases fresh with
  | false => exact ⟨_, sampleNode_run⟩
  | true => exact ⟨_, sampleNode₀_run⟩

def sampleIdentity (_ : Bool) : ProcessIdentity := ⟨zero32, zero32⟩

theorem network_sessions_sample : ∃ net' : PeerNet Bool Unit,
    Running samplePlatform sampleParams sampleVerifier net'.states := by
  obtain ⟨net', hrun⟩ := sampleNet_greets sampleIdentity sampleNodes
  exact ⟨net', (network_sessions (sampleNet_starts sampleNodes_running) hrun).1⟩

theorem untrusted_sessions_sample : ∃ net' : PeerNet Bool Unit,
    Running samplePlatform sampleParams sampleVerifier net'.states := by
  obtain ⟨net', hrun⟩ := sampleNet_misled sampleIdentity sampleNodes
  exact ⟨net', (untrusted_sessions (sampleNet_starts sampleNodes_running) hrun).1⟩

end CommonFoundry
