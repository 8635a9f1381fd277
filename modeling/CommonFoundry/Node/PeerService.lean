/-
# `CommonFoundry.Node.PeerService` — what a node answers its peers

`perform_respond_to_peer_inner_with_policy`: the greeting, and one turn of its loop.  A turn
reads or changes the node in sections of its own, and sends its answer without the lock.

Whatever a peer sends, a turn does nothing to the node but submit a block (`serveCall_moves`).
The rules below say what an answer is: it was right at a moment between the request and its
arrival.
-/
import CommonFoundry.Lib.Dialogue
import CommonFoundry.Node.Locator
import CommonFoundry.Node.MempoolPull
import CommonFoundry.Node.PeerConnection
import CommonFoundry.Node.SyncRun

namespace CommonFoundry

open Lib Lib.Outcome

/-- `P2pError`, over a connection that may fail. -/
inductive SessionError where
  | peer (error : ConnectionError)
  | node (error : NodeError)
  | wire (error : WireError)
  | unexpectedMessage (expected actual : String)
  | wrongBlock (requested actual : Bytes32)
  | wrongTransaction (requested actual : Bytes32)
  | wrongBlockSubmission (submitted actual : Bytes32)
  | rejectedBlockSubmission (blockId : Bytes32)
  | nonContiguousInventory (blockId : Bytes32)
  | unknownRequestedBlock (blockId : Bytes32)
  | unknownRequestedTransaction (txid : Bytes32)
  | unexpectedMiningTemplate
  | unexpectedMiningPayout

/-- The block part of a pull over a connection that holds. -/
def P2pError.toSession : P2pError → SessionError
  | .unknownRequestedBlock blockId => .unknownRequestedBlock blockId
  | .wrongBlock requested actual => .wrongBlock requested actual
  | .nonContiguousInventory blockId => .nonContiguousInventory blockId
  | .node error => .node error
  | .wire error => .wire error

/-- The mempool part. -/
def MempoolSyncError.toSession : MempoolSyncError → SessionError
  | .unknownRequestedTransaction txid => .unknownRequestedTransaction txid
  | .wrongTransaction requested actual => .wrongTransaction requested actual

def messageName : PeerMessage → String
  | .hello _ => "Hello"
  | .getHeaders _ _ => "GetHeaders"
  | .inventory _ => "Inventory"
  | .getBlock _ => "GetBlock"
  | .block _ => "Block"
  | .submitBlock _ => "SubmitBlock"
  | .blockSubmissionResult _ => "BlockSubmissionResult"
  | .getMempool => "GetMempool"
  | .transactionInventory _ => "TransactionInventory"
  | .getTransaction _ => "GetTransaction"
  | .transaction _ => "Transaction"
  | .getMiningTemplate _ => "GetMiningTemplate"
  | .miningTemplate _ => "MiningTemplate"

/-! ## Calls on a node -/

/-- A call that changes a node. -/
inductive NodeCall where
  | submitBlock (append : AppendOutcome) (block : Block) (acceptedAt : UInt64)
  | submitTransaction (transaction : Transaction)

def NodeCall.perform (P : Platform) : NodeCall → Node → Node
  | .submitBlock append block acceptedAt, node => (node.submitBlock P append block acceptedAt).2
  | .submitTransaction transaction, node => (node.submitTransaction P transaction).2

/-- The constants of a process that are part of its greeting. -/
structure ProcessIdentity where
  consensusFingerprint : Bytes32
  nodeNonce : Bytes32
  deriving DecidableEq

/-- What the clock and the disk answer when a block is submitted. -/
structure Surroundings where
  now : UInt64
  append : AppendOutcome

/-- `chain_work_bytes`. -/
def chainWorkBytes (work : Nat) : ChainWork :=
  ⟨toBe 64 work, by rw [toBe, List.length_reverse, length_toLe]⟩

def Node.peerHello (node : Node) (identity : ProcessIdentity) : PeerHello where
  networkId := node.params.networkId
  consensusFingerprint := identity.consensusFingerprint
  nodeNonce := identity.nodeNonce
  tip := node.state.tip
  height := (checkedSub node.state.nextHeight 1).getD 0
  cumulativeWork := chainWorkBytes node.index.activeWork

/-! ## The service -/

/-- A request, or the connection that it needs. -/
inductive PeerCall where
  | connect (hello : PeerHello)
  | send (message : PeerMessage)

abbrev PeerHandler (R : Type) := Handler Node SessionError R

section

variable (P : Platform)

/-- The section of `SubmitBlock`. -/
def Node.receiveBlock (node : Node) (surroundings : Surroundings) (block : Block) :
    Outcome SessionError BlockSubmissionStatus × Node :=
  if node.index.contains (block.blockId P) then (.ok .alreadyKnown, node)
  else
    match node.submitBlock P surroundings.append block surroundings.now with
    | (.ok _, node) => (.ok .accepted, node)
    | (.error (.err _), node) => (.ok .rejected, node)
    | (.error .panic, node) => (.error .panic, node)

/-- One turn of the loop of `perform_respond_to_peer_inner_with_policy`. -/
def respond (identity : ProcessIdentity) (surroundings : Surroundings) :
    PeerMessage → PeerHandler PeerMessage
  | .getHeaders locator stop => do
      let blockIds ← Dialogue.read fun node : Node =>
        node.inventoryAfter locator stop maxBlocksPerSync
      pure (.inventory blockIds)
  | .getBlock blockId => do
      let block ← Dialogue.critical fun node : Node =>
        (mapErr P2pError.toSession (node.serveBlock P blockId), node)
      pure (.block block)
  | .getMempool => do
      let txids ← Dialogue.read Node.transactionInventory
      pure (.transactionInventory txids)
  | .getTransaction txid => do
      let transaction ← Dialogue.critical fun node : Node =>
        (mapErr MempoolSyncError.toSession (node.serveTransaction P txid), node)
      pure (.transaction transaction)
  | .getMiningTemplate payout => do
      let template ← Dialogue.critical fun node : Node =>
        (mapErr SessionError.node (node.buildTemplate P payout surroundings.now), node)
      pure (.miningTemplate {
        challenge := template.challenge
        coinbase := template.coinbase
        transactions := template.transactions })
  | .submitBlock block => do
      let status ← Dialogue.critical fun node : Node => node.receiveBlock P surroundings block
      let peer ← Dialogue.read fun node : Node => node.peerHello identity
      pure (.blockSubmissionResult {
        blockId := block.blockId P
        status
        peerHeight := peer.height
        peerTip := peer.tip })
  | other => .done (fail (.unexpectedMessage
      "GetHeaders, GetBlock, GetMempool, GetTransaction, GetMiningTemplate, or SubmitBlock"
      (messageName other)))

/-- `perform_respond_to_peer_inner_with_policy`: the greeting, then turn by turn. -/
def serveCall (identity : ProcessIdentity) (surroundings : Surroundings) :
    PeerCall → PeerHandler PeerMessage
  | .connect _ => do
      let hello ← Dialogue.read fun node : Node => node.peerHello identity
      pure (.hello hello)
  | .send message => respond P identity surroundings message

end

/-! ## Nodes that go on -/

section

variable {P : Platform} {params : NetworkParams} {verifier : ConsensusPowVerifier}
  {accepted : List Acceptance} {node node' : Node}

theorem NodeRun.perform (h : NodeRun P params verifier accepted node) (call : NodeCall) :
    ∃ more, NodeRun P params verifier (accepted ++ more) (call.perform P node) := by
  cases call with
  | submitBlock append block acceptedAt =>
      cases hsubmit : node.submitBlock P append block acceptedAt with
      | mk result after =>
          have hperform : (NodeCall.submitBlock append block acceptedAt).perform P node = after :=
            congrArg Prod.snd hsubmit
          rw [hperform]
          cases result with
          | ok fees => exact ⟨_, h.accepted hsubmit⟩
          | error fault => exact ⟨[], (List.append_nil accepted).symm ▸ h.refused hsubmit⟩
  | submitTransaction transaction =>
      exact ⟨[], (List.append_nil accepted).symm ▸ h.transaction (Prod.mk.eta.symm)⟩

/-- A node that goes on has accepted what it had accepted, and more. -/
theorem NodeRun.after (h : NodeRun P params verifier accepted node)
    (hafter : After (NodeCall.perform P) node node') :
    ∃ more, NodeRun P params verifier (accepted ++ more) node' := by
  induction hafter with
  | refl => exact ⟨[], (List.append_nil accepted).symm ▸ h⟩
  | tail _ hcall ih =>
      obtain ⟨call, rfl⟩ := hcall
      obtain ⟨more, hmore⟩ := ih
      obtain ⟨last, hlast⟩ := hmore.perform call
      exact ⟨more ++ last, (List.append_assoc accepted more last) ▸ hlast⟩

/-- What a node holds it keeps. -/
theorem NodeRun.contains_after (h : NodeRun P params verifier accepted node)
    (hafter : After (NodeCall.perform P) node node') {id : Bytes32}
    (hid : node.index.contains id = true) : node'.index.contains id = true := by
  obtain ⟨more, hmore⟩ := h.after hafter
  exact Pulling.contains_mono h.consistent.follows.tree hmore.consistent.follows.tree hid

/-- A node serves what it has accepted. -/
theorem NodeRun.serveBlock (h : NodeRun P params verifier accepted node) {b : Acceptance}
    (hb : b ∈ accepted) : node.serveBlock P (b.id P) = .ok b.block := by
  obtain ⟨_, entry, _, _, hlookup, hentry, hafter⟩ := h.consistent.follows.tree.entry b hb
  obtain ⟨base, validated, hbase, hvalid, _⟩ := stateAfter_snoc.mp hafter
  have hnetwork : b.block.challenge.networkId = node.params.networkId := by
    rw [(validateBlock_validated hvalid).network, stateAfter_params hbase, h.consistent.constant.1]
  have hdecode : decodeBlock P entry.canonical node.params.networkId = .ok b.block :=
    hnetwork ▸ decodeBlock_encodeBlock hentry.canonical
  have hid : b.block.blockId P = b.id P := rfl
  rw [Node.serveBlock, hlookup, okOr_some, ok_bind, hdecode, mapErr_ok, ok_bind,
    require_pos hid]
  rfl

end

/-! ## Pages -/

/-- Accepted blocks, each the child of the one before. -/
def Linked (P : Platform) (accepted : List Acceptance) : Bytes32 → List Bytes32 → Prop
  | _, [] => True
  | previous, id :: rest =>
      (∃ a ∈ accepted, a.id P = id ∧ a.parent = previous) ∧ Linked P accepted id rest

section

variable {P : Platform} {params : NetworkParams} {verifier : ConsensusPowVerifier}
  {accepted : List Acceptance} {node : Node}

theorem Linked.mono {accepted' : List Acceptance} (hsubset : accepted ⊆ accepted')
    {previous : Bytes32} {ids : List Bytes32} (h : Linked P accepted previous ids) :
    Linked P accepted' previous ids := by
  induction ids generalizing previous with
  | nil => trivial
  | cons id rest ih =>
      obtain ⟨⟨a, ha, haid, hparent⟩, hrest⟩ := h
      exact ⟨⟨a, hsubset ha, haid, hparent⟩, ih hrest⟩

theorem Linked.mem {previous : Bytes32} {ids : List Bytes32} (h : Linked P accepted previous ids)
    {id : Bytes32} (hid : id ∈ ids) : ∃ a ∈ accepted, a.id P = id := by
  induction ids generalizing previous with
  | nil => cases hid
  | cons head rest ih =>
      obtain ⟨⟨a, ha, haid, _⟩, hrest⟩ := h
      rcases List.mem_cons.mp hid with rfl | hid
      · exact ⟨a, ha, haid⟩
      · exact ih hrest hid

/-- A page of the active chain. -/
theorem NodeRun.linked_page (h : NodeRun P params verifier accepted node) (size : Nat) :
    ∀ {position : Nat} {start : Bytes32}, node.index.activeChain[position]? = some start →
      Linked P accepted start ((node.index.activeChain.drop (position + 1)).take size) := by
  induction size with
  | zero => exact fun _ => trivial
  | succ size ih =>
      intro position start hstart
      rcases Nat.lt_or_ge (position + 1) node.index.activeChain.length with hlt | hge
      · have hget := List.getElem?_eq_getElem hlt
        obtain ⟨a, ha, hid, hparent, _⟩ := h.consistent.chain.above position _ hget
        rw [List.drop_eq_getElem_cons hlt, List.take_succ_cons]
        exact ⟨⟨a, ha, hid, Option.some.inj (hparent.symm.trans hstart)⟩, ih hget⟩
      · rw [List.drop_eq_nil_of_le hge]
        trivial

/-- What a page behind some block of a node is. -/
structure IsPage (P : Platform) (accepted : List Acceptance) (max : Nat) (start : Bytes32)
    (ids : List Bytes32) : Prop where
  linked : Linked P accepted start ids
  nodup : ids.Nodup
  bounded : ids.length ≤ max

theorem IsPage.nil {max : Nat} {start : Bytes32} : IsPage P accepted max start [] :=
  ⟨trivial, List.nodup_nil, Nat.zero_le _⟩

theorem NodeRun.isPage (h : NodeRun P params verifier accepted node) {max size : Nat}
    (hsize : size ≤ max) {position : Nat} {start : Bytes32}
    (hstart : node.index.activeChain[position]? = some start) :
    IsPage P accepted max start ((node.index.activeChain.drop (position + 1)).take size) where
  linked := h.linked_page size hstart
  nodup := ((List.take_sublist _ _).trans (List.drop_sublist _ _)).nodup h.nodup_activeChain
  bounded := (List.length_take_le _ _).trans hsize

/-- What a node lists behind a locator begins at a block of the locator, if it is not empty. -/
theorem NodeRun.inventory_isPage (h : NodeRun P params verifier accepted node)
    (locator : List Bytes32) (stop : Bytes32) (max : Nat) :
    node.inventoryAfter locator stop max = [] ∨
      ∃ start ∈ locator, IsPage P accepted max start (node.inventoryAfter locator stop max) := by
  rw [Node.inventoryAfter]
  split
  · exact .inl rfl
  · split
    · exact .inl rfl
    · next position hfind =>
        obtain ⟨start, hstart, hposition⟩ := List.exists_of_findSome?_eq_some hfind
        have hget := (activePosition_eq_some h.nodup_activeChain).mp hposition
        refine .inr ⟨start, hstart, ?_⟩
        rw [inventoryLoop_eq, throughStop]
        split
        · exact h.isPage (le_refl max) hget
        · rw [List.take_take]
          exact h.isPage (min_le_left max _) hget

/-- What a node relays begins at one of its own blocks. -/
theorem NodeRun.relay_isPage (h : NodeRun P params verifier accepted node) (peerTip : Bytes32)
    (max : Nat) : ∃ start, IsPage P accepted max start (node.relayInventoryAfter peerTip max) := by
  rw [Node.relayInventoryAfter]
  split
  · exact ⟨peerTip, .nil⟩
  · split
    · exact ⟨peerTip, .nil⟩
    · next position _ =>
        rcases Nat.lt_or_ge position node.index.activeChain.length with hlt | hge
        · exact ⟨_, h.isPage (le_refl max) (List.getElem?_eq_getElem hlt)⟩
        · rw [List.drop_eq_nil_of_le (by omega), List.take_nil]
          exact ⟨peerTip, .nil⟩

end

/-! ## What a turn does -/

section

variable {P : Platform} {identity : ProcessIdentity} {surroundings : Surroundings}

/-- The block of a submission is submitted, or the node is left alone. -/
theorem receiveBlock_after (node : Node) (block : Block) :
    After (NodeCall.perform P) node (node.receiveBlock P surroundings block).2 := by
  have hsubmit : After (NodeCall.perform P) node
      (node.submitBlock P surroundings.append block surroundings.now).2 :=
    .one (NodeCall.submitBlock surroundings.append block surroundings.now)
  rw [Node.receiveBlock]
  split
  · exact .refl
  · split <;> next heq => rwa [heq] at hsubmit

/-- Whatever the request, its handler makes calls on the node and nothing else. -/
theorem serveCall_moves (call : PeerCall) :
    (serveCall P identity surroundings call).Moves (After (NodeCall.perform P)) := by
  cases call with
  | connect hello => exact ⟨fun _ => .refl, fun _ => trivial⟩
  | send message =>
      cases message with
      | getHeaders | getMempool => exact ⟨fun _ => .refl, fun _ => trivial⟩
      | getBlock | getTransaction | getMiningTemplate =>
          refine Dialogue.Moves.bind (.critical fun _ => .refl) fun _ => trivial
      | submitBlock block =>
          exact Dialogue.Moves.bind (.critical fun node => receiveBlock_after node block)
            fun _ => ⟨fun _ => .refl, fun _ => trivial⟩
      | _ => trivial

end

end CommonFoundry
