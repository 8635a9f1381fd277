/-
# `CommonFoundry.Node.Inventory` — locators, inventories and one pull from a peer

`block_locator`, `inventory_after` and the block part of
`perform_sync_from_peer_once`.  A locator samples the sender's active chain,
densely near the tip; the answer is a page of the receiver's active chain behind
the first sample that lies on it.

The samples depend on nothing but the height of the tip (`locatorHeights`).  On
two chains that agree in height, the page starts behind the highest sampled
height at which they have the same block (`inventoryAfter_blockLocator`).
-/
import CommonFoundry.Node.Node

namespace CommonFoundry

open Lib Lib.Outcome

/-- `MAX_BLOCKS_PER_SYNC`: the bound of a locator, and of a page. -/
def maxBlocksPerSync : Nat := 16

/-! ## The locator -/

/-- The loop of `block_locator`: the positions it pushes, while there is room for
more than genesis. -/
def locatorPositions : Nat → Nat → Nat → Nat → List Nat
  | 0, _, _, _ => []
  | room + 1, position, step, pushed =>
      if position = 0 then []
      else position :: locatorPositions room (position - step)
        (if pushed + 1 ≥ 10 then min (step * 2) (2 ^ 64 - 1) else step) (pushed + 1)

def Node.blockLocator (node : Node) (max : Nat) : List Bytes32 :=
  if max = 0 then []
  else if max = 1 ∨ node.index.activeChain.length = 1 then [node.index.genesis]
  else (locatorPositions (max - 1) (node.index.activeChain.length - 1) 1 0).filterMap
    (node.index.activeChain[·]?) ++ [node.index.genesis]

/-! ## The inventory -/

/-- The loop of `inventory_after`, with room for so many more identifiers. -/
def inventoryLoop (stop : Bytes32) : Nat → List Bytes32 → List Bytes32
  | 0, _ => []
  | _, [] => []
  | room + 1, blockId :: rest =>
      if stop ≠ zero32 ∧ blockId = stop then [blockId]
      else blockId :: inventoryLoop stop room rest

def Node.inventoryAfter (node : Node) (locator : List Bytes32) (stop : Bytes32) (max : Nat) :
    List Bytes32 :=
  if max = 0 then []
  else
    match locator.findSome? node.index.activePosition with
    | none => []
    | some position => inventoryLoop stop max (node.index.activeChain.drop (position + 1))

/-- The loop of `relay_inventory_after`, with so many turns: from a block towards genesis, to
the first that is on the active chain. -/
def BlockIndex.relayLoop (index : BlockIndex) : Nat → Bytes32 → Option Nat
  | 0, _ => none
  | turns + 1, cursor =>
      match index.activePosition cursor with
      | some position => some position
      | none => (index.blocks.lookup cursor).bind fun entry => index.relayLoop turns entry.parent

def Node.relayInventoryAfter (node : Node) (peerTip : Bytes32) (max : Nat) : List Bytes32 :=
  if max = 0 ∨ ¬node.index.contains peerTip then []
  else
    match node.index.relayLoop (node.index.blocks.keys.card + 1) peerTip with
    | none => []
    | some position => (node.index.activeChain.drop (position + 1)).take max

/-! ## One pull -/

/-- `P2pError`, for the block part of a pull over a connection that holds. -/
inductive P2pError where
  | unknownRequestedBlock (blockId : Bytes32)
  | wrongBlock (requested actual : Bytes32)
  | nonContiguousInventory (blockId : Bytes32)
  | node (error : NodeError)
  | wire (error : WireError)

section

variable (P : Platform)

/-- The answer to `GetBlock`. -/
def Node.serveBlock (node : Node) (blockId : Bytes32) : Outcome P2pError Block := do
  let entry ← okOr (node.index.blocks.lookup blockId) (.unknownRequestedBlock blockId)
  let block ← mapErr .wire (decodeBlock P entry.canonical node.params.networkId)
  require (block.blockId P = blockId) (.wrongBlock blockId (block.blockId P))
  pure block

/-- A block continues the inventory, or, as the first one, the index. -/
def parentIsOrdered (node : Node) (previousInventoryId : Option Bytes32) (block : Block) : Bool :=
  match previousInventoryId with
  | some previous => decide (block.challenge.previousBlock = previous)
  | none => node.index.contains block.challenge.previousBlock

/-- The loop over the inventory.  `clock` is the time at which each block is
submitted. -/
def pullBlocks (remote : Node) (clock : Bytes32 → UInt64) :
    Option Bytes32 → List Bytes32 → Node → Outcome P2pError Unit × Node
  | _, [], node => (.ok (), node)
  | previous, requested :: rest, node =>
      if node.index.contains requested then
        pullBlocks remote clock (some requested) rest node
      else
        match remote.serveBlock P requested with
        | .error fault => (.error fault, node)
        | .ok block =>
            if parentIsOrdered node previous block then
              match node.submitBlock P .synced block (clock requested) with
              | (.ok _, node) => pullBlocks remote clock (some requested) rest node
              | (.error fault, node) => (mapErr .node (.error fault), node)
            else (fail (.nonContiguousInventory requested), node)

/-- What a node asks a peer for: the page behind its own locator, up to the tip
of the peer. -/
def Node.requests (node remote : Node) : List Bytes32 :=
  remote.inventoryAfter (node.blockLocator maxBlocksPerSync) remote.state.tip maxBlocksPerSync

def Node.pull (node remote : Node) (clock : Bytes32 → UInt64) : Outcome P2pError Unit × Node :=
  pullBlocks P remote clock none (node.requests remote) node

end

/-! ## The sampled heights -/

/-- The distances from the tip at which `locatorPositions` samples. -/
def locatorOffsets : Nat → Nat → Nat → Nat → List Nat
  | 0, _, _, _ => []
  | room + 1, offset, step, pushed =>
      offset :: locatorOffsets room (offset + step)
        (if pushed + 1 ≥ 10 then min (step * 2) (2 ^ 64 - 1) else step) (pushed + 1)

/-- The heights that the locator of a sync samples, for a tip at this height. -/
def locatorHeights (tipHeight : Nat) : List Nat :=
  ([0, 1, 2, 3, 4, 5, 6, 7, 8, 9, 10, 12, 16, 24, 40].takeWhile (· < tipHeight)).map
    (tipHeight - ·) ++ [0]

/-- The highest sampled height at which the active chains have the same block. -/
def Node.sharedHeight (node remote : Node) : Nat :=
  ((locatorHeights (node.index.activeChain.length - 1)).find? fun height =>
    node.index.activeChain[height]? = remote.index.activeChain[height]?).getD 0

theorem locatorPositions_eq (room offset step pushed tip : Nat) :
    locatorPositions room (tip - offset) step pushed =
      ((locatorOffsets room offset step pushed).takeWhile (· < tip)).map (tip - ·) := by
  induction room generalizing offset step pushed with
  | zero => rfl
  | succ room ih =>
      rw [locatorPositions, locatorOffsets, List.takeWhile_cons]
      by_cases hlt : offset < tip
      · rw [if_neg (by omega), if_pos (decide_eq_true hlt), List.map_cons, Nat.sub_sub, ih]
      · rw [if_pos (by omega), if_neg (by simpa using hlt)]
        rfl

theorem locatorHeights_le {tipHeight height : Nat} (h : height ∈ locatorHeights tipHeight) :
    height ≤ tipHeight := by
  rcases List.mem_append.mp h with h | h
  · obtain ⟨offset, _, rfl⟩ := List.mem_map.mp h
    exact Nat.sub_le _ _
  · rw [List.mem_singleton.mp h]
    exact Nat.zero_le _

/-- The locator of a sync is the active chain at the sampled heights. -/
theorem blockLocator_eq {node : Node} {rest : List Bytes32}
    (hchain : node.index.activeChain = node.index.genesis :: rest) :
    node.blockLocator maxBlocksPerSync =
      (locatorHeights (node.index.activeChain.length - 1)).filterMap
        (node.index.activeChain[·]?) := by
  have hgenesis : [0].filterMap (node.index.activeChain[·]?) = [node.index.genesis] := by
    rw [hchain]
    rfl
  rw [Node.blockLocator, if_neg (by decide), locatorHeights, List.filterMap_append, hgenesis]
  split
  · next hone =>
      have hlen : node.index.activeChain.length = 1 := hone.resolve_left (by decide)
      rw [hlen]
      rfl
  · rw [← Nat.sub_zero (node.index.activeChain.length - 1), locatorPositions_eq]
    rfl

/-! ## The page behind it -/

/-- A page that ends at the last identifier, at the latest. -/
theorem inventoryLoop_eq_take {stop : Bytes32} {room : Nat} {chain : List Bytes32}
    (h : stop ∉ chain.dropLast) : inventoryLoop stop room chain = chain.take room := by
  induction chain generalizing room with
  | nil => cases room <;> rfl
  | cons blockId rest ih =>
      cases room with
      | zero => rfl
      | succ room =>
          rw [inventoryLoop, List.take_succ_cons]
          cases rest with
          | nil => split <;> cases room <;> rfl
          | cons next rest =>
              rw [List.dropLast_cons_cons, List.mem_cons, not_or] at h
              rw [if_neg (fun hstop => h.1 hstop.2.symm), ih h.2]

/-- The first sample that a search finds is the first that passes its test. -/
theorem findSome?_filterMap_eq_find? {K : Type} {sample : Nat → Option K}
    {search : K → Option Nat} {test : Nat → Prop} [DecidablePred test] {heights : List Nat}
    (h : ∀ height ∈ heights, (sample height).bind search =
      if test height then some height else none) :
    (heights.filterMap sample).findSome? search =
      heights.find? fun height => decide (test height) := by
  induction heights with
  | nil => rfl
  | cons height rest ih =>
      have hhead := h height List.mem_cons_self
      have hrest := ih fun height hmem => h height (List.mem_cons_of_mem _ hmem)
      rw [List.find?_cons, List.filterMap_cons]
      cases hsample : sample height with
      | none =>
          rw [hsample, Option.bind_none] at hhead
          split at hhead
          · cases hhead
          · next htest => rw [decide_eq_false htest, hrest]
      | some id =>
          rw [hsample, Option.bind_some] at hhead
          rw [List.findSome?_cons, hhead]
          by_cases htest : test height
          · rw [if_pos htest, decide_eq_true htest]
          · rw [if_neg htest, decide_eq_false htest, hrest]

theorem activePosition_eq_some {index : BlockIndex} (hnodup : index.activeChain.Nodup)
    {id : Bytes32} {position : Nat} :
    index.activePosition id = some position ↔ index.activeChain[position]? = some id := by
  rw [BlockIndex.activePosition, List.findIdx?_eq_some_iff_getElem]
  constructor
  · rintro ⟨hlt, hid, _⟩
    rw [List.getElem?_eq_getElem hlt, of_decide_eq_true hid]
  · intro hid
    obtain ⟨hlt, hget⟩ := List.getElem?_eq_some_iff.mp hid
    refine ⟨hlt, decide_eq_true hget, fun j hj hjid => ?_⟩
    have heq := (hnodup.getElem_inj_iff).mp ((of_decide_eq_true hjid).trans hget.symm)
    omega

/-- Genesis is the last sample, and shared: the search always ends. -/
theorem find?_sharedHeight {node remote : Node} {rest rest' : List Bytes32}
    (hchain : node.index.activeChain = node.index.genesis :: rest)
    (hchain' : remote.index.activeChain = node.index.genesis :: rest') :
    ((locatorHeights (node.index.activeChain.length - 1)).find? fun height =>
      decide (node.index.activeChain[height]? = remote.index.activeChain[height]?)) =
        some (node.sharedHeight remote) := by
  have hsome : ((locatorHeights (node.index.activeChain.length - 1)).find? fun height =>
      decide (node.index.activeChain[height]? = remote.index.activeChain[height]?)).isSome := by
    refine List.find?_isSome.mpr ⟨0, List.mem_append_right _ List.mem_cons_self, ?_⟩
    rw [hchain, hchain']
    exact decide_eq_true rfl
  obtain ⟨height, hheight⟩ := Option.isSome_iff_exists.mp hsome
  rw [Node.sharedHeight, hheight, Option.getD_some]

theorem getElem?_sharedHeight {node remote : Node} {rest rest' : List Bytes32}
    (hchain : node.index.activeChain = node.index.genesis :: rest)
    (hchain' : remote.index.activeChain = node.index.genesis :: rest') :
    ∃ id, node.index.activeChain[node.sharedHeight remote]? = some id ∧
      remote.index.activeChain[node.sharedHeight remote]? = some id := by
  have hfind := find?_sharedHeight hchain hchain'
  have hle := locatorHeights_le (List.mem_of_find?_eq_some hfind)
  have heq : node.index.activeChain[node.sharedHeight remote]? =
      remote.index.activeChain[node.sharedHeight remote]? := by
    have htest := List.find?_some hfind
    exact of_decide_eq_true htest
  have hlen : node.index.activeChain.length = rest.length + 1 := by rw [hchain, List.length_cons]
  obtain ⟨id, hid⟩ : ∃ id, node.index.activeChain[node.sharedHeight remote]? = some id :=
    ⟨_, List.getElem?_eq_getElem (by omega)⟩
  exact ⟨id, hid, heq ▸ hid⟩

/-- Chains that part right after genesis share nothing else. -/
theorem sharedHeight_eq_zero {node remote : Node} {genesis : Bytes32} {rest rest' : List Bytes32}
    (hchain : node.index.activeChain = genesis :: rest)
    (hchain' : remote.index.activeChain = genesis :: rest')
    (hdisjoint : ∀ id ∈ rest, id ∉ rest') : node.sharedHeight remote = 0 := by
  rw [Node.sharedHeight]
  cases hfind : (locatorHeights (node.index.activeChain.length - 1)).find? fun height =>
      node.index.activeChain[height]? = remote.index.activeChain[height]? with
  | none => rfl
  | some height =>
      have hle := locatorHeights_le (List.mem_of_find?_eq_some hfind)
      have htest := List.find?_some hfind
      have heq : node.index.activeChain[height]? = remote.index.activeChain[height]? :=
        of_decide_eq_true htest
      rw [hchain, hchain'] at heq
      rw [hchain, List.length_cons, Nat.add_sub_cancel] at hle
      cases height with
      | zero => rfl
      | succ height =>
          rw [List.getElem?_cons_succ, List.getElem?_cons_succ,
            List.getElem?_eq_getElem (by omega)] at heq
          exact absurd (List.mem_of_getElem? heq.symm) (hdisjoint _ (List.getElem_mem _))

/-- The page that two chains which agree in height exchange. -/
theorem requests_eq {node remote : Node} {rest rest' : List Bytes32}
    (hchain : node.index.activeChain = node.index.genesis :: rest)
    (hchain' : remote.index.activeChain = node.index.genesis :: rest')
    (hnodup : remote.index.activeChain.Nodup)
    (htip : remote.index.activeChain.getLast? = some remote.state.tip)
    (haligned : ∀ (i j : Nat) id, node.index.activeChain[i]? = some id →
      remote.index.activeChain[j]? = some id → i = j) :
    node.requests remote =
      (remote.index.activeChain.drop (node.sharedHeight remote + 1)).take maxBlocksPerSync := by
  have hlen : node.index.activeChain.length = rest.length + 1 := by rw [hchain, List.length_cons]
  -- a sample is found on the remote chain only at its own height
  have hsample : ∀ height ∈ locatorHeights (node.index.activeChain.length - 1),
      (node.index.activeChain[height]?).bind remote.index.activePosition =
        if node.index.activeChain[height]? = remote.index.activeChain[height]? then
          some height else none := by
    intro height hmem
    have hheight := locatorHeights_le hmem
    have hsome := List.getElem?_eq_getElem (l := node.index.activeChain) (i := height) (by omega)
    rw [hsome, Option.bind_some]
    split
    · next heq => exact (activePosition_eq_some hnodup).mpr heq.symm
    · next hne =>
        cases hfound : remote.index.activePosition node.index.activeChain[height] with
        | none => rfl
        | some position =>
            rw [activePosition_eq_some hnodup] at hfound
            obtain rfl := haligned _ _ _ hsome hfound
            exact absurd hfound.symm hne
  have hstop : remote.state.tip ∉
      (remote.index.activeChain.drop (node.sharedHeight remote + 1)).dropLast := by
    rw [List.dropLast_drop_eq_drop_dropLast]
    intro hmem
    obtain ⟨before, hbefore⟩ := List.getLast?_eq_some_iff.mp htip
    rw [hbefore, List.dropLast_concat] at hmem
    rw [hbefore] at hnodup
    exact List.disjoint_of_nodup_append hnodup (List.mem_of_mem_drop hmem) List.mem_cons_self
  rw [Node.requests, Node.inventoryAfter, if_neg (by decide), blockLocator_eq hchain,
    findSome?_filterMap_eq_find? hsample, find?_sharedHeight hchain hchain']
  exact inventoryLoop_eq_take hstop

end CommonFoundry
