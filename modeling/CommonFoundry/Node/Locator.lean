/-
# `CommonFoundry.Node.Locator` — locators, and the blocks behind them

A locator lists blocks of the active chain from the tip down, with genesis at the end, in a
form that `GetHeaders` carries (`IsLocator`).  The answer of another node, and what a node
relays to a peer, are a page of its own active chain.  They begin behind the highest block of
that chain which the locator names, or which is an ancestor of the peer's tip (`IsHighest`): a
block stands at one height, on whichever chain it is.
-/
import CommonFoundry.Node.ActiveBranch
import CommonFoundry.Node.Inventory
import CommonFoundry.Node.PeerFrame
import CommonFoundry.Node.TwoNodes

namespace CommonFoundry

open Lib Lib.Outcome

/-- A block of the active chain, and its height. -/
structure BlockIndex.IsAt (index : BlockIndex) (height : Nat) (id : Bytes32) : Prop where
  active : index.activeChain[height]? = some id
  height : ∀ entry, index.blocks.lookup id = some entry → entry.height.toNat = height

/-- At most `max` blocks of the active chain, from above down to genesis. -/
structure BlockIndex.IsLocator (index : BlockIndex) (max : Nat) (locator : List Bytes32) :
    Prop where
  bounded : locator.length ≤ max
  nodup : locator.Nodup
  genesis : locator.getLast? = some index.genesis
  descending : ∃ heights : List Nat, heights.Pairwise (· > ·) ∧
    List.Forall₂ index.IsAt heights locator

/-- The highest block of the active chain that is among these. -/
structure BlockIndex.IsHighest (index : BlockIndex) (ids : List Bytes32) (height : Nat) : Prop where
  mem : ∃ id ∈ ids, index.activeChain[height]? = some id
  le : ∀ id ∈ ids, ∀ position, index.activeChain[position]? = some id → position ≤ height

/-- Up to the stop, if one is named and reached. -/
def throughStop (stop : Bytes32) (ids : List Bytes32) : List Bytes32 :=
  if stop = zero32 then ids else ids.take (ids.findIdx (· = stop) + 1)

/-! ## The locator -/

theorem locatorPositions_spec (room position step pushed : Nat) (hstep : 0 < step) :
    (locatorPositions room position step pushed).length ≤ room ∧
      (∀ height ∈ locatorPositions room position step pushed, 0 < height ∧ height ≤ position) ∧
      (locatorPositions room position step pushed).Pairwise (· > ·) := by
  induction room generalizing position step pushed with
  | zero => exact ⟨le_refl _, fun _ h => (by cases h), .nil⟩
  | succ room ih =>
      rw [locatorPositions]
      split
      · exact ⟨Nat.zero_le _, fun _ h => (by cases h), .nil⟩
      · next hpos =>
          have hnext : 0 < if pushed + 1 ≥ 10 then min (step * 2) (2 ^ 64 - 1) else step := by
            split <;> omega
          obtain ⟨hlength, hrange, hsorted⟩ := ih (position - step) _ (pushed + 1) hnext
          refine ⟨Nat.succ_le_succ hlength, fun height hheight => ?_, ?_⟩
          · rcases List.mem_cons.mp hheight with rfl | hheight
            · exact ⟨Nat.pos_of_ne_zero hpos, le_refl _⟩
            · obtain ⟨hlow, hhigh⟩ := hrange height hheight
              exact ⟨hlow, hhigh.trans (Nat.sub_le _ _)⟩
          · refine List.pairwise_cons.mpr ⟨fun height hheight => ?_, hsorted⟩
            have hhigh := (hrange height hheight).2
            omega

/-- The heights of a locator of any size. -/
theorem blockLocator_eq_filterMap {node : Node} {rest : List Bytes32} {max : Nat} (hmax : 0 < max)
    (hchain : node.index.activeChain = node.index.genesis :: rest) :
    node.blockLocator max =
      (locatorPositions (max - 1) (node.index.activeChain.length - 1) 1 0 ++ [0]).filterMap
        (node.index.activeChain[·]?) := by
  have hgenesis : [0].filterMap (node.index.activeChain[·]?) = [node.index.genesis] := by
    rw [hchain]
    rfl
  rw [Node.blockLocator, if_neg (Nat.ne_of_gt hmax), List.filterMap_append, hgenesis]
  split
  · next hone =>
      have hnone : locatorPositions (max - 1) (node.index.activeChain.length - 1) 1 0 = [] := by
        rcases hone with rfl | hone
        · rfl
        · rw [hone]
          cases max - 1 <;> rfl
      rw [hnone]
      rfl
  · rfl

theorem forall₂_getElem? {α : Type} {l : List α} {positions : List Nat}
    (h : ∀ position ∈ positions, position < l.length) :
    List.Forall₂ (fun position a => l[position]? = some a) positions
      (positions.filterMap (l[·]?)) := by
  induction positions with
  | nil => exact .nil
  | cons position rest ih =>
      have hget := List.getElem?_eq_getElem (h position List.mem_cons_self)
      rw [List.filterMap_cons, hget]
      exact .cons hget (ih fun other hother => h other (List.mem_cons_of_mem _ hother))

theorem exists_of_forall₂ {α β : Type} {R : α → β → Prop} {xs : List α} {ys : List β} {y : β}
    (h : List.Forall₂ R xs ys) (hy : y ∈ ys) : ∃ x ∈ xs, R x y := by
  induction h with
  | nil => cases hy
  | @cons x head xs ys hhead _ ih =>
      rcases List.mem_cons.mp hy with rfl | hy
      · exact ⟨x, List.mem_cons_self, hhead⟩
      · obtain ⟨other, hmem, hother⟩ := ih hy
        exact ⟨other, List.mem_cons_of_mem _ hmem, hother⟩

/-- Different positions of a list without repetition. -/
theorem nodup_of_forall₂ {α : Type} {l ids : List α} {positions : List Nat} (hl : l.Nodup)
    (h : List.Forall₂ (fun position a => l[position]? = some a) positions ids)
    (hpositions : positions.Nodup) : ids.Nodup := by
  induction h with
  | nil => exact List.nodup_nil
  | @cons position id positions ids hget hrest ih =>
      obtain ⟨hnew, hpositions⟩ := List.nodup_cons.mp hpositions
      refine List.nodup_cons.mpr ⟨fun hmem => hnew ?_, ih hpositions⟩
      obtain ⟨other, hother, hsame⟩ := exists_of_forall₂ hrest hmem
      have hlt := (List.getElem?_eq_some_iff.mp hget).1
      exact (List.getElem?_inj hlt hl).mp (hget.trans hsame.symm) ▸ hother

section

variable {P : Platform} {params : NetworkParams} {verifier : ConsensusPowVerifier}
  {accepted : List Acceptance} {node : Node}

/-- The active chain lists each block once, and a block stands at its height. -/
theorem NodeRun.isAt (h : NodeRun P params verifier accepted node) {height : Nat} {id : Bytes32}
    (hid : node.index.activeChain[height]? = some id) : node.index.IsAt height id :=
  ⟨hid, fun entry hentry => h.consistent.followsHeaviest.height height id entry hid hentry⟩

theorem NodeRun.nodup_activeChain (h : NodeRun P params verifier accepted node) :
    node.index.activeChain.Nodup := by
  obtain ⟨htree, ⟨branch, hbranch, _, hchain, _⟩, _⟩ := h.consistent.follows
  have hpath := htree.path hbranch
  rw [hchain]
  exact List.nodup_cons.mpr ⟨fun hmem => (hpath.mem _ hmem).1 rfl, hpath.nodup⟩

theorem NodeRun.isLocator (h : NodeRun P params verifier accepted node) {max : Nat}
    (hmax : 0 < max) : node.index.IsLocator max (node.blockLocator max) := by
  obtain ⟨_, ⟨branch, _, _, hchain, _⟩, _⟩ := h.consistent.follows
  have hpos : 0 < node.index.activeChain.length := by
    rw [hchain]
    exact Nat.succ_pos _
  obtain ⟨hlength, hrange, hsorted⟩ :=
    locatorPositions_spec (max - 1) (node.index.activeChain.length - 1) 1 0 Nat.one_pos
  have heq := blockLocator_eq_filterMap hmax hchain
  have hheights : (locatorPositions (max - 1) (node.index.activeChain.length - 1) 1 0 ++
      [0]).Pairwise (· > ·) :=
    List.pairwise_append.mpr ⟨hsorted, List.pairwise_singleton _ _, fun height hheight last hlast =>
      List.mem_singleton.mp hlast ▸ (hrange height hheight).1⟩
  have hall : List.Forall₂ (fun height id => node.index.activeChain[height]? = some id)
      (locatorPositions (max - 1) (node.index.activeChain.length - 1) 1 0 ++ [0])
      (node.blockLocator max) := by
    rw [heq]
    refine forall₂_getElem? fun height hheight => ?_
    rcases List.mem_append.mp hheight with hheight | hheight
    · have hhigh := (hrange height hheight).2
      omega
    · rw [List.mem_singleton.mp hheight]
      exact hpos
  refine ⟨?_, nodup_of_forall₂ h.nodup_activeChain hall (hheights.imp ne_of_gt), ?_,
    _, hheights, hall.imp fun _ _ => h.isAt⟩
  · rw [← hall.length_eq, List.length_append, List.length_singleton]
    omega
  · rw [heq, List.filterMap_append, hchain]
    exact List.getLast?_concat

/-- A locator is what `GetHeaders` carries. -/
theorem BlockIndex.IsLocator.valid {index : BlockIndex} {max : Nat} {locator : List Bytes32}
    (h : index.IsLocator max locator) (hmax : max ≤ maxHeaderLocators) :
    validateIdentifiers locator maxHeaderLocators "header locator" true = .ok () := by
  have hnonempty : locator.isEmpty = false := by
    cases locator with
    | nil => cases h.genesis
    | cons id rest => rfl
  have hlength := h.bounded.trans hmax
  simp only [validateIdentifiers, peerCheck, bind_eq_ok, require_eq_ok]
  exact ⟨(), fun hempty => by simp [hnonempty] at hempty, (), not_lt.mpr hlength, h.nodup⟩

/-! ## Heights -/

/-- The block at a position of a branch has a branch of that length. -/
theorem Branch.exists_of_position {genesis tip id : Bytes32} {branch : List Acceptance}
    (h : Branch P genesis accepted tip branch) {position : Nat}
    (hid : (genesis :: branch.map (·.id P))[position]? = some id) :
    ∃ front, Branch P genesis accepted id front ∧ front.length = position := by
  induction h with
  | genesis =>
      cases position with
      | zero =>
          obtain rfl := Option.some.inj hid
          exact ⟨[], .genesis, rfl⟩
      | succ position => cases hid
  | @child a branch hmem hbranch ih =>
      rw [List.map_append, ← List.cons_append] at hid
      have hlength : (genesis :: branch.map (·.id P)).length = branch.length + 1 := by
        rw [List.length_cons, List.length_map]
      by_cases hlt : position < branch.length + 1
      · rw [List.getElem?_append_left (by rw [hlength]; exact hlt)] at hid
        exact ih hid
      · rw [List.getElem?_append_right (by omega), hlength] at hid
        obtain ⟨hlast, hget⟩ := List.getElem?_eq_some_iff.mp hid
        have hzero : position - (branch.length + 1) = 0 := Nat.lt_one_iff.mp hlast
        obtain rfl : a.id P = id := by
          simp only [hzero] at hget
          exact hget
        refine ⟨branch ++ [a], .child hmem hbranch, ?_⟩
        rw [List.length_append, List.length_singleton]
        omega

/-- A block of the active chain has a branch of its height. -/
theorem NodeRun.branch_of_position (h : NodeRun P params verifier accepted node) {height : Nat}
    {id : Bytes32} (hid : node.index.activeChain[height]? = some id) :
    ∃ branch, Branch P node.index.genesis accepted id branch ∧ branch.length = height := by
  obtain ⟨_, ⟨branch, hbranch, _, hchain, _⟩, _⟩ := h.consistent.follows
  rw [hchain] at hid
  exact hbranch.exists_of_position hid

/-- A block of a branch that is on the active chain is there at the length of the branch. -/
theorem NodeRun.position_eq (h : NodeRun P params verifier accepted node) {height : Nat}
    {id : Bytes32} {branch : List Acceptance}
    (hbranch : Branch P node.index.genesis accepted id branch)
    (hid : node.index.activeChain[height]? = some id) : height = branch.length := by
  obtain ⟨front, hfront, rfl⟩ := h.branch_of_position hid
  rw [h.consistent.follows.tree.branch_unique hbranch hfront rfl]

/-- On two chains from one genesis a block has one height. -/
theorem NodeRun.height_agree {params' : NetworkParams} {verifier' : ConsensusPowVerifier}
    {accepted' : List Acceptance} {remote : Node} (h : NodeRun P params verifier accepted node)
    (h' : NodeRun P params' verifier' accepted' remote)
    (hgenesis : params.genesisHash = params'.genesisHash)
    (hsame : SameBlocks P accepted accepted') {height height' : Nat} {id : Bytes32}
    (hid : node.index.activeChain[height]? = some id)
    (hid' : remote.index.activeChain[height']? = some id) : height = height' := by
  obtain ⟨branch, hbranch, rfl⟩ := h.branch_of_position hid
  obtain ⟨branch', hbranch', rfl⟩ := h'.branch_of_position hid'
  have htree := h.consistent.follows.tree
  have htree' := h'.consistent.follows.tree
  have hblocks := hbranch.agree_of_genesis htree htree' hsame
    (htree.genesis.trans (hgenesis.trans htree'.genesis.symm)) hbranch' rfl
  have hlength := congrArg List.length hblocks
  rwa [List.length_map, List.length_map] at hlength

/-! ## The page behind a block -/

theorem inventoryLoop_eq (stop : Bytes32) (room : Nat) (ids : List Bytes32) :
    inventoryLoop stop room ids = (throughStop stop ids).take room := by
  induction ids generalizing room with
  | nil =>
      rw [throughStop, List.take_nil, ite_self, List.take_nil]
      cases room <;> rfl
  | cons id rest ih =>
      cases room with
      | zero => rw [List.take_zero]; rfl
      | succ room =>
          have hrest := ih room
          rw [inventoryLoop, hrest]
          rw [throughStop, throughStop]
          by_cases hnone : stop = zero32
          · rw [if_neg (fun h => h.1 hnone), if_pos hnone, if_pos hnone, List.take_succ_cons]
          · rw [if_neg hnone, if_neg hnone, List.findIdx_cons]
            by_cases hstop : id = stop
            · rw [if_pos ⟨hnone, hstop⟩, decide_eq_true hstop, cond_true, List.take_succ_cons,
                List.take_zero, List.take_succ_cons, List.take_nil]
            · rw [if_neg fun h => hstop h.2, decide_eq_false hstop]
              rfl

/-- In a list from above down, the first block that is found is the highest. -/
theorem isHighest_of_findSome? {index : BlockIndex} {heights : List Nat} {locator : List Bytes32}
    {position : Nat} (hnodup : index.activeChain.Nodup) (hsorted : heights.Pairwise (· > ·))
    (hall : List.Forall₂ (fun height id => ∀ found, index.activeChain[found]? = some id →
      found = height) heights locator)
    (hfind : locator.findSome? index.activePosition = some position) :
    index.IsHighest locator position := by
  induction hall with
  | nil => cases hfind
  | @cons height id heights locator hhead hrest ih =>
      obtain ⟨hbelow, hsorted⟩ := List.pairwise_cons.mp hsorted
      rw [List.findSome?_cons] at hfind
      cases hposition : index.activePosition id with
      | some found =>
          rw [hposition] at hfind
          obtain rfl := Option.some.inj hfind
          have hfound := (activePosition_eq_some hnodup).mp hposition
          refine ⟨⟨id, List.mem_cons_self, hfound⟩, fun other hother at_ hat => ?_⟩
          rcases List.mem_cons.mp hother with rfl | hother
          · rw [hhead at_ hat, hhead found hfound]
          · obtain ⟨lower, hmem, hlower⟩ := exists_of_forall₂ hrest hother
            rw [hlower at_ hat, hhead found hfound]
            exact Nat.le_of_lt (hbelow lower hmem)
      | none =>
          rw [hposition] at hfind
          obtain ⟨⟨other, hother, hat⟩, hle⟩ := ih hsorted hfind
          refine ⟨⟨other, List.mem_cons_of_mem _ hother, hat⟩, fun another hanother at_ hat => ?_⟩
          rcases List.mem_cons.mp hanother with rfl | hanother
          · rw [(activePosition_eq_some hnodup).mpr hat] at hposition
            cases hposition
          · exact hle another hanother at_ hat

/-- The search of `relay_inventory_after` has turns enough. -/
theorem NodeRun.exists_relayLoop (h : NodeRun P params verifier accepted node) {cursor : Bytes32}
    {branch : List Acceptance} (hbranch : Branch P node.index.genesis accepted cursor branch)
    {turns : Nat} (hturns : branch.length < turns) :
    ∃ position, node.index.relayLoop turns cursor = some position ∧
      node.index.IsHighest (node.index.genesis :: branch.map (·.id P)) position := by
  have htree := h.consistent.follows.tree
  obtain ⟨_, ⟨_, _, _, hchain, _⟩, _⟩ := h.consistent.follows
  induction hbranch generalizing turns with
  | genesis =>
      obtain ⟨turns, rfl⟩ : ∃ n, turns = n + 1 := ⟨turns - 1, by omega⟩
      have hzero : node.index.activeChain[0]? = some node.index.genesis := by
        rw [hchain]
        rfl
      refine ⟨0, ?_, ⟨_, List.mem_cons_self, hzero⟩, fun id hid position hposition => ?_⟩
      · rw [BlockIndex.relayLoop, (activePosition_eq_some h.nodup_activeChain).mpr hzero]
      · rw [List.map_nil, List.mem_singleton] at hid
        subst hid
        exact (h.position_eq .genesis hposition).le
  | @child a branch hmem hbranch ih =>
      obtain ⟨turns, rfl⟩ : ∃ n, turns = n + 1 := ⟨turns - 1, by omega⟩
      have hchild := Branch.child hmem hbranch
      rw [List.length_append, List.length_singleton] at hturns
      rw [BlockIndex.relayLoop]
      cases hfound : node.index.activePosition (a.id P) with
      | some position =>
          have hat := (activePosition_eq_some h.nodup_activeChain).mp hfound
          have hposition := h.position_eq hchild hat
          rw [List.length_append, List.length_singleton] at hposition
          refine ⟨position, rfl, ⟨a.id P, ?_, hat⟩, fun id hid other hother => ?_⟩
          · rw [List.map_append]
            exact List.mem_cons_of_mem _ (List.mem_append_right _ List.mem_cons_self)
          · -- an ancestor stands lower
            obtain ⟨i, hi⟩ := List.mem_iff_getElem?.mp hid
            obtain ⟨front, hfront, hlength⟩ := hchild.exists_of_position hi
            have hlt := (List.getElem?_eq_some_iff.mp hi).1
            rw [List.length_cons, List.length_map, List.length_append,
              List.length_singleton] at hlt
            rw [h.position_eq hfront hother, hlength]
            omega
      | none =>
          obtain ⟨_, entry, _, _, hlookup, hentry, _⟩ := htree.entry a hmem
          have hfewer : branch.length < turns := by omega
          rw [hlookup]
          obtain ⟨position, hloop, ⟨id, hid, hat⟩, hle⟩ := ih hfewer
          refine ⟨position, ?_, ⟨id, ?_, hat⟩, fun other hother at_ hat => ?_⟩
          · rw [Option.bind_some, hentry.parent]
            exact hloop
          · rw [List.map_append, ← List.cons_append]
            exact List.mem_append_left _ hid
          · rw [List.map_append, ← List.cons_append] at hother
            rcases List.mem_append.mp hother with hother | hother
            · exact hle other hother at_ hat
            · obtain rfl := List.mem_singleton.mp hother
              rw [(activePosition_eq_some h.nodup_activeChain).mpr hat] at hfound
              cases hfound

/-! ## The laws -/

/-- The blocks that a node lists behind a locator of another one with its genesis. -/
theorem NodeRun.inventoryAfter_eq {params' : NetworkParams} {verifier' : ConsensusPowVerifier}
    {accepted' : List Acceptance} {remote : Node} (h : NodeRun P params verifier accepted node)
    (h' : NodeRun P params' verifier' accepted' remote)
    (hgenesis : params.genesisHash = params'.genesisHash)
    (hsame : SameBlocks P accepted accepted') {max : Nat} (hmax : 0 < max) (stop : Bytes32)
    (page : Nat) :
    ∃ height, remote.index.IsHighest (node.blockLocator max) height ∧
      remote.inventoryAfter (node.blockLocator max) stop page =
        (throughStop stop (remote.index.activeChain.drop (height + 1))).take page := by
  obtain ⟨_, _, hlast, heights, hsorted, hall⟩ := h.isLocator hmax
  have hsamples : List.Forall₂ (fun height id => ∀ found,
      remote.index.activeChain[found]? = some id → found = height) heights
        (node.blockLocator max) :=
    hall.imp fun height id hat found hfound =>
      (h.height_agree h' hgenesis hsame hat.active hfound).symm
  -- genesis is the last resort
  have hsome : ((node.blockLocator max).findSome? remote.index.activePosition).isSome := by
    obtain ⟨htree, _⟩ := h.consistent.follows
    obtain ⟨htree', ⟨_, _, _, hchain', _⟩, _⟩ := h'.consistent.follows
    have hzero : remote.index.activeChain[0]? = some node.index.genesis := by
      rw [hchain', htree.genesis, hgenesis, ← htree'.genesis]
      rfl
    refine List.findSome?_isSome_iff.mpr ⟨_, List.mem_of_getLast? hlast, ?_⟩
    rw [(activePosition_eq_some h'.nodup_activeChain).mpr hzero]
    rfl
  obtain ⟨height, hfind⟩ := Option.isSome_iff_exists.mp hsome
  refine ⟨height, isHighest_of_findSome? h'.nodup_activeChain hsorted hsamples hfind, ?_⟩
  rw [Node.inventoryAfter, hfind]
  split
  · next hzero => rw [hzero, List.take_zero]
  · exact inventoryLoop_eq stop page _

/-- The blocks that a node relays to a peer whose tip it knows. -/
theorem NodeRun.relayInventoryAfter_eq (h : NodeRun P params verifier accepted node)
    {peerTip : Bytes32} (hknown : node.index.contains peerTip = true) (page : Nat) :
    ∃ path height, node.index.pathTo peerTip = .ok path ∧
      node.index.IsHighest (node.index.genesis :: path) height ∧
      node.relayInventoryAfter peerTip page =
        (node.index.activeChain.drop (height + 1)).take page := by
  have htree := h.consistent.follows.tree
  obtain ⟨branch, _, hbranch, _⟩ := htree.exists_branch (htree.contains_iff.mp hknown)
  have hlength := (htree.path hbranch).length_le
  rw [List.length_map] at hlength
  obtain ⟨height, hloop, hhighest⟩ := h.exists_relayLoop hbranch (Nat.lt_succ_of_le hlength)
  refine ⟨_, height, htree.pathTo hbranch, hhighest, ?_⟩
  rw [Node.relayInventoryAfter, hloop]
  split
  · next hnone =>
      rw [hnone.resolve_right (not_not.mpr hknown), List.take_zero]
  · rfl

end

/-- The locator of a node is one that `GetHeaders` carries; what another node with its genesis
lists behind it, and what the node relays to a peer, is a page of an active chain without a
gap, from behind the highest block in common. -/
theorem locator_laws {P : Platform} {params params' : NetworkParams}
    {verifier verifier' : ConsensusPowVerifier} {accepted accepted' : List Acceptance}
    {node remote : Node} (h : NodeRun P params verifier accepted node)
    (h' : NodeRun P params' verifier' accepted' remote)
    (hgenesis : params.genesisHash = params'.genesisHash)
    (hsame : SameBlocks P accepted accepted') (max : Nat) (hmax : 1 ≤ max)
    (hlimit : max ≤ maxHeaderLocators) :
    node.index.IsLocator max (node.blockLocator max) ∧
      validateIdentifiers (node.blockLocator max) maxHeaderLocators "header locator" true =
        .ok () ∧
      (∀ stop page, ∃ height, remote.index.IsHighest (node.blockLocator max) height ∧
        remote.inventoryAfter (node.blockLocator max) stop page =
          (throughStop stop (remote.index.activeChain.drop (height + 1))).take page) ∧
      (∀ peerTip page, node.index.contains peerTip = true →
        ∃ path height, node.index.pathTo peerTip = .ok path ∧
          node.index.IsHighest (node.index.genesis :: path) height ∧
          node.relayInventoryAfter peerTip page =
            (node.index.activeChain.drop (height + 1)).take page) ∧
      ∀ peerTip page, node.index.contains peerTip = false →
        node.relayInventoryAfter peerTip page = [] := by
  refine ⟨h.isLocator hmax, (h.isLocator hmax).valid hlimit,
    h.inventoryAfter_eq h' hgenesis hsame hmax,
    fun peerTip page hknown => h.relayInventoryAfter_eq hknown page,
    fun peerTip page hunknown => ?_⟩
  rw [Node.relayInventoryAfter, if_pos]
  right
  rw [hunknown]
  exact Bool.false_ne_true

theorem locator_laws_sample : sampleNode.index.IsLocator 32 (sampleNode.blockLocator 32) := by
  have htree := sampleNode_run.consistent.follows.tree
  have hsame : SameBlocks samplePlatform sampleFork sampleFork := fun a ha b hb hid => by
    rw [htree.acceptance_unique ha hb hid]
  exact (locator_laws sampleNode_run sampleNode_run rfl hsame 32 (by decide) (by decide)).1

end CommonFoundry
