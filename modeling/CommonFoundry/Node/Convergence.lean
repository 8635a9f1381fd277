/-
# `CommonFoundry.Node.Convergence` — the order of acceptance does not matter

Two fresh nodes accept the same blocks, each in an order of its own and at times
of its own.  What an entry of the index says of its block is then the same in
both: its branch, hence its work, is made of the same blocks (`Branch.agree`).
The active work is the greatest work of the tree, so it is the same too.

The tip is the *first* of the heaviest blocks, and that is where the order can be
seen.  When one entry alone has the most work there is nothing to see: both nodes
are on its branch, in the same state (`converge`).

And every order that puts parents first is open to a fresh node (`reorder`).
-/
import CommonFoundry.Node.TwoNodes

namespace CommonFoundry

open Lib Lib.Outcome

variable {P : Platform} {params : NetworkParams} {verifier : ConsensusPowVerifier}
  {accepted accepted' : List Acceptance}

/-! ## The same blocks -/

/-- The same blocks were accepted, in any order and at any times. -/
def SameAccepted (accepted accepted' : List Acceptance) : Prop :=
  ∀ block, block ∈ accepted.map (·.block) ↔ block ∈ accepted'.map (·.block)

/-- What an entry says, apart from when its block was accepted. -/
def IndexedBlock.timeless (entry : IndexedBlock) : IndexedBlock := { entry with acceptedAt := 0 }

/-- An entry that no other has more work than. -/
def BlockIndex.Heaviest (index : BlockIndex) (id : Bytes32) : Prop :=
  ∃ entry, index.blocks.lookup id = some entry ∧ ∀ other entry',
    index.blocks.lookup other = some entry' → entry'.cumulativeWork ≤ entry.cumulativeWork

/-- The entry of maximum work is unique. -/
def BlockIndex.UniqueHeaviest (index : BlockIndex) : Prop :=
  ∀ id id', index.Heaviest id → index.Heaviest id' → id = id'

theorem SameAccepted.symm (h : SameAccepted accepted accepted') :
    SameAccepted accepted' accepted :=
  fun block => (h block).symm

theorem SameAccepted.of_mem_iff (h : ∀ a, a ∈ accepted ↔ a ∈ accepted') :
    SameAccepted accepted accepted' := by
  intro block
  simp only [List.mem_map, h]

theorem SameAccepted.exists_block (h : SameAccepted accepted accepted') {a : Acceptance}
    (ha : a ∈ accepted) : ∃ a' ∈ accepted', a'.block = a.block :=
  List.mem_map.mp ((h a.block).mp (List.mem_map_of_mem ha))

theorem SameAccepted.mem_ids (h : SameAccepted accepted accepted') (genesis id : Bytes32)
    (hid : id ∈ acceptedIds P genesis accepted) : id ∈ acceptedIds P genesis accepted' := by
  rcases List.mem_cons.mp hid with rfl | hid
  · exact List.mem_cons_self
  · obtain ⟨a, ha, rfl⟩ := List.mem_map.mp hid
    obtain ⟨a', ha', hblock⟩ := h.exists_block ha
    refine List.mem_cons_of_mem _ (List.mem_map.mpr ⟨a', ha', ?_⟩)
    rw [Acceptance.id, hblock, Acceptance.id]

/-- Among blocks of one tree, a key names one block. -/
theorem IndexOf.sameBlocks_of_subset {index : BlockIndex}
    (h : IndexOf P params verifier accepted index)
    (hsub : ∀ b ∈ accepted', ∃ a ∈ accepted, a.block = b.block) :
    SameBlocks P accepted accepted' := by
  intro a ha b hb hid
  obtain ⟨c, hc, hblock⟩ := hsub b hb
  have hcid : c.id P = a.id P := by
    rw [hid, Acceptance.id, hblock, Acceptance.id]
  obtain rfl := h.acceptance_unique hc ha hcid
  exact hblock

/-! ## The same index -/

section

variable {index index' : BlockIndex}

/-- The entry of a block is the same in both, up to the time it was accepted at. -/
theorem entry_agree (h : IndexOf P params verifier accepted index)
    (h' : IndexOf P params verifier accepted' index') (hsame : SameBlocks P accepted accepted')
    {a a' : Acceptance} (ha : a ∈ accepted) (ha' : a' ∈ accepted') (hblock : a'.block = a.block) :
    ∃ entry entry', index.blocks.lookup (a.id P) = some entry ∧
      index'.blocks.lookup (a.id P) = some entry' ∧ entry.timeless = entry'.timeless ∧
      entry.acceptedAt = a.acceptedAt ∧ entry'.acceptedAt = a'.acceptedAt := by
  obtain ⟨branch, entry, _, hbranch, hlookup, hentry, _⟩ := h.entry a ha
  obtain ⟨branch', entry', _, hbranch', hlookup', hentry', _⟩ := h'.entry a' ha'
  have hid : a'.id P = a.id P := by
    rw [Acceptance.id, hblock, Acceptance.id]
  have hparent : a.parent = a'.parent := by
    rw [Acceptance.parent, ← hblock, Acceptance.parent]
  have hblocks := hbranch.agree h h' hsame hbranch' hparent
  have hall : (branch ++ [a]).map (·.block) = (branch' ++ [a']).map (·.block) := by
    rw [List.map_append, List.map_append, hblocks, List.map_singleton, List.map_singleton, hblock]
  have hwork : branchWork (branch ++ [a]) = branchWork (branch' ++ [a']) := by
    rw [work_of_blocks, work_of_blocks, hall]
  have hcanonical : entry.canonical = entry'.canonical := by
    have hencode := hentry'.canonical
    rw [hblock, hentry.canonical] at hencode
    exact Except.ok.inj hencode
  refine ⟨entry, entry', hlookup, hid ▸ hlookup', ?_, hentry.acceptedAt, hentry'.acceptedAt⟩
  rw [IndexedBlock.timeless, IndexedBlock.timeless, hentry.parent, hentry'.parent, hparent,
    hentry.height, hentry'.height, hblock, hcanonical, hentry.cumulativeWork,
    hentry'.cumulativeWork, hwork]

/-- Whatever two entries of one block have in common, the two indexes have. -/
theorem lookup_agree {β : Type} {f : IndexedBlock → β}
    (h : IndexOf P params verifier accepted index)
    (h' : IndexOf P params verifier accepted' index') (hsame : SameAccepted accepted accepted')
    (hf : ∀ a ∈ accepted, ∃ entry entry', index.blocks.lookup (a.id P) = some entry ∧
      index'.blocks.lookup (a.id P) = some entry' ∧ f entry = f entry') (id : Bytes32) :
    (index.blocks.lookup id).map f = (index'.blocks.lookup id).map f := by
  cases hlookup : index.blocks.lookup id with
  | some entry =>
      obtain ⟨a, ha, rfl⟩ := h.lookup id entry hlookup
      obtain ⟨entry, entry', hentry, hentry', heq⟩ := hf a ha
      rw [hlookup] at hentry
      rw [hentry, hentry', Option.map_some, Option.map_some, heq]
  | none =>
      cases hlookup' : index'.blocks.lookup id with
      | none => rfl
      | some entry' =>
          obtain ⟨a', ha', rfl⟩ := h'.lookup id entry' hlookup'
          obtain ⟨a, ha, hblock⟩ := hsame.symm.exists_block ha'
          obtain ⟨_, _, hentry, _⟩ := hf a ha
          rw [Acceptance.id, hblock, ← Acceptance.id, hlookup] at hentry
          cases hentry

theorem timeless_agree (h : IndexOf P params verifier accepted index)
    (h' : IndexOf P params verifier accepted' index') (hsame : SameAccepted accepted accepted')
    (id : Bytes32) :
    (index.blocks.lookup id).map IndexedBlock.timeless =
      (index'.blocks.lookup id).map IndexedBlock.timeless := by
  refine lookup_agree h h' hsame (fun a ha => ?_) id
  obtain ⟨a', ha', hblock⟩ := hsame.exists_block ha
  have hblocks := h.sameBlocks_of_subset fun b hb => hsame.symm.exists_block hb
  obtain ⟨entry, entry', hentry, hentry', heq, _⟩ := entry_agree h h' hblocks ha ha' hblock
  exact ⟨entry, entry', hentry, hentry', heq⟩

/-- Blocks that were accepted at the same times have the same entries. -/
theorem blocks_agree (h : IndexOf P params verifier accepted index)
    (h' : IndexOf P params verifier accepted' index') (hmem : ∀ a, a ∈ accepted ↔ a ∈ accepted') :
    index.blocks = index'.blocks := by
  have hsame := SameAccepted.of_mem_iff hmem
  have hblocks := h.sameBlocks_of_subset fun b hb => hsame.symm.exists_block hb
  refine Finmap.ext_lookup fun key => ?_
  have heq := lookup_agree (f := fun entry => entry) h h' hsame (fun a ha => ?_) key
  · simpa only [Option.map_id'] using heq
  · obtain ⟨entry, entry', hentry, hentry', heq, hat, hat'⟩ :=
      entry_agree h h' hblocks ha ((hmem a).mp ha) rfl
    refine ⟨entry, entry', hentry, hentry', ?_⟩
    cases entry
    cases entry'
    simp only [IndexedBlock.timeless, IndexedBlock.mk.injEq] at heq hat hat' ⊢
    obtain ⟨hparent, hheight, _, hcanonical, hwork⟩ := heq
    exact ⟨hparent, hheight, hat.trans hat'.symm, hcanonical, hwork⟩

theorem workAt_agree (h : IndexOf P params verifier accepted index)
    (h' : IndexOf P params verifier accepted' index') (hsame : SameAccepted accepted accepted')
    (id : Bytes32) : index.workAt id = index'.workAt id := by
  have hgenesis : index.genesis = index'.genesis := h.genesis.trans h'.genesis.symm
  have hwork : ∀ entries : Option IndexedBlock, entries.map (·.cumulativeWork) =
      (entries.map IndexedBlock.timeless).map (·.cumulativeWork) := by
    intro entries
    cases entries with
    | none => rfl
    | some entry => rfl
  rw [BlockIndex.workAt, BlockIndex.workAt, hgenesis, hwork (index.blocks.lookup id),
    timeless_agree h h' hsame id, ← hwork]

/-! ## The same branch -/

/-- An accepted block weighs more than genesis. -/
theorem IndexOf.weight_pos (h : IndexOf P params verifier accepted index) {a : Acceptance}
    (ha : a ∈ accepted) : 0 < index.weight (a.id P) := by
  obtain ⟨branch, _, _, hbranch, _, hentry, _⟩ := h.entry a ha
  have hpos := blockWork_pos hentry.blockWork
  rw [h.weight_eq (.child ha hbranch), branchWork_snoc]
  omega

theorem IndexOf.weight_of_lookup (h : IndexOf P params verifier accepted index) {a : Acceptance}
    (ha : a ∈ accepted) {entry : IndexedBlock}
    (hlookup : index.blocks.lookup (a.id P) = some entry) :
    index.weight (a.id P) = entry.cumulativeWork := by
  rw [BlockIndex.weight, BlockIndex.workAt, if_neg (h.id_ne_genesis ha), hlookup,
    Option.map_some, Option.getD_some]

/-- The entry of the greatest weight has the maximum work. -/
theorem IndexOf.heaviest (h : IndexOf P params verifier accepted index) {a : Acceptance}
    (ha : a ∈ accepted)
    (hle : ∀ id ∈ acceptedIds P index.genesis accepted, index.weight id ≤ index.weight (a.id P)) :
    index.Heaviest (a.id P) := by
  obtain ⟨_, entry, _, _, hlookup, _⟩ := h.entry a ha
  refine ⟨entry, hlookup, fun other entry' hother => ?_⟩
  obtain ⟨b, hb, rfl⟩ := h.lookup other entry' hother
  have hmem : b.id P ∈ acceptedIds P index.genesis accepted :=
    List.mem_cons_of_mem _ (List.mem_map.mpr ⟨b, hb, rfl⟩)
  rw [← h.weight_of_lookup ha hlookup, ← h.weight_of_lookup hb hother]
  exact hle _ hmem

/-- A block that outweighs every other one has the only entry of maximum work. -/
theorem IndexOf.uniqueHeaviest (h : IndexOf P params verifier accepted index) {a : Acceptance}
    (ha : a ∈ accepted)
    (hlt : ∀ b ∈ accepted, b.id P = a.id P ∨ index.weight (b.id P) < index.weight (a.id P)) :
    index.UniqueHeaviest := by
  obtain ⟨_, entry, _, _, hlookup, _⟩ := h.entry a ha
  have honly : ∀ id, index.Heaviest id → id = a.id P := by
    rintro id ⟨entry', hlookup', hle⟩
    obtain ⟨b, hb, rfl⟩ := h.lookup id entry' hlookup'
    refine (hlt b hb).resolve_right fun hlt => ?_
    rw [h.weight_of_lookup hb hlookup', h.weight_of_lookup ha hlookup] at hlt
    exact absurd (hle _ entry hlookup) (Nat.not_le.mpr hlt)
  intro id id' hid hid'
  rw [honly id hid, honly id' hid']

variable {state state' : ChainState}

theorem activeWork_eq_weight (h : Follows P params verifier accepted state index) :
    index.activeWork = index.weight state.tip := by
  obtain ⟨branch, hbranch, _, _, hwork⟩ := h.live
  rw [h.tree.weight_eq hbranch, hwork]

/-- Neither tip outweighs the other. -/
theorem tip_weight_agree (h : Follows P params verifier accepted state index)
    (h' : Follows P params verifier accepted' state' index')
    (hsame : SameAccepted accepted accepted') :
    index.weight state.tip = index.weight state'.tip := by
  have hgenesis : index.genesis = index'.genesis := h.tree.genesis.trans h'.tree.genesis.symm
  have hweight : ∀ id, index.weight id = index'.weight id := by
    intro id
    rw [BlockIndex.weight, workAt_agree h.tree h'.tree hsame, BlockIndex.weight]
  refine le_antisymm ?_ (h.best.le _ ?_)
  · rw [hweight, hweight]
    exact h'.best.le _ (hgenesis ▸ hsame.mem_ids _ _ h.best.mem)
  · exact hgenesis ▸ hsame.symm.mem_ids _ _ h'.best.mem

theorem activeWork_agree (h : Follows P params verifier accepted state index)
    (h' : Follows P params verifier accepted' state' index')
    (hsame : SameAccepted accepted accepted') : index.activeWork = index'.activeWork := by
  rw [activeWork_eq_weight h, activeWork_eq_weight h', tip_weight_agree h h' hsame,
    BlockIndex.weight, workAt_agree h.tree h'.tree hsame, BlockIndex.weight]

/-- With one heaviest entry there is one tip. -/
theorem tip_agree (h : Follows P params verifier accepted state index)
    (h' : Follows P params verifier accepted' state' index')
    (hsame : SameAccepted accepted accepted') (hunique : index.UniqueHeaviest) :
    state.tip = state'.tip := by
  have hgenesis : index.genesis = index'.genesis := h.tree.genesis.trans h'.tree.genesis.symm
  have hmem : state'.tip ∈ acceptedIds P index.genesis accepted :=
    hgenesis ▸ hsame.symm.mem_ids _ _ h'.best.mem
  have hweight := tip_weight_agree h h' hsame
  have hzero : index.weight index.genesis = 0 := h.tree.weight_eq .genesis
  rcases List.mem_cons.mp h.best.mem with htip | htip <;>
    rcases List.mem_cons.mp hmem with htip' | htip'
  · rw [htip, htip']
  · obtain ⟨a', ha', hid'⟩ := List.mem_map.mp htip'
    have hpos := h.tree.weight_pos ha'
    rw [hid', ← hweight, htip] at hpos
    omega
  · obtain ⟨a, ha, hid⟩ := List.mem_map.mp htip
    have hpos := h.tree.weight_pos ha
    rw [hid, hweight, htip'] at hpos
    omega
  · obtain ⟨a, ha, hid⟩ := List.mem_map.mp htip
    obtain ⟨a', ha', hid'⟩ := List.mem_map.mp htip'
    have hheaviest := h.tree.heaviest ha (hid.symm ▸ h.best.le)
    have hheaviest' := h.tree.heaviest ha' (by
      rw [hid', ← hweight]
      exact h.best.le)
    rw [← hid, ← hid']
    exact hunique _ _ hheaviest hheaviest'

/-- On one tip, the two nodes have one active chain and one state. -/
theorem live_agree (h : Follows P params verifier accepted state index)
    (h' : Follows P params verifier accepted' state' index')
    (hsame : SameBlocks P accepted accepted') (htip : state.tip = state'.tip) :
    index.activeChain = index'.activeChain ∧ state = state' := by
  have hgenesis : index.genesis = index'.genesis := h.tree.genesis.trans h'.tree.genesis.symm
  obtain ⟨branch, hbranch, hstate, hchain, _⟩ := h.live
  obtain ⟨branch', hbranch', hstate', hchain', _⟩ := h'.live
  have hblocks := hbranch.agree h.tree h'.tree hsame hbranch' htip
  have hids : ∀ branch : List Acceptance,
      branch.map (·.id P) = (branch.map (·.block)).map (·.blockId P) := by
    intro branch
    rw [List.map_map]
    rfl
  refine ⟨?_, stateAfter_agree hblocks hstate hstate'⟩
  rw [hchain, hchain', hgenesis, hids, hids, hblocks]

end

/-- Two fresh nodes that accept the same blocks, in any two orders and at any
times, end with the same entries and the same active work; with the same times
too, the entries are equal altogether.  If one entry alone has the most work, the
nodes have the same active chain and are in the same state. -/
theorem converge {node node' : Node} (h : NodeRun P params verifier accepted node)
    (h' : NodeRun P params verifier accepted' node') (hsame : SameAccepted accepted accepted') :
    (∀ id, (node.index.blocks.lookup id).map IndexedBlock.timeless =
      (node'.index.blocks.lookup id).map IndexedBlock.timeless) ∧
    ((∀ a, a ∈ accepted ↔ a ∈ accepted') → node.index.blocks = node'.index.blocks) ∧
    (∀ id, node.index.workAt id = node'.index.workAt id) ∧
    node.index.activeWork = node'.index.activeWork ∧
    (node.index.UniqueHeaviest →
      node.index.activeChain = node'.index.activeChain ∧ node.state = node'.state) := by
  have hfollows := h.consistent.follows
  have hfollows' := h'.consistent.follows
  refine ⟨timeless_agree hfollows.tree hfollows'.tree hsame,
    blocks_agree hfollows.tree hfollows'.tree, workAt_agree hfollows.tree hfollows'.tree hsame,
    activeWork_agree hfollows hfollows' hsame, fun hunique => ?_⟩
  have hblocks := hfollows.tree.sameBlocks_of_subset fun b hb => hsame.symm.exists_block hb
  exact live_agree hfollows hfollows' hblocks (tip_agree hfollows hfollows' hsame hunique)

/-! ## Every order that puts parents first -/

/-- The parent of each block is genesis, or comes before it. -/
def ParentFirst (P : Platform) (genesis : Bytes32) (order : List Acceptance) : Prop :=
  ∀ pre a post, order = pre ++ a :: post → a.parent ∈ acceptedIds P genesis pre

/-- The next block of such an order is accepted, on a sound log. -/
theorem accept_next {node remote : Node} {pre post : List Acceptance} {a : Acceptance}
    (h : NodeRun P params verifier pre node) (hsound : node.storageFaulted = false)
    (hremote : NodeRun P params verifier accepted remote)
    (hperm : (pre ++ a :: post).Perm accepted)
    (hparent : a.parent ∈ acceptedIds P params.genesisHash pre) :
    ∃ node', NodeRun P params verifier (pre ++ [a]) node' ∧ node'.storageFaulted = false := by
  have htree := h.consistent.follows.tree
  have htree' := hremote.consistent.follows.tree
  have ha : a ∈ accepted := hperm.subset (List.mem_append_right _ List.mem_cons_self)
  have hpre : ∀ b ∈ pre, b ∈ accepted := fun b hb => hperm.subset (List.mem_append_left _ hb)
  have hsame : SameBlocks P pre accepted := by
    intro b hb c hc hid
    rw [htree'.acceptance_unique (hpre b hb) hc hid]
  have hnew : ¬node.index.contains (a.id P) = true := by
    intro hcontains
    rcases List.mem_cons.mp (htree.contains_iff.mp hcontains) with hid | hid
    · exact htree'.id_ne_genesis ha (hid.trans (htree.genesis.trans htree'.genesis.symm))
    · have hnodup := (hperm.map (·.id P)).nodup_iff.mpr (List.nodup_cons.mp htree'.nodup).2
      rw [List.map_append, List.map_cons] at hnodup
      exact (List.nodup_append.mp hnodup).2.2 _ hid _ List.mem_cons_self rfl
  obtain ⟨_, _, _, _, _, _, hafter⟩ := htree'.entry a ha
  obtain ⟨base, _, hbase, hvalid, _⟩ := stateAfter_snoc.mp hafter
  have htimely : Timely params a.acceptedAt a.block := by
    rw [← stateAfter_params hbase]
    exact validateBlock_isTimely hvalid
  obtain ⟨⟨prepared, record⟩, hstage⟩ := stageBlock_transfer h.consistent hremote.consistent hsame
    hsound ha (htree.contains_iff.mpr (htree.genesis ▸ hparent)) hnew htimely
  obtain ⟨fees, node', hsubmit, haccepts⟩ := submitBlock_synced h.consistent hstage
  refine ⟨node', h.accepted hsubmit, ?_⟩
  rw [haccepts.unchanged]
  exact hsound

/-- A fresh node accepts the blocks of another one in every order that puts
parents first, each at the time it was accepted at there. -/
theorem reorder {node : Node} (h : NodeRun P params verifier accepted node)
    {order : List Acceptance} (hperm : order.Perm accepted)
    (hparents : ParentFirst P params.genesisHash order) :
    ∃ node', NodeRun P params verifier order node' ∧ node'.storageFaulted = false := by
  have hparts : ∀ pre post, order = pre ++ post →
      ∃ node', NodeRun P params verifier pre node' ∧ node'.storageFaulted = false := by
    intro pre
    induction pre using List.reverseRecOn with
    | nil =>
        intro _ _
        obtain ⟨state, hnew⟩ := h.consistent.follows.tree.created
        exact ⟨_, .opened (open_empty_eq_ok.mpr ⟨state, hnew, rfl⟩), rfl⟩
    | append_singleton pre a ih =>
        intro post horder
        rw [List.append_assoc, List.singleton_append] at horder
        obtain ⟨node', hrun, hsound⟩ := ih (a :: post) horder
        exact accept_next hrun hsound h (horder ▸ hperm) (hparents pre a post horder)
  exact hparts order [] (List.append_nil order).symm

/-! ## The fork of the sample network, in another order -/

def sampleForkReordered : List Acceptance := [sampleRival, sampleRivalChild, sampleFirst]

def sampleNodeReordered : Node :=
  (sampleSubmit sampleNode₀ sampleForkReordered).getD sampleNode₀

theorem sampleNodeReordered_run :
    NodeRun samplePlatform sampleParams sampleVerifier sampleForkReordered
      sampleNodeReordered := by
  have hsome : (sampleSubmit sampleNode₀ sampleForkReordered).isSome := by decide +kernel
  exact sampleSubmit_getD_run sampleNode₀_run hsome

theorem sampleFork_mem (a : Acceptance) : a ∈ sampleFork ↔ a ∈ sampleForkReordered := by
  rw [sampleFork, sampleForkReordered]
  simp only [List.mem_cons, List.not_mem_nil, or_false]
  rw [or_comm, or_assoc]

theorem sampleNode_heaviest : ∀ b ∈ sampleFork,
    b.id samplePlatform = sampleRivalChild.id samplePlatform ∨
      sampleNode.index.weight (b.id samplePlatform) <
        sampleNode.index.weight (sampleRivalChild.id samplePlatform) := by
  decide +kernel

/-- The child of the rival outweighs the rest, so both orders end on its branch. -/
theorem converge_sample :
    sampleNode.index.blocks = sampleNodeReordered.index.blocks ∧
      sampleNode.index.activeChain = sampleNodeReordered.index.activeChain ∧
      sampleNode.state = sampleNodeReordered.state := by
  have hsame := SameAccepted.of_mem_iff sampleFork_mem
  have hmem : sampleRivalChild ∈ sampleFork :=
    List.mem_cons_of_mem _ (List.mem_cons_of_mem _ List.mem_cons_self)
  obtain ⟨_, hblocks, _, _, hlive⟩ := converge sampleNode_run sampleNodeReordered_run hsame
  have htree := sampleNode_run.consistent.follows.tree
  exact ⟨hblocks sampleFork_mem, hlive (htree.uniqueHeaviest hmem sampleNode_heaviest)⟩

end CommonFoundry
