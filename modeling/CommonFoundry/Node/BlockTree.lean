/-
# `CommonFoundry.Node.BlockTree` — the tree of accepted blocks, and what the index says of it

The abstract side is the list of accepted blocks in the order of acceptance, and
nothing else.  A `Branch` is a chain of them from genesis, `branchWork` the sum
of their works, `stateAfter` the chain state they lead to.

`IndexOf` says that the index describes that tree: every block has an entry with
its frame, its parent and the work of its branch, and every branch replays.
Entries are never replaced, so a branch of the tree stays one, with the same
work and the same state (`IndexOf.insert`).

`rebuild_state_to` decodes each frame of a branch and applies it again.  Because
a frame decodes to the block it was made of, that is `stateAfter` of the branch
(`IndexOf.rebuildStateTo_eq_ok`).
-/
import CommonFoundry.Lib.ParentTree
import CommonFoundry.Consensus.ChainRun
import CommonFoundry.Consensus.WireRoundTrip
import CommonFoundry.Node.BlockIndex

namespace CommonFoundry

open Lib Lib.Outcome

/-! ## Branches of accepted blocks -/

/-- A block, and the time it was validated at. -/
structure Acceptance where
  block : Block
  acceptedAt : UInt64

namespace Acceptance

def id (P : Platform) (acceptance : Acceptance) : Bytes32 := acceptance.block.blockId P

def parent (acceptance : Acceptance) : Bytes32 := acceptance.block.challenge.previousBlock

/-- `block_work` of the block's target; no accepted block has the zero target,
for which there is none. -/
def work (acceptance : Acceptance) : Nat :=
  match blockWork acceptance.block.challenge.target with
  | .ok work => work
  | .error _ => 0

def context (acceptance : Acceptance) : BlockValidationContext :=
  { nowUnixSeconds := acceptance.acceptedAt }

theorem work_eq {acceptance : Acceptance} {work : Nat}
    (h : blockWork acceptance.block.challenge.target = .ok work) : acceptance.work = work := by
  rw [Acceptance.work, h]

end Acceptance

/-- Accepted blocks from genesis to the named one, each the child of the one
before. -/
inductive Branch (P : Platform) (genesis : Bytes32) (accepted : List Acceptance) :
    Bytes32 → List Acceptance → Prop
  | genesis : Branch P genesis accepted genesis []
  | child {acceptance : Acceptance} {branch : List Acceptance} : acceptance ∈ accepted →
      Branch P genesis accepted acceptance.parent branch →
      Branch P genesis accepted (acceptance.id P) (branch ++ [acceptance])

/-- The sum of `block_work` over a branch. -/
def branchWork (branch : List Acceptance) : Nat := (branch.map Acceptance.work).sum

/-- The chain state that a branch leads to from genesis. -/
def stateAfter (P : Platform) (params : NetworkParams) (verifier : ConsensusPowVerifier)
    (branch : List Acceptance) : Outcome ChainError ChainState := do
  let state ← ChainState.new P params verifier
  branch.foldlM (fun state acceptance => do
    let (_, state) ← state.validateAndApply P acceptance.block acceptance.context
    pure state) state

variable {P : Platform}

theorem Branch.mono {genesis id : Bytes32} {accepted accepted' branch : List Acceptance}
    (h : Branch P genesis accepted id branch) (hsub : accepted ⊆ accepted') :
    Branch P genesis accepted' id branch := by
  induction h with
  | genesis => exact .genesis
  | child hmem _ ih => exact .child (hsub hmem) ih

theorem Branch.subset {genesis id : Bytes32} {accepted branch : List Acceptance}
    (h : Branch P genesis accepted id branch) : branch ⊆ accepted := by
  induction h with
  | genesis => exact List.nil_subset _
  | child hmem _ ih =>
      exact List.append_subset.mpr ⟨ih, List.cons_subset.mpr ⟨hmem, List.nil_subset _⟩⟩

theorem branchWork_snoc (branch : List Acceptance) (acceptance : Acceptance) :
    branchWork (branch ++ [acceptance]) = branchWork branch + acceptance.work := by
  rw [branchWork, List.map_append, List.sum_append]
  rfl

section StateAfter

variable {params : NetworkParams} {verifier : ConsensusPowVerifier} {branch : List Acceptance}
  {state : ChainState}

theorem stateAfter_snoc {acceptance : Acceptance} :
    stateAfter P params verifier (branch ++ [acceptance]) = .ok state ↔
      ∃ base validated, stateAfter P params verifier branch = .ok base ∧
        base.validateBlock P acceptance.block acceptance.context = .ok validated ∧
        state = base.advance validated := by
  simp only [stateAfter, bind_eq_ok, foldlM_append_eq_ok, foldlM_cons_eq_ok, List.foldlM_nil,
    pure_eq_ok, Prod.exists, validateAndApply_eq_ok]
  constructor
  · rintro ⟨start, hnew, base, hbase, _, ⟨_, _, ⟨validated, hvalid, rfl, rfl⟩, rfl⟩, rfl⟩
    exact ⟨base, validated, ⟨start, hnew, hbase⟩, hvalid, rfl⟩
  · rintro ⟨base, validated, ⟨start, hnew, hbase⟩, hvalid, rfl⟩
    exact ⟨start, hnew, base, hbase, _, ⟨_, _, ⟨validated, hvalid, rfl, rfl⟩, rfl⟩, rfl⟩

/-- A branch that replays is a run of the chain. -/
theorem stateAfter_run (h : stateAfter P params verifier branch = .ok state) :
    ∃ accepted, ChainRun P params verifier accepted state ∧
      accepted.map (fun a => (⟨a.block, a.context.nowUnixSeconds⟩ : Acceptance)) = branch := by
  induction branch using List.reverseRecOn generalizing state with
  | nil =>
      simp only [stateAfter, bind_eq_ok, List.foldlM_nil, pure_eq_ok] at h
      obtain ⟨_, hnew, rfl⟩ := h
      exact ⟨[], .new hnew, rfl⟩
  | append_singleton branch acceptance ih =>
      obtain ⟨base, validated, hbase, hvalid, rfl⟩ := stateAfter_snoc.mp h
      obtain ⟨accepted, hrun, hmap⟩ := ih hbase
      refine ⟨_, hrun.step (validateAndApply_eq_ok.mpr ⟨validated, hvalid, rfl, rfl⟩), ?_⟩
      rw [List.map_append, hmap]
      rfl

theorem stateAfter_params (h : stateAfter P params verifier branch = .ok state) :
    state.params = params := by
  obtain ⟨_, hrun, _⟩ := stateAfter_run h
  exact hrun.constant.1

theorem stateAfter_nextHeight (h : stateAfter P params verifier branch = .ok state) :
    state.nextHeight.toNat = branch.length + 1 := by
  obtain ⟨accepted, hrun, rfl⟩ := stateAfter_run h
  rw [hrun.nextHeight, List.length_map]

theorem stateAfter_tip {genesis id : Bytes32} {accepted : List Acceptance}
    (hgenesis : genesis = params.genesisHash) (hbranch : Branch P genesis accepted id branch)
    (h : stateAfter P params verifier branch = .ok state) : state.tip = id := by
  cases hbranch with
  | genesis =>
      simp only [stateAfter, bind_eq_ok, List.foldlM_nil, pure_eq_ok] at h
      obtain ⟨_, hnew, rfl⟩ := h
      exact (new_eq_ok hnew).2.2.2.2.2.1.trans hgenesis.symm
  | child _ _ =>
      obtain ⟨base, validated, _, hvalid, rfl⟩ := stateAfter_snoc.mp h
      exact (validateBlock_validated hvalid).nextTip

end StateAfter

/-! ## The index describes the tree -/

/-- The entry of an accepted block whose branch has this work. -/
structure EntryOf (P : Platform) (acceptance : Acceptance) (work : Nat) (entry : IndexedBlock) :
    Prop where
  canonical : encodeBlock P acceptance.block = .ok entry.canonical
  parent : entry.parent = acceptance.parent
  height : entry.height = acceptance.block.challenge.height
  acceptedAt : entry.acceptedAt = acceptance.acceptedAt
  cumulativeWork : entry.cumulativeWork = work
  blockWork : blockWork acceptance.block.challenge.target = .ok acceptance.work
  bounded : work < workLimit

/-- The identifiers of accepted blocks, virtual genesis first. -/
def acceptedIds (P : Platform) (genesis : Bytes32) (accepted : List Acceptance) : List Bytes32 :=
  genesis :: accepted.map (·.id P)

theorem acceptedIds_snoc (genesis : Bytes32) (accepted : List Acceptance) (a : Acceptance) :
    acceptedIds P genesis (accepted ++ [a]) = acceptedIds P genesis accepted ++ [a.id P] := by
  rw [acceptedIds, List.map_append]
  rfl

theorem Branch.mem_acceptedIds {genesis id : Bytes32} {accepted branch : List Acceptance}
    (h : Branch P genesis accepted id branch) : id ∈ acceptedIds P genesis accepted := by
  cases h with
  | genesis => exact List.mem_cons_self
  | child hmem _ => exact List.mem_cons_of_mem _ (List.mem_map.mpr ⟨_, hmem, rfl⟩)

structure IndexOf (P : Platform) (params : NetworkParams) (verifier : ConsensusPowVerifier)
    (accepted : List Acceptance) (index : BlockIndex) : Prop where
  genesis : index.genesis = params.genesisHash
  created : ∃ state, ChainState.new P params verifier = .ok state
  nodup : (acceptedIds P index.genesis accepted).Nodup
  lookup : ∀ id entry, index.blocks.lookup id = some entry → ∃ a ∈ accepted, a.id P = id
  entry : ∀ a ∈ accepted, ∃ branch entry state, Branch P index.genesis accepted a.parent branch ∧
    index.blocks.lookup (a.id P) = some entry ∧
    EntryOf P a (branchWork (branch ++ [a])) entry ∧
    stateAfter P params verifier (branch ++ [a]) = .ok state

namespace IndexOf

variable {params : NetworkParams} {verifier : ConsensusPowVerifier} {accepted : List Acceptance}
  {index : BlockIndex}

/-- The key of an accepted block is not that of genesis. -/
theorem id_ne_genesis (h : IndexOf P params verifier accepted index) {a : Acceptance}
    (ha : a ∈ accepted) : a.id P ≠ index.genesis := by
  intro heq
  exact (List.nodup_cons.mp h.nodup).1 (heq ▸ List.mem_map.mpr ⟨a, ha, rfl⟩)

theorem path (h : IndexOf P params verifier accepted index) {id : Bytes32}
    {branch : List Acceptance} (hbranch : Branch P index.genesis accepted id branch) :
    ParentTree.Path index.genesis IndexedBlock.parent index.blocks id
      (branch.map (·.id P)) := by
  induction hbranch with
  | genesis => exact .root
  | child hmem _ ih =>
      obtain ⟨_, entry, _, _, hlookup, hentry, _⟩ := h.entry _ hmem
      rw [List.map_append]
      exact .node (h.id_ne_genesis hmem) hlookup (hentry.parent ▸ ih)

/-- Two accepted blocks with one key are one. -/
theorem acceptance_unique (h : IndexOf P params verifier accepted index) {a a' : Acceptance}
    (ha : a ∈ accepted) (ha' : a' ∈ accepted) (hid : a.id P = a'.id P) : a = a' :=
  List.inj_on_of_nodup_map (List.nodup_cons.mp h.nodup).2 ha ha' hid

theorem branch_unique (h : IndexOf P params verifier accepted index) {id id' : Bytes32}
    {branch branch' : List Acceptance} (hbranch : Branch P index.genesis accepted id branch)
    (hbranch' : Branch P index.genesis accepted id' branch') (hid : id' = id) :
    branch' = branch := by
  induction hbranch generalizing id' branch' with
  | genesis =>
      cases hbranch' with
      | genesis => rfl
      | child hmem _ => exact absurd hid (h.id_ne_genesis hmem)
  | child hmem _ ih =>
      cases hbranch' with
      | genesis => exact absurd hid.symm (h.id_ne_genesis hmem)
      | child hmem' hrest =>
          obtain rfl := h.acceptance_unique hmem' hmem hid
          rw [ih hrest rfl]

theorem contains_iff (h : IndexOf P params verifier accepted index) {id : Bytes32} :
    index.contains id = true ↔ id ∈ acceptedIds P index.genesis accepted := by
  simp only [BlockIndex.contains, Bool.or_eq_true, decide_eq_true_eq, acceptedIds,
    List.mem_cons, List.mem_map]
  refine or_congr_right ⟨fun hsome => ?_, ?_⟩
  · obtain ⟨entry, hlookup⟩ := Option.isSome_iff_exists.mp hsome
    exact h.lookup id entry hlookup
  · rintro ⟨a, ha, rfl⟩
    obtain ⟨_, entry, _, _, hlookup, _⟩ := h.entry a ha
    exact Option.isSome_iff_exists.mpr ⟨entry, hlookup⟩

theorem contains_of_workAt {id : Bytes32} {work : Nat} (h : index.workAt id = some work) :
    index.contains id = true := by
  simp only [BlockIndex.contains, Bool.or_eq_true, decide_eq_true_eq]
  simp only [BlockIndex.workAt] at h
  split at h
  · next hgenesis => exact .inl hgenesis
  · obtain ⟨entry, hlookup, _⟩ := Option.map_eq_some_iff.mp h
    exact .inr (Option.isSome_iff_exists.mpr ⟨entry, hlookup⟩)

/-- Every key of the tree has a branch, and the branch replays. -/
theorem exists_branch (h : IndexOf P params verifier accepted index) {id : Bytes32}
    (hid : id ∈ acceptedIds P index.genesis accepted) :
    ∃ branch state, Branch P index.genesis accepted id branch ∧
      stateAfter P params verifier branch = .ok state := by
  rcases List.mem_cons.mp hid with rfl | hid
  · obtain ⟨state, hnew⟩ := h.created
    refine ⟨[], state, .genesis, ?_⟩
    simp only [stateAfter, hnew, ok_bind, List.foldlM_nil, pure_eq_ok]
  · obtain ⟨a, ha, rfl⟩ := List.mem_map.mp hid
    obtain ⟨branch, _, state, hbranch, _, _, hstate⟩ := h.entry a ha
    exact ⟨_, state, .child ha hbranch, hstate⟩

theorem workAt (h : IndexOf P params verifier accepted index) {id : Bytes32}
    {branch : List Acceptance} (hbranch : Branch P index.genesis accepted id branch) :
    index.workAt id = some (branchWork branch) := by
  cases hbranch with
  | genesis => exact if_pos rfl
  | @child a _ hmem hrest =>
      obtain ⟨_, entry, _, hparent, hlookup, hentry, _⟩ := h.entry a hmem
      rw [BlockIndex.workAt, if_neg (h.id_ne_genesis hmem), hlookup, Option.map_some,
        hentry.cumulativeWork, h.branch_unique hrest hparent rfl]

/-- The loop of `path_to` finds the path, if it has a turn for each of its keys. -/
theorem pathLoop_eq_ok {cursor : Bytes32} {path : List Bytes32}
    (hpath : ParentTree.Path index.genesis IndexedBlock.parent index.blocks cursor path) :
    ∀ {turns : Nat} {rest : List Bytes32}, path.length ≤ turns →
      index.pathLoop turns cursor rest = .ok (path ++ rest) := by
  induction hpath with
  | root =>
      intro turns rest _
      rw [BlockIndex.pathLoop.eq_def]
      exact if_pos rfl
  | @node cursor entry path hne hlookup _ ih =>
      intro turns rest hlen
      rw [List.length_append, List.length_singleton] at hlen
      obtain ⟨turns, rfl⟩ : ∃ n, turns = n + 1 := ⟨turns - 1, by omega⟩
      rw [BlockIndex.pathLoop, if_neg hne]
      simp only [hlookup, okOr_some, ok_bind]
      rw [ih (by omega), List.append_assoc]
      rfl

theorem pathTo (h : IndexOf P params verifier accepted index) {id : Bytes32}
    {branch : List Acceptance} (hbranch : Branch P index.genesis accepted id branch) :
    index.pathTo id = .ok (branch.map (·.id P)) := by
  have hpath := h.path hbranch
  rw [BlockIndex.pathTo, pathLoop_eq_ok hpath hpath.length_le, List.append_nil]

/-! ## Rebuilding -/

/-- Replaying an entry is validating and applying the block it was made for. -/
theorem replayIndexed_eq_ok {a : Acceptance} {work : Nat} {entry : IndexedBlock}
    {networkId : Bytes32} {state state' : ChainState}
    (hlookup : index.blocks.lookup (a.id P) = some entry) (hentry : EntryOf P a work entry)
    (hnetwork : a.block.challenge.networkId = networkId) :
    replayIndexed P index networkId state (a.id P) = .ok state' ↔
      ∃ validated, state.validateBlock P a.block a.context = .ok validated ∧
        state' = state.advance validated := by
  have hdecode : decodeBlock P entry.canonical networkId = .ok a.block :=
    hnetwork ▸ decodeBlock_encodeBlock hentry.canonical
  have hcontext : a.context = { nowUnixSeconds := entry.acceptedAt } := by
    rw [Acceptance.context, hentry.acceptedAt]
  rw [hcontext]
  simp only [replayIndexed, bind_eq_ok, okOr_eq_ok, mapErr_eq_ok, require_eq_ok, pure_eq_ok,
    Prod.exists, hlookup]
  constructor
  · rintro ⟨_, hsome, block, hblock, _, _, fees, _, happly, rfl⟩
    obtain rfl := Option.some.inj hsome
    obtain rfl := Except.ok.inj (hdecode.symm.trans hblock)
    obtain ⟨validated, hvalid, _, rfl⟩ := validateAndApply_eq_ok.mp happly
    exact ⟨validated, hvalid, rfl⟩
  · rintro ⟨validated, hvalid, rfl⟩
    refine ⟨entry, rfl, a.block, hdecode, (), ?_, validated.fees, _,
      validateAndApply_eq_ok.mpr ⟨validated, hvalid, rfl, rfl⟩, rfl⟩
    rw [hentry.parent, hentry.height]
    exact fun hne => hne.elim (· rfl) fun hne => hne.elim (· rfl) (· rfl)

/-- Replaying the entries of a branch of the tree is replaying its blocks. -/
theorem foldlM_replayIndexed (h : IndexOf P params verifier accepted index) {id : Bytes32}
    {branch : List Acceptance} (hbranch : Branch P index.genesis accepted id branch)
    {start state : ChainState} (hnew : ChainState.new P params verifier = .ok start) :
    (branch.map (·.id P)).foldlM (replayIndexed P index params.networkId) start = .ok state ↔
      stateAfter P params verifier branch = .ok state := by
  induction hbranch generalizing state with
  | genesis =>
      simp only [stateAfter, hnew, ok_bind, List.map_nil, List.foldlM_nil, pure_eq_ok]
  | @child a branch hmem _ ih =>
      obtain ⟨_, entry, _, _, hlookup, hentry, hstate⟩ := h.entry a hmem
      obtain ⟨base, validated, hbase, hvalid, _⟩ := stateAfter_snoc.mp hstate
      have hnetwork : a.block.challenge.networkId = params.networkId :=
        (validateBlock_validated hvalid).network.trans (by rw [stateAfter_params hbase])
      rw [List.map_append, foldlM_append_eq_ok, stateAfter_snoc]
      simp only [List.map_cons, List.map_nil, foldlM_cons_eq_ok, List.foldlM_nil, pure_eq_ok,
        replayIndexed_eq_ok hlookup hentry hnetwork, ih]
      constructor
      · rintro ⟨base, hbase, _, ⟨validated, hvalid, rfl⟩, rfl⟩
        exact ⟨base, validated, hbase, hvalid, rfl⟩
      · rintro ⟨base, validated, hbase, hvalid, rfl⟩
        exact ⟨base, hbase, _, ⟨validated, hvalid, rfl⟩, rfl⟩

theorem rebuildStateTo_eq_ok (h : IndexOf P params verifier accepted index) {id : Bytes32}
    {branch : List Acceptance} (hbranch : Branch P index.genesis accepted id branch)
    {state : ChainState} :
    rebuildStateTo P index params verifier id = .ok state ↔
      stateAfter P params verifier branch = .ok state := by
  obtain ⟨start, hnew⟩ := h.created
  rw [← h.foldlM_replayIndexed hbranch hnew]
  simp only [rebuildStateTo, hnew, mapErr_ok, ok_bind, h.pathTo hbranch]

/-- Growing at a leaf: an unused key, under a branch of the tree. -/
theorem insert (h : IndexOf P params verifier accepted index) {a : Acceptance}
    {branch : List Acceptance} {entry : IndexedBlock} {state : ChainState}
    (hfresh : a.id P ∉ acceptedIds P index.genesis accepted)
    (hbranch : Branch P index.genesis accepted a.parent branch)
    (hentry : EntryOf P a (branchWork (branch ++ [a])) entry)
    (hstate : stateAfter P params verifier (branch ++ [a]) = .ok state)
    {index' : BlockIndex} (hgenesis : index'.genesis = index.genesis)
    (hblocks : index'.blocks = index.blocks.insert (a.id P) entry) :
    IndexOf P params verifier (accepted ++ [a]) index' := by
  have hsub : accepted ⊆ accepted ++ [a] := List.subset_append_left _ _
  refine ⟨hgenesis.trans h.genesis, h.created, ?_, ?_, ?_⟩
  · rw [acceptedIds_snoc, hgenesis]
    refine List.nodup_append.mpr ⟨h.nodup, List.nodup_singleton _, ?_⟩
    rintro id hid _ hself rfl
    rw [List.mem_singleton.mp hself] at hid
    exact hfresh hid
  · intro id entry' hlookup
    rw [hblocks] at hlookup
    by_cases hid : id = a.id P
    · exact ⟨a, List.mem_append_right _ List.mem_cons_self, hid.symm⟩
    · rw [Finmap.lookup_insert_of_ne _ hid] at hlookup
      obtain ⟨a', ha', hid'⟩ := h.lookup id entry' hlookup
      exact ⟨a', hsub ha', hid'⟩
  · intro a' ha'
    rw [hgenesis, hblocks]
    rcases List.mem_append.mp ha' with ha' | ha'
    · obtain ⟨branch', entry', state', hbranch', hlookup', hentry', hstate'⟩ := h.entry a' ha'
      refine ⟨branch', entry', state', hbranch'.mono hsub, ?_, hentry', hstate'⟩
      rw [Finmap.lookup_insert_of_ne _ ?_]
      · exact hlookup'
      · rintro heq
        exact hfresh (heq ▸ List.mem_cons_of_mem _ (List.mem_map.mpr ⟨a', ha', rfl⟩))
    · obtain rfl := List.mem_singleton.mp ha'
      exact ⟨branch, entry, state, hbranch.mono hsub, Finmap.lookup_insert _, hentry, hstate⟩

end IndexOf

end CommonFoundry
