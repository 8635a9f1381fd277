/-
# `CommonFoundry.Node.SyncRun` — repeated pulls from a heavier peer

One pull accepts every block of its page that is new to the node
(`Pulling.pull_page`): the page continues a block the node has, and what one node
has accepted another accepts.  So a pull either adds a block of the peer's active
chain or changes nothing at all, and then the next one asks for the same page.

Counting what is missing gives both directions of `sync_progress_iff`.
-/
import CommonFoundry.Node.Extend
import CommonFoundry.Node.Sync

namespace CommonFoundry

open Lib Lib.Outcome

variable {P : Platform} {params : NetworkParams} {verifier : ConsensusPowVerifier}
  {accepted accepted' : List Acceptance} {node remote : Node} {clock : Bytes32 → UInt64}

/-- The active chain of the peer is valid for the node: the clock by which it
will submit them allows the timestamps. -/
def ValidFor (P : Platform) (params : NetworkParams) (clock : Bytes32 → UInt64)
    (accepted' : List Acceptance) (remote : Node) : Prop :=
  ∀ b ∈ accepted', b.id P ∈ remote.index.activeChain → Timely params (clock (b.id P)) b.block

/-- A node that can accept blocks, and the peer it pulls from. -/
structure Pulling (P : Platform) (params : NetworkParams) (verifier : ConsensusPowVerifier)
    (accepted : List Acceptance) (node : Node) (accepted' : List Acceptance) (remote : Node) : Prop
    extends Peers P params verifier accepted node accepted' remote where
  sound : node.storageFaulted = false

namespace Pulling

/-- The peer serves what it has accepted. -/
theorem serveBlock (h : Pulling P params verifier accepted node accepted' remote) {b : Acceptance}
    (hb : b ∈ accepted') : remote.serveBlock P (b.id P) = .ok b.block := by
  have htree := h.remoteRun.consistent.follows.tree
  obtain ⟨_, entry, _, _, hlookup, hentry, hafter⟩ := htree.entry b hb
  obtain ⟨base, validated, hbase, hvalid, _⟩ := stateAfter_snoc.mp hafter
  have hnetwork : b.block.challenge.networkId = remote.params.networkId := by
    rw [(validateBlock_validated hvalid).network, stateAfter_params hbase,
      h.remoteRun.consistent.constant.1]
  have hdecode : decodeBlock P entry.canonical remote.params.networkId = .ok b.block :=
    hnetwork ▸ decodeBlock_encodeBlock hentry.canonical
  have hid : b.block.blockId P = b.id P := rfl
  rw [Node.serveBlock, hlookup, okOr_some, ok_bind, hdecode, mapErr_ok, ok_bind,
    require_pos hid]
  rfl

/-- The node accepts a block of the peer whose parent it has. -/
theorem accept (h : Pulling P params verifier accepted node accepted' remote) {b : Acceptance}
    (hb : b ∈ accepted') (hparent : node.index.contains b.parent = true)
    (hnew : ¬node.index.contains (b.id P) = true) {now : UInt64}
    (htimely : Timely params now b.block) :
    ∃ fees node', node.submitBlock P .synced b.block now = (.ok fees, node') ∧
      Pulling P params verifier (accepted ++ [⟨b.block, now⟩]) node' accepted' remote := by
  obtain ⟨⟨prepared, record⟩, hstage⟩ := stageBlock_transfer h.run.consistent
    h.remoteRun.consistent h.same h.sound hb hparent hnew htimely
  obtain ⟨fees, node', hsubmit, haccepts⟩ :=
    submitBlock_synced (a := ⟨b.block, now⟩) h.run.consistent hstage
  refine ⟨fees, node', hsubmit, ⟨h.run.accepted hsubmit, h.remoteRun, ?_⟩, ?_⟩
  · intro a ha b' hb' hid
    rcases List.mem_append.mp ha with ha | ha
    · exact h.same a ha b' hb' hid
    · obtain rfl := List.mem_singleton.mp ha
      obtain rfl := h.remoteRun.consistent.follows.tree.acceptance_unique hb hb' hid
      rfl
  · rw [haccepts.unchanged]
    exact h.sound

/-- A node that has accepted more holds more. -/
theorem contains_mono {index index' : BlockIndex} {more : List Acceptance}
    (h : IndexOf P params verifier accepted index)
    (h' : IndexOf P params verifier (accepted ++ more) index') {id : Bytes32}
    (hid : index.contains id = true) : index'.contains id = true := by
  have hgenesis : index.genesis = index'.genesis := h.genesis.trans h'.genesis.symm
  have hmem := h.contains_iff.mp hid
  refine h'.contains_iff.mpr ?_
  rw [acceptedIds, hgenesis, ← acceptedIds] at hmem
  rw [acceptedIds, List.map_append, ← List.cons_append]
  exact List.mem_append_left _ hmem

/-- Pulling a segment of the peer's active chain that starts above a block the
node has. -/
theorem pullBlocks_segment (hvalid : ValidFor P params clock accepted' remote)
    (size : Nat) : ∀ (position : Nat) (previous : Option Bytes32) {accepted : List Acceptance}
      {node : Node},
      Pulling P params verifier accepted node accepted' remote →
      (∀ id, remote.index.activeChain[position]? = some id → node.index.contains id = true) →
      (previous = none ∨ previous = remote.index.activeChain[position]?) →
      ∃ more node', pullBlocks P remote clock previous
          ((remote.index.activeChain.drop (position + 1)).take size) node = (.ok (), node') ∧
        Pulling P params verifier (accepted ++ more) node' accepted' remote ∧
        (∀ id ∈ (remote.index.activeChain.drop (position + 1)).take size,
          node'.index.contains id = true) ∧
        ∀ a ∈ more, a.id P ∈ (remote.index.activeChain.drop (position + 1)).take size := by
  induction size with
  | zero =>
      intro position previous accepted node h _ _
      exact ⟨[], node, rfl, (List.append_nil accepted).symm ▸ h, (by nofun), by nofun⟩
  | succ size ih =>
      intro position previous accepted node h hhas hprevious
      rcases Nat.lt_or_ge (position + 1) remote.index.activeChain.length with hlt | hge
      · -- the next block of the active chain, and its parent, which the node has
        have hget := List.getElem?_eq_getElem hlt
        obtain ⟨b, hb, hbid, hparent, _⟩ := h.remoteRun.consistent.chain.above position _ hget
        rw [List.drop_eq_getElem_cons hlt, List.take_succ_cons, ← hbid]
        rw [← hbid] at hget
        have hordered : parentIsOrdered node previous b.block = true := by
          rcases hprevious with rfl | rfl
          · exact hhas _ hparent
          · rw [hparent]
            exact decide_eq_true rfl
        rw [pullBlocks]
        split
        · next hknown =>
            obtain ⟨more, node', hpull, hpeers, hall, honly⟩ := ih (position + 1)
              (some (b.id P)) h
              (fun id hid => Option.some.inj (hget.symm.trans hid) ▸ hknown) (.inr hget.symm)
            have hthere := contains_mono h.run.consistent.follows.tree
              hpeers.run.consistent.follows.tree hknown
            exact ⟨more, node', hpull, hpeers, List.forall_mem_cons.mpr ⟨hthere, hall⟩,
              fun a ha => List.mem_cons_of_mem _ (honly a ha)⟩
        · next hnew =>
            obtain ⟨fees, node₁, hsubmit, hpeers₁⟩ := h.accept hb (hhas _ hparent) hnew
              (hvalid b hb (List.mem_of_getElem? hget))
            have hknown : node₁.index.contains (b.id P) = true :=
              hpeers₁.run.consistent.follows.tree.contains_iff.mpr (by
                rw [acceptedIds_snoc]
                exact List.mem_append_right _ List.mem_cons_self)
            obtain ⟨more, node', hpull, hpeers, hall, honly⟩ := ih (position + 1)
              (some (b.id P)) hpeers₁
              (fun id hid => Option.some.inj (hget.symm.trans hid) ▸ hknown) (.inr hget.symm)
            have hthere := contains_mono hpeers₁.run.consistent.follows.tree
              hpeers.run.consistent.follows.tree hknown
            refine ⟨⟨b.block, clock (b.id P)⟩ :: more, node', ?_, ?_,
              List.forall_mem_cons.mpr ⟨hthere, hall⟩, fun a ha => ?_⟩
            · simp only [h.serveBlock hb, hordered, if_true, hsubmit]
              exact hpull
            · rw [List.append_cons]
              exact hpeers
            · rcases List.mem_cons.mp ha with rfl | ha
              · exact List.mem_cons_self
              · exact List.mem_cons_of_mem _ (honly a ha)
      · rw [List.drop_eq_nil_of_le hge]
        exact ⟨[], node, rfl, (List.append_nil accepted).symm ▸ h, (by nofun), by nofun⟩

/-- One pull: every block of the page is there afterwards, and nothing else is
new. -/
theorem pull_page (h : Pulling P params verifier accepted node accepted' remote)
    (hvalid : ValidFor P params clock accepted' remote) :
    ∃ more, (node.pull P remote clock).1 = .ok () ∧
      Pulling P params verifier (accepted ++ more) (node.pull P remote clock).2 accepted' remote ∧
      (∀ id ∈ node.requests remote, (node.pull P remote clock).2.index.contains id = true) ∧
      ∀ a ∈ more, a.id P ∈ node.requests remote := by
  obtain ⟨shared, hshared, hshared'⟩ := h.shared
  obtain ⟨more, node', hpull, hpeers, hall, honly⟩ := pullBlocks_segment hvalid
    maxBlocksPerSync (node.sharedHeight remote) none h
    (fun id hid => Option.some.inj (hshared'.symm.trans hid) ▸
      h.run.consistent.chain.contains shared (List.mem_of_getElem? hshared)) (.inl rfl)
  rw [← h.requests_eq] at hpull hall honly
  rw [Node.pull, hpull]
  exact ⟨more, rfl, hpeers, hall, honly⟩

/-- What is pulled from a peer that is not heavier does not move the node. -/
theorem pull_unmoved (h : Pulling P params verifier accepted node accepted' remote)
    (hvalid : ValidFor P params clock accepted' remote)
    (hle : remote.index.activeWork ≤ node.index.activeWork) :
    (node.pull P remote clock).2.index.activeChain = node.index.activeChain ∧
      (node.pull P remote clock).2.index.activeWork = node.index.activeWork := by
  obtain ⟨more, _, hpull, hall, honly⟩ := h.pull_page hvalid
  refine h.run.consistent.follows.unmoved hpull.run.consistent.follows fun a ha => ?_
  have hactive : a.id P ∈ remote.index.activeChain := by
    have hid := honly a ha
    rw [h.requests_eq] at hid
    exact List.mem_of_mem_drop (List.mem_of_mem_take hid)
  rw [weight_agree hpull.run.consistent.follows.tree h.remoteRun.consistent.follows.tree hpull.same
    (hall _ (honly a ha)) (h.remoteRun.consistent.chain.contains _ hactive)]
  exact (h.remoteRun.consistent.followsHeaviest.weight_le _).trans hle

/-- A page that the node holds already: the pull changes nothing. -/
theorem pullBlocks_known {ids : List Bytes32}
    (hknown : ∀ id ∈ ids, node.index.contains id = true) (previous : Option Bytes32) :
    pullBlocks P remote clock previous ids node = (.ok (), node) := by
  induction ids generalizing previous with
  | nil => rfl
  | cons id rest ih =>
      rw [pullBlocks, if_pos (hknown id List.mem_cons_self)]
      exact ih (fun id hid => hknown id (List.mem_cons_of_mem _ hid)) _

end Pulling

/-! ## Repeated pulls -/

/-- So many pulls, one after the other. -/
def pullTimes (P : Platform) (remote : Node) (clock : Bytes32 → UInt64) : Nat → Node → Node
  | 0, node => node
  | count + 1, node => pullTimes P remote clock count (node.pull P remote clock).2

/-- The blocks of the peer's active chain that the node does not have. -/
def Node.missing (node remote : Node) : Finset Bytes32 :=
  remote.index.activeChain.toFinset.filter fun id => node.index.contains id = false

theorem pullTimes_add (count more : Nat) (node : Node) :
    pullTimes P remote clock (count + more) node =
      pullTimes P remote clock more (pullTimes P remote clock count node) := by
  induction count generalizing node with
  | zero => rw [Nat.zero_add]; rfl
  | succ count ih =>
      rw [Nat.succ_add]
      exact ih _

/-- A node that has accepted more is at least as heavy. -/
theorem activeWork_mono {node' : Node} {more : List Acceptance}
    (h : node.Consistent P params verifier accepted)
    (h' : node'.Consistent P params verifier (accepted ++ more)) :
    node.index.activeWork ≤ node'.index.activeWork := by
  obtain ⟨live, hlive, _, _, hwork⟩ := h.follows.live
  have htree := h.follows.tree
  have htree' := h'.follows.tree
  have hgenesis : node.index.genesis = node'.index.genesis :=
    htree.genesis.trans htree'.genesis.symm
  have hlive' := (hgenesis ▸ hlive).mono (List.subset_append_left accepted more)
  rw [hwork]
  exact h'.followsHeaviest.activeWork_le _ _ (htree'.workAt hlive')

namespace Pulling

theorem pullTimes (h : Pulling P params verifier accepted node accepted' remote)
    (hvalid : ValidFor P params clock accepted' remote) (count : Nat) :
    ∃ more, Pulling P params verifier (accepted ++ more)
      (pullTimes P remote clock count node) accepted' remote := by
  induction count generalizing accepted node with
  | zero => exact ⟨[], (List.append_nil accepted).symm ▸ h⟩
  | succ count ih =>
      obtain ⟨first, _, hpull, _⟩ := h.pull_page hvalid
      obtain ⟨more, hmore⟩ := ih hpull
      exact ⟨first ++ more, (List.append_assoc accepted first more) ▸ hmore⟩

/-- A pull that resumes takes something off what is missing. -/
theorem missing_lt (h : Pulling P params verifier accepted node accepted' remote)
    (hvalid : ValidFor P params clock accepted' remote)
    (hwork : node.index.activeWork < remote.index.activeWork)
    (hresumes : node.SyncResumes remote) :
    ((node.pull P remote clock).2.missing remote).card < (node.missing remote).card := by
  obtain ⟨more, _, hpull, hall, _⟩ := h.pull_page hvalid
  obtain ⟨id, hid, hnew⟩ := ((h.advances_iff hwork).mpr hresumes).resolve_right (by omega)
  have hactive : id ∈ remote.index.activeChain := by
    rw [h.requests_eq] at hid
    exact List.mem_of_mem_drop (List.mem_of_mem_take hid)
  refine Finset.card_lt_card (Finset.ssubset_iff_of_subset (fun other hother => ?_) |>.mpr
    ⟨id, Finset.mem_filter.mpr ⟨List.mem_toFinset.mpr hactive, hnew⟩, fun hmem => ?_⟩)
  · obtain ⟨hmem, hother⟩ := Finset.mem_filter.mp hother
    refine Finset.mem_filter.mpr ⟨hmem, ?_⟩
    rw [← Bool.not_eq_true] at hother ⊢
    exact fun hhas => hother (contains_mono h.run.consistent.follows.tree
      hpull.run.consistent.follows.tree hhas)
  · have hmissing := (Finset.mem_filter.mp hmem).2
    rw [hall id hid] at hmissing
    cases hmissing

/-- If every pull resumes, the pulls reach the work of the peer. -/
theorem pullTimes_reaches (hvalid : ValidFor P params clock accepted' remote) (size : Nat) :
    ∀ {accepted : List Acceptance} {node : Node},
      Pulling P params verifier accepted node accepted' remote →
      (node.missing remote).card ≤ size →
      (∀ count, (CommonFoundry.pullTimes P remote clock count node).index.activeWork <
          remote.index.activeWork →
        (CommonFoundry.pullTimes P remote clock count node).SyncResumes remote) →
      ∃ count ≤ size, remote.index.activeWork ≤
        (CommonFoundry.pullTimes P remote clock count node).index.activeWork := by
  induction size with
  | zero =>
      intro accepted node h hmissing hresumes
      refine ⟨0, le_rfl, Nat.not_lt.mp fun hwork => ?_⟩
      have hlt := h.missing_lt hvalid hwork (hresumes 0 hwork)
      omega
  | succ size ih =>
      intro accepted node h hmissing hresumes
      rcases Nat.lt_or_ge node.index.activeWork remote.index.activeWork with hwork | hdone
      · obtain ⟨more, _, hpull, _⟩ := h.pull_page hvalid
        have hlt := h.missing_lt hvalid hwork (hresumes 0 hwork)
        obtain ⟨count, hcount, hreached⟩ :=
          ih hpull (by omega) fun count => hresumes (count + 1)
        exact ⟨count + 1, by omega, hreached⟩
      · exact ⟨0, Nat.zero_le _, hdone⟩

/-- A pull that does not resume changes nothing. -/
theorem pull_stuck (h : Pulling P params verifier accepted node accepted' remote)
    (hwork : node.index.activeWork < remote.index.activeWork)
    (hstuck : ¬node.SyncResumes remote) : node.pull P remote clock = (.ok (), node) := by
  refine pullBlocks_known (fun id hid => ?_) none
  rw [← Bool.not_eq_false]
  exact fun hnew => hstuck ((h.advances_iff hwork).mp (.inl ⟨id, hid, hnew⟩))

/-- So a node that is stuck stays as it is. -/
theorem pullTimes_stuck (h : Pulling P params verifier accepted node accepted' remote)
    (hwork : node.index.activeWork < remote.index.activeWork)
    (hstuck : ¬node.SyncResumes remote) (count : Nat) :
    CommonFoundry.pullTimes P remote clock count node = node := by
  induction count with
  | zero => rfl
  | succ count ih =>
      rw [CommonFoundry.pullTimes, h.pull_stuck hwork hstuck]
      exact ih

/-- If the pulls reach the work of the peer, each of them before that resumes. -/
theorem resumes_of_reached (h : Pulling P params verifier accepted node accepted' remote)
    (hvalid : ValidFor P params clock accepted' remote) {reached : Nat}
    (hreached : remote.index.activeWork ≤
      (CommonFoundry.pullTimes P remote clock reached node).index.activeWork) (count : Nat)
    (hwork : (CommonFoundry.pullTimes P remote clock count node).index.activeWork <
      remote.index.activeWork) :
    (CommonFoundry.pullTimes P remote clock count node).SyncResumes remote := by
  by_contra hstuck
  obtain ⟨_, hcount⟩ := h.pullTimes hvalid count
  rcases Nat.le_total count reached with hle | hle
  · obtain ⟨more, rfl⟩ := Nat.exists_eq_add_of_le hle
    rw [pullTimes_add, hcount.pullTimes_stuck hwork hstuck] at hreached
    omega
  · obtain ⟨more, rfl⟩ := Nat.exists_eq_add_of_le hle
    obtain ⟨_, hpeers⟩ := h.pullTimes hvalid reached
    obtain ⟨_, hpeers'⟩ := hpeers.pullTimes hvalid more
    rw [← pullTimes_add] at hpeers'
    have hmono := activeWork_mono hpeers.run.consistent hpeers'.run.consistent
    omega

end Pulling

/-- A pull from a heavier peer brings something new exactly when the node does
not hold the last block of a full page.  If the peer's chain is valid for the
node, and the node is not faulted, repeated pulls reach the work of the peer
exactly when this is so at each of them, and after at most as many as the peer's
chain has blocks. -/
theorem sync_progress_iff (hnode : NodeRun P params verifier accepted node)
    (hremote : NodeRun P params verifier accepted' remote)
    (hsame : SameBlocks P accepted accepted')
    (hwork : node.index.activeWork < remote.index.activeWork) :
    (node.SyncAdvances remote ↔ node.SyncResumes remote) ∧
    (∀ clock, node.storageFaulted = false → ValidFor P params clock accepted' remote →
      ((∃ count ≤ remote.index.activeChain.length, remote.index.activeWork ≤
          (pullTimes P remote clock count node).index.activeWork) ↔
        ∀ count, (pullTimes P remote clock count node).index.activeWork <
            remote.index.activeWork →
          (pullTimes P remote clock count node).SyncResumes remote)) := by
  have hpeers : Peers P params verifier accepted node accepted' remote :=
    ⟨hnode, hremote, hsame⟩
  refine ⟨hpeers.advances_iff hwork, fun clock hsound hvalid => ?_⟩
  have h : Pulling P params verifier accepted node accepted' remote := ⟨hpeers, hsound⟩
  constructor
  · rintro ⟨reached, _, hreached⟩
    exact h.resumes_of_reached hvalid hreached
  · refine fun hresumes => Pulling.pullTimes_reaches hvalid _ h ?_ hresumes
    exact (Finset.card_filter_le _ _).trans (List.toFinset_card_le _)

theorem sync_progress_iff_sample :
    (sampleNode₀.SyncAdvances sampleNode ↔ sampleNode₀.SyncResumes sampleNode) ∧
    ((∃ count ≤ sampleNode.index.activeChain.length, sampleNode.index.activeWork ≤
        (pullTimes samplePlatform sampleNode (fun _ => 1121) count sampleNode₀).index.activeWork) ↔
      ∀ count, (pullTimes samplePlatform sampleNode (fun _ => 1121) count
          sampleNode₀).index.activeWork < sampleNode.index.activeWork →
        (pullTimes samplePlatform sampleNode (fun _ => 1121) count
          sampleNode₀).SyncResumes sampleNode) := by
  have hpast : ∀ b ∈ sampleFork, b.block.challenge.timestamp ≤ 1121 := by decide
  have hfits : (1121 : UInt64).toNat + sampleParams.maxFutureOffsetSecs.toNat < 2 ^ 64 := by decide
  have hvalid : ValidFor samplePlatform sampleParams (fun _ => 1121) sampleFork sampleNode :=
    fun b hb _ => timely_of_le hfits (hpast b hb)
  obtain ⟨hpull, hpulls⟩ := sync_progress_iff sampleNode₀_run sampleNode_run (by nofun)
    (activeWork_pos sampleNode_run.consistent List.mem_cons_self)
  exact ⟨hpull, hpulls _ rfl hvalid⟩

/-! ## A node that is stuck -/

/-- A node that pulls a page of no more work than its own chain has is stuck as
soon as its peer adds a block: it holds the page, and has not moved. -/
theorem Pulling.stalls (h : Pulling P params verifier accepted node accepted' remote)
    (hvalid : ValidFor P params clock accepted' remote) {own page : List Bytes32}
    (hchain : node.index.activeChain = node.index.genesis :: own)
    (hchain' : remote.index.activeChain = node.index.genesis :: page)
    (hdisjoint : ∀ id ∈ own, id ∉ page) (hlength : page.length = maxBlocksPerSync)
    (hle : remote.index.activeWork ≤ node.index.activeWork) {b : Acceptance} {later : Node}
    (hlater : NodeRun P params verifier (accepted' ++ [b]) later)
    (hgrown : later.index.activeChain = remote.index.activeChain ++ [b.id P])
    (hwork : node.index.activeWork < later.index.activeWork)
    (hnew : b.id P ∉ acceptedIds P node.index.genesis accepted) :
    ∃ more, Pulling P params verifier (accepted ++ more) (node.pull P remote clock).2
        (accepted' ++ [b]) later ∧
      (node.pull P remote clock).2.index.activeWork < later.index.activeWork ∧
      ¬(node.pull P remote clock).2.SyncResumes later := by
  obtain ⟨more, _, hpull, hall, honly⟩ := h.pull_page hvalid
  obtain ⟨hchain₁, hwork₁⟩ := h.pull_unmoved hvalid hle
  have hpage : node.requests remote = page := by
    rw [h.requests_eq, sharedHeight_eq_zero hchain hchain' hdisjoint, hchain', Nat.zero_add,
      List.drop_succ_cons, List.drop_zero, ← hlength, List.take_length]
  have hcontained : ∀ id ∈ page, id ∈ acceptedIds P later.index.genesis accepted' := by
    intro id hid
    rw [hlater.consistent.follows.tree.genesis, ← h.remoteRun.consistent.follows.tree.genesis]
    refine h.remoteRun.consistent.follows.tree.contains_iff.mp
      (h.remoteRun.consistent.chain.contains id ?_)
    rw [hchain']
    exact List.mem_cons_of_mem _ hid
  have hfresh : b.id P ∉ acceptedIds P later.index.genesis accepted' := by
    have hnodup := hlater.consistent.follows.tree.nodup
    rw [acceptedIds_snoc] at hnodup
    exact fun hmem => List.disjoint_of_nodup_append hnodup hmem List.mem_cons_self
  refine ⟨more, ⟨⟨hpull.run, hlater, ?_⟩, hpull.sound⟩, by rw [hwork₁]; exact hwork, ?_⟩
  · intro a ha c hc hid
    rcases List.mem_append.mp hc with hc | hc
    · exact hpull.same a ha c hc hid
    · rw [List.mem_singleton.mp hc] at hid
      rcases List.mem_append.mp ha with ha | ha
      · exact absurd (List.mem_cons_of_mem _ (List.mem_map.mpr ⟨a, ha, hid⟩)) hnew
      · exact absurd (hid ▸ hcontained _ (hpage ▸ honly a ha)) hfresh
  · -- its chain still shares genesis alone with that of the peer
    have hshared : (node.pull P remote clock).2.sharedHeight later = 0 := by
      refine sharedHeight_eq_zero (hchain₁.trans hchain)
        (hgrown.trans (congrArg (· ++ [b.id P]) hchain')) fun id hid hmem => ?_
      rcases List.mem_append.mp hmem with hmem | hmem
      · exact hdisjoint id hid hmem
      · rw [← List.mem_singleton.mp hmem] at hnew
        refine hnew (h.run.consistent.follows.tree.contains_iff.mp
          (h.run.consistent.chain.contains id ?_))
        rw [hchain]
        exact List.mem_cons_of_mem _ hid
    intro hresumes
    have hfull : 15 < page.length := by
      rw [hlength]
      decide
    have hlast : page[15]? = some page[15] := List.getElem?_eq_getElem hfull
    have hmissing := hresumes page[15] (by
      rw [hshared, hgrown, hchain']
      show (page ++ [b.id P])[15]? = _
      rw [List.getElem?_append_left hfull, hlast])
    rw [hall _ (hpage.symm ▸ List.getElem_mem hfull)] at hmissing
    cases hmissing

/-! Four blocks of a node's own, a page of sixteen easier blocks of the peer with
the same work in all, and one more block of the peer. -/

/-- What there is to know about these blocks. -/
structure Stalls (own page : List Acceptance) (last : Acceptance) : Prop where
  nodup : (sampleParams.genesisHash :: (own.map (·.id samplePlatform) ++
    (page.map (·.id samplePlatform) ++ [last.id samplePlatform]))).Nodup
  length : page.length = maxBlocksPerSync
  ownWork : branchWork own = 16
  pageWork : branchWork page = 16
  lastWork : last.work = 1
  timestamps : ∀ b ∈ page ++ [last], b.block.challenge.timestamp ≤ 3040

instance (own page : List Acceptance) (last : Acceptance) : Decidable (Stalls own page last) :=
  decidable_of_iff (_ ∧ _ ∧ _ ∧ _ ∧ _ ∧ _)
    ⟨fun h => ⟨h.1, h.2.1, h.2.2.1, h.2.2.2.1, h.2.2.2.2.1, h.2.2.2.2.2⟩,
      fun h => ⟨h.1, h.2, h.3, h.4, h.5, h.6⟩⟩

theorem sampleChains_stall : ∃ own page last, ∃ ownTip pageTip lastTip : ChainState,
    sampleChain sampleGenesis [1001, 1150, 1180, 1240] = some (own, ownTip) ∧
    sampleChain sampleGenesis [1120, 1240, 1360, 1480, 1600, 1720, 1840, 1960, 2080, 2200, 2320,
      2440, 2560, 2680, 2800, 2920] = some (page, pageTip) ∧
    sampleExtend pageTip 3040 = some (last, lastTip) ∧ Stalls own page last := by
  have h : (do
      let own ← sampleChain sampleGenesis [1001, 1150, 1180, 1240]
      let page ← sampleChain sampleGenesis [1120, 1240, 1360, 1480, 1600, 1720, 1840, 1960, 2080,
        2200, 2320, 2440, 2560, 2680, 2800, 2920]
      let last ← sampleExtend page.2 3040
      guard (Stalls own.1 page.1 last.1) : Option Unit).isSome := by decide +kernel
  obtain ⟨_, h⟩ := Option.isSome_iff_exists.mp h
  simp only [Option.bind_eq_bind, Option.bind_eq_some_iff, Prod.exists,
    Option.guard_eq_some'] at h
  obtain ⟨own, ownTip, hown, page, pageTip, hpage, last, lastTip, hlast, hstalls⟩ := h
  exact ⟨own, page, last, ownTip, pageTip, lastTip, hown, hpage, hlast, hstalls⟩

/-- A node that pulled a page of equal work is stuck once its peer goes on: the
heavier chain is valid for it, and every pull asks for that page again. -/
theorem sync_progress_stalls :
    ∃ (accepted accepted' : List Acceptance) (node remote : Node) (clock : Bytes32 → UInt64),
      NodeRun samplePlatform sampleParams sampleVerifier accepted node ∧
      NodeRun samplePlatform sampleParams sampleVerifier accepted' remote ∧
      SameBlocks samplePlatform accepted accepted' ∧ node.storageFaulted = false ∧
      ValidFor samplePlatform sampleParams clock accepted' remote ∧
      node.index.activeWork < remote.index.activeWork ∧
      ¬node.SyncAdvances remote ∧
      ∀ count, pullTimes samplePlatform remote clock count node = node := by
  obtain ⟨own, page, last, _, pageTip, _, hown, hpage, hlast, hnodup, hlength, hownWork, hpageWork,
    hlastWork, htimes⟩ := sampleChains_stall
  obtain ⟨hgenesisNew, hnodup⟩ := List.nodup_cons.mp hnodup
  obtain ⟨hgenesisOwn, hgenesisPeer⟩ := not_or.mp (List.mem_append.not.mp hgenesisNew)
  obtain ⟨hgenesisPage, hgenesisLast⟩ := not_or.mp (List.mem_append.not.mp hgenesisPeer)
  obtain ⟨hownNodup, hpeerNodup, hdisjoint⟩ := List.nodup_append'.mp hnodup
  obtain ⟨hpageNodup, _, hlastNew⟩ := List.nodup_append'.mp hpeerNodup
  have hlimit : 17 < workLimit := lt_workLimit (by decide)
  -- the node with its own branch, the peer with the page, and the peer later
  obtain ⟨node, hnode, hsound, _, hchain, hwork⟩ := sampleChain_genesis hown
    (List.nodup_cons.mpr ⟨hgenesisOwn, hownNodup⟩) (by omega)
  obtain ⟨remote, hremote, hsound', hstate', hchain', hwork'⟩ := sampleChain_genesis hpage
    (List.nodup_cons.mpr ⟨hgenesisPage, hpageNodup⟩) (by omega)
  have hgenesis : node.index.genesis = sampleParams.genesisHash :=
    hnode.consistent.follows.tree.genesis
  have hgenesis' : remote.index.genesis = sampleParams.genesisHash :=
    hremote.consistent.follows.tree.genesis
  obtain ⟨validated, hvalid, _, hlastTarget⟩ := sampleExtend_valid hlast
  obtain ⟨later, hlater, hextended⟩ := hremote.extend hsound' (hstate' ▸ hvalid) (by
      rw [hgenesis', acceptedIds, List.mem_cons, not_or]
      exact ⟨fun heq => hgenesisLast (heq ▸ List.mem_cons_self),
        fun hmem => hlastNew hmem List.mem_cons_self⟩) hlastTarget (by omega)
  have hlaterWork := hextended.activeWork
  have hpeers : Pulling samplePlatform sampleParams sampleVerifier own node page remote := by
    refine ⟨⟨hnode, hremote, fun a ha b hb hid => ?_⟩, hsound⟩
    have hmem : a.id samplePlatform ∈ page.map (·.id samplePlatform) := by
      rw [hid]
      exact List.mem_map_of_mem hb
    exact absurd (List.mem_append_left _ hmem) (hdisjoint (List.mem_map_of_mem ha))
  -- all of it is valid for the node
  have hfits : (3040 : UInt64).toNat + sampleParams.maxFutureOffsetSecs.toNat < 2 ^ 64 := by decide
  have htimely : ∀ (blocks : List Acceptance) (peer : Node),
      (∀ b ∈ blocks, b.block.challenge.timestamp ≤ 3040) →
      ValidFor samplePlatform sampleParams (fun _ => 3040) blocks peer :=
    fun blocks peer hpast b hb _ =>
      show Timely sampleParams 3040 b.block from timely_of_le hfits (hpast b hb)
  obtain ⟨more, hstuck, hlighter, hresumes⟩ := hpeers.stalls
    (htimely _ _ fun b hb => htimes b (List.mem_append_left _ hb)) hchain
    (hchain'.trans (by rw [hgenesis, hgenesis']))
    (fun id hid hmem => hdisjoint hid (List.mem_append_left _ hmem))
    (by rw [List.length_map, hlength]) (by omega) hlater hextended.activeChain (by omega) (by
      rw [hgenesis, acceptedIds, List.mem_cons, not_or]
      exact ⟨fun heq => hgenesisLast (heq ▸ List.mem_cons_self),
        fun hmem => hdisjoint hmem (List.mem_append_right _ List.mem_cons_self)⟩)
  exact ⟨own ++ more, page ++ [last], _, later, fun _ => 3040, hstuck.run, hstuck.remoteRun,
    hstuck.same, hstuck.sound, htimely _ _ htimes, hlighter,
    fun hadvances => hresumes ((hstuck.advances_iff hlighter).mp hadvances),
    hstuck.pullTimes_stuck hlighter hresumes⟩

end CommonFoundry
