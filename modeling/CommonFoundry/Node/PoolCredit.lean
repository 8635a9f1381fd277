/-
# `CommonFoundry.Node.PoolCredit` — every share is credited once

The invariant of the pool has two parts.  `Data` is about what the locks protect: the
jobs have different parents, of which only the current one may be the tip, and a share
that was credited is in the set of its job or its job's parent was left for good.
`Sound` adds where the threads stand: what a thread has evaluated, and what the one that
holds the node has found under the lock.

A section changes what the lock of the node protects only if its thread holds that lock,
and then all others are outside (`Sound.moves`).  So each section has one lemma, and
nothing else is said about interleavings.
-/
import CommonFoundry.Node.PoolRun
import CommonFoundry.Node.TipHistory

namespace CommonFoundry

open Lib Lib.Outcome

variable {P : Platform} {E : PowEvaluation} {params : NetworkParams}
  {verifier : ConsensusPowVerifier}

/-! ## Jobs -/

def ActiveJob.parent (job : ActiveJob) : Bytes32 := job.wire.challenge.previousBlock

/-- The recomputed digest of a nonce is at most this. -/
def ActiveJob.Meets (E : PowEvaluation) (job : ActiveJob) (nonce : UInt64) (target : Bytes32) :
    Prop :=
  ∃ proof, E.evaluate job.mining.verifier job.mining.challenge nonce = .ok proof ∧
    proof.workDigest ≤ target

/-- The jobs are still there, and only their sets of nonces may differ. -/
def SameJobs (jobs jobs' : List ActiveJob) : Prop :=
  ∀ (i : Nat) (job : ActiveJob), jobs[i]? = some job →
    ∃ job' : ActiveJob, jobs'[i]? = some job' ∧ job'.wire = job.wire ∧ job'.mining = job.mining

theorem evaluate_congr {job job' : ActiveJob} (hwire : job'.wire = job.wire)
    (hmining : job'.mining = job.mining) (nonce : UInt64) :
    job'.evaluate E nonce = job.evaluate E nonce := by
  rw [ActiveJob.evaluate, ActiveJob.evaluate, hwire, hmining]

/-- What an evaluated share has shown: its digest meets the share target, and it comes with
the block of the job exactly if it meets the chain target. -/
theorem evaluate_eq_ok {job : ActiveJob} {nonce : UInt64} {block : Option Block}
    (h : job.evaluate E nonce = .ok (.ok block)) :
    ∃ proof, E.evaluate job.mining.verifier job.mining.challenge nonce = .ok proof ∧
      proof.workDigest ≤ job.wire.shareTarget ∧
      block = if proof.workDigest ≤ job.mining.challenge.target then
        some (job.mining.template.block proof) else none := by
  simp only [ActiveJob.evaluate, MiningJob.evaluateShare, MiningJob.evaluateShareUnchecked,
    bind_eq_ok, mapErr_eq_ok, pure_eq_ok] at h
  obtain ⟨_, ⟨_, _, proof, hproof, rfl⟩, h⟩ := h
  refine ⟨proof, hproof, ?_⟩
  split at h
  · cases h
  · next hshare =>
      refine ⟨of_decide_eq_true (not_not.mp hshare), ?_⟩
      split at h
      · next hchain =>
          simp only [MiningJob.buildBlockIfChainValid, bind_eq_ok, mapErr_eq_ok] at h
          obtain ⟨built, ⟨_, _, hbuilt⟩, h⟩ := h
          have hle := of_decide_eq_true hchain
          rw [if_neg (not_lt_of_ge hle), pure_eq_ok] at hbuilt
          subst hbuilt
          rw [MiningJob.challenge, if_pos hle]
          exact (Except.ok.inj (pure_eq_ok.mp h)).symm
      · next hchain =>
          rw [MiningJob.challenge, if_neg fun hle => hchain (decide_eq_true hle)]
          exact (Except.ok.inj (pure_eq_ok.mp h)).symm

theorem SameJobs.refl (jobs : List ActiveJob) : SameJobs jobs jobs :=
  fun _ job hjob => ⟨job, hjob, rfl, rfl⟩

theorem SameJobs.append (jobs more : List ActiveJob) : SameJobs jobs (jobs ++ more) :=
  fun i job hjob => ⟨job, by
    rw [List.getElem?_append_left (List.getElem?_eq_some_iff.mp hjob).1, hjob], rfl, rfl⟩

/-- The jobs after one was replaced. -/
theorem of_getElem?_set {jobs : List ActiveJob} {active i : Nat} {job job' found : ActiveJob}
    (hjob : jobs[active]? = some job) (hfound : (jobs.set active job')[i]? = some found) :
    i = active ∧ found = job' ∨ jobs[i]? = some found := by
  rw [List.getElem?_set] at hfound
  by_cases hi : active = i
  · rw [if_pos hi, if_pos (List.getElem?_eq_some_iff.mp hjob).1] at hfound
    exact .inl ⟨hi.symm, (Option.some.inj hfound).symm⟩
  · rw [if_neg hi] at hfound
    exact .inr hfound

theorem of_getElem?_concat {jobs : List ActiveJob} {i : Nat} {job found : ActiveJob}
    (hfound : (jobs ++ [job])[i]? = some found) :
    i = jobs.length ∧ found = job ∨ jobs[i]? = some found := by
  rcases Nat.lt_trichotomy i jobs.length with hlt | rfl | hgt
  · rw [List.getElem?_append_left hlt] at hfound
    exact .inr hfound
  · rw [List.getElem?_concat_length] at hfound
    exact .inl ⟨rfl, (Option.some.inj hfound).symm⟩
  · rw [List.getElem?_eq_none (by rw [List.length_append, List.length_singleton]; omega)] at hfound
    cases hfound

theorem SameJobs.set {jobs : List ActiveJob} {active : Nat} {job job' : ActiveJob}
    (hjob : jobs[active]? = some job) (hwire : job'.wire = job.wire)
    (hmining : job'.mining = job.mining) : SameJobs jobs (jobs.set active job') := by
  intro i other hother
  rw [List.getElem?_set]
  by_cases hi : active = i
  · subst hi
    obtain rfl := Option.some.inj (hjob.symm.trans hother)
    rw [if_pos rfl, if_pos (List.getElem?_eq_some_iff.mp hjob).1]
    exact ⟨job', rfl, hwire, hmining⟩
  · rw [if_neg hi]
    exact ⟨other, hother, rfl, rfl⟩

/-! ## The history -/

/-- A credit in the history: the job, the share, and whether it was a block. -/
def PoolEvent.credit : PoolEvent → Option (Nat × PoolShare × Bool)
  | .credited _ active share block => some (active, share, block)
  | _ => none

def creditsOf (history : List PoolEvent) : List (Nat × PoolShare × Bool) :=
  history.filterMap PoolEvent.credit

/-- What comes right before a credit: the share was reserved on this tip, and a block was
accepted; nothing else happened in between. -/
inductive LeadsTo (t active : Nat) (nonce : UInt64) (tip : Bytes32) :
    Bool → List PoolEvent → Prop
  | share {earlier : List PoolEvent} :
      LeadsTo t active nonce tip false (.reservation t active nonce tip .reserved :: earlier)
  | block {block : Block} {answer : NonceReservation} {earlier : List PoolEvent} :
      answer ≠ .duplicate →
      LeadsTo t active nonce tip true (.submitted t active nonce block true ::
        .reservation t active nonce tip answer :: earlier)

/-- What a credit is based on. -/
def Justified (E : PowEvaluation) (jobs : List ActiveJob) (t active : Nat) (share : PoolShare)
    (block : Bool) (earlier : List PoolEvent) : Prop :=
  ∃ job, jobs[active]? = some job ∧ share.jobId = job.wire.jobId ∧
    job.Meets E share.nonce job.wire.shareTarget ∧
    LeadsTo t active share.nonce job.parent block earlier

theorem Justified.mono {jobs jobs' : List ActiveJob} (hsame : SameJobs jobs jobs') {t active : Nat}
    {share : PoolShare} {block : Bool} {earlier : List PoolEvent}
    (h : Justified E jobs t active share block earlier) :
    Justified E jobs' t active share block earlier := by
  obtain ⟨job, hjob, hid, hmeets, hleads⟩ := h
  obtain ⟨job', hjob', hwire, hmining⟩ := hsame _ _ hjob
  refine ⟨job', hjob', ?_, ?_, ?_⟩
  · rw [hwire]
    exact hid
  · rw [ActiveJob.Meets, hwire, hmining]
    exact hmeets
  · rw [ActiveJob.parent, hwire]
    exact hleads

namespace PoolServer

/-! ## The invariant -/

/-- The share is in the set of its job, or the parent of the job was left. -/
def Settled (node : Node) (job : ActiveJob) (nonce : UInt64) : Prop :=
  nonce ∈ job.seenNonces ∨ node.Left job.parent

/-- What holds of the data of the pool, whatever the threads are doing. -/
structure Data (P : Platform) (E : PowEvaluation) (params : NetworkParams)
    (verifier : ConsensusPowVerifier) (server : PoolServer) : Prop where
  node : ∃ accepted, NodeRun P params verifier accepted server.node
  current : server.state.current + 1 = server.jobs.length
  challenge : ∀ job ∈ server.jobs, job.wire.challenge = job.mining.challenge
  parents : ∀ (i : Nat) (job : ActiveJob), server.jobs[i]? = some job →
    server.node.Left job.parent ∨ i = server.state.current ∧ server.node.state.tip = job.parent
  distinct : ∀ (i j : Nat) (job job' : ActiveJob), server.jobs[i]? = some job →
    server.jobs[j]? = some job' → job.parent = job'.parent → i = j
  jobIds : ∀ job ∈ server.jobs, ∃ startup nonce sequence,
    .installed (jobIdBytes startup nonce sequence job.wire.challenge job.wire.shareTarget) ∈
        server.history ∧
      job.wire.jobId = makeJobId P startup nonce sequence job.wire.challenge job.wire.shareTarget
  seen : ∀ (i : Nat) (job : ActiveJob), server.jobs[i]? = some job → ∀ nonce ∈ job.seenNonces,
    ∃ t, .reservation t i nonce job.parent .reserved ∈ server.history
  justified : ∀ t active share block earlier,
    .credited t active share block :: earlier <:+ server.history →
      Justified E server.jobs t active share block earlier
  once : ((creditsOf server.history).map fun c => (c.1, c.2.1.nonce)).Nodup
  settled : ∀ c ∈ creditsOf server.history, ∃ job, server.jobs[c.1]? = some job ∧
    Settled server.node job c.2.1.nonce
  accepted : server.ledger.acceptedShares.toNat =
    min (creditsOf server.history).length (2 ^ 64 - 1)
  blocks : server.ledger.poolBlocks.toNat =
    min ((creditsOf server.history).filter (·.2.2)).length (2 ^ 64 - 1)

/-- The thread works on this job, for which the share was evaluated to that block. -/
def Evaluated (E : PowEvaluation) (jobs : List ActiveJob) (share : PoolShare) (active : Nat)
    (block : Option Block) : Prop :=
  ∃ job, jobs[active]? = some job ∧ share.jobId = job.wire.jobId ∧
    job.evaluate E share.nonce = .ok (.ok block)

/-- What a thread knows about the job of its share, for good. -/
def Known (E : PowEvaluation) (jobs : List ActiveJob) : Call → Prop
  | .evaluating share active => ∃ job, jobs[active]? = some job ∧ share.jobId = job.wire.jobId
  | .locking share active block => Evaluated E jobs share active block
  | .reserving share active block => Evaluated E jobs share active block
  | .submitting share active block => Evaluated E jobs share active (some block)
  | .crediting share active blockAccepted =>
      ∃ block, Evaluated E jobs share active block ∧ block.isSome = blockAccepted
  | _ => True

/-- What a thread that holds the node has found under the lock. -/
def Held (node : Node) (jobs : List ActiveJob) (history : List PoolEvent) (t : Nat) : Call → Prop
  | .reserving _ active _ => ∃ job, jobs[active]? = some job ∧ node.state.tip = job.parent
  | .submitting share active _ => ∃ job answer earlier, jobs[active]? = some job ∧
      node.state.tip = job.parent ∧ answer ≠ .duplicate ∧
      history = .reservation t active share.nonce job.parent answer :: earlier ∧
      (active, share.nonce) ∉ (creditsOf history).map fun c => (c.1, c.2.1.nonce)
  | .crediting share active blockAccepted => ∃ job, jobs[active]? = some job ∧
      Settled node job share.nonce ∧
      LeadsTo t active share.nonce job.parent blockAccepted history ∧
      (active, share.nonce) ∉ (creditsOf history).map fun c => (c.1, c.2.1.nonce)
  | _ => True

/-- What holds in every reachable state. -/
structure Sound (P : Platform) (E : PowEvaluation) (params : NetworkParams)
    (verifier : ConsensusPowVerifier) (server : PoolServer) : Prop where
  data : Data P E params verifier server
  exclusive : Exclusive Call.holdsNode server.nodeHolder server.calls
  known : ∀ t, Known E server.jobs (server.calls t)
  held : ∀ t, Held server.node server.jobs server.history t (server.calls t)

theorem Evaluated.mono {jobs jobs' : List ActiveJob} (hsame : SameJobs jobs jobs')
    {share : PoolShare} {active : Nat} {block : Option Block}
    (h : Evaluated E jobs share active block) : Evaluated E jobs' share active block := by
  obtain ⟨job, hjob, hid, heval⟩ := h
  obtain ⟨job', hjob', hwire, hmining⟩ := hsame _ _ hjob
  exact ⟨job', hjob', hwire ▸ hid, (evaluate_congr hwire hmining _).trans heval⟩

theorem Known.mono {jobs jobs' : List ActiveJob} (hsame : SameJobs jobs jobs') {call : Call}
    (h : Known E jobs call) : Known E jobs' call := by
  cases call with
  | evaluating share active =>
      obtain ⟨job, hjob, hid⟩ := h
      obtain ⟨job', hjob', hwire, _⟩ := hsame _ _ hjob
      exact ⟨job', hjob', hwire ▸ hid⟩
  | locking share active block => exact Evaluated.mono hsame h
  | reserving share active block => exact Evaluated.mono hsame h
  | submitting share active block => exact Evaluated.mono hsame h
  | crediting share active blockAccepted =>
      obtain ⟨block, heval, hsome⟩ := h
      exact ⟨block, heval.mono hsame, hsome⟩
  | _ => exact trivial

/-- Only a thread that holds the node has found anything under its lock. -/
theorem held_of_outside {call : Call} (h : call.holdsNode = false) (node : Node)
    (jobs : List ActiveJob) (history : List PoolEvent) (t : Nat) :
    Held node jobs history t call := by
  cases call with
  | reserving share active block => cases h
  | submitting share active block => cases h
  | crediting share active blockAccepted => cases h
  | _ => exact trivial

variable {server server' : PoolServer} {t : Nat} {call : Call}

/-! ## Steps of the data -/

/-- The ledger may change in all that is not counted here. -/
theorem Data.setLedger (h : Data P E params verifier server) {ledger : PoolLedger}
    (haccepted : ledger.acceptedShares = server.ledger.acceptedShares)
    (hblocks : ledger.poolBlocks = server.ledger.poolBlocks) :
    Data P E params verifier { server with ledger } :=
  { h with
    accepted := (congrArg UInt64.toNat haccepted).trans h.accepted
    blocks := (congrArg UInt64.toNat hblocks).trans h.blocks }

theorem Settled.moves {node node' : Node} (hmoves : node.MovesTo node') {job : ActiveJob}
    {nonce : UInt64} (h : Settled node job nonce) : Settled node' job nonce :=
  h.imp_right fun hleft => hmoves.left _ hleft

/-- The node moves on. -/
theorem Data.setNode (h : Data P E params verifier server) {node : Node} (poisoned : Bool)
    (hrun : ∃ accepted, NodeRun P params verifier accepted node)
    (hmoves : server.node.MovesTo node) :
    Data P E params verifier { server with node, nodePoisoned := poisoned } := by
  refine { h with node := hrun, parents := fun i job hjob => ?_, settled := fun c hc => ?_ }
  · rcases h.parents i job hjob with hleft | ⟨hi, htip⟩
    · exact .inl (hmoves.left _ hleft)
    · rcases hmoves.tip with hsame | hleft
      · exact .inr ⟨hi, hsame.trans htip⟩
      · exact .inl (htip ▸ hleft)
  · obtain ⟨job, hjob, hsettled⟩ := h.settled c hc
    exact ⟨job, hjob, hsettled.moves hmoves⟩

/-- Events that are not credits. -/
theorem Data.record (h : Data P E params verifier server) (event : PoolEvent)
    (hcredit : event.credit = none) : Data P E params verifier (server.record event) := by
  have hcredits : creditsOf (event :: server.history) = creditsOf server.history :=
    List.filterMap_cons_none hcredit
  refine { h with
    jobIds := fun job hjob => ?_
    seen := fun i job hjob nonce hnonce => ?_
    justified := fun t active share block earlier hsuffix => ?_
    once := ?_, settled := fun c hc => ?_, accepted := ?_, blocks := ?_ }
  · obtain ⟨startup, nonce, sequence, hmem, hid⟩ := h.jobIds job hjob
    exact ⟨startup, nonce, sequence, List.mem_cons_of_mem _ hmem, hid⟩
  · obtain ⟨t, hmem⟩ := h.seen i job hjob nonce hnonce
    exact ⟨t, List.mem_cons_of_mem _ hmem⟩
  · rcases List.suffix_cons_iff.mp hsuffix with heq | hsuffix
    · rw [← (List.cons.inj heq).1] at hcredit
      cases hcredit
    · exact h.justified t active share block earlier hsuffix
  · exact hcredits ▸ h.once
  · exact h.settled c (hcredits ▸ hc)
  · exact hcredits ▸ h.accepted
  · exact hcredits ▸ h.blocks

/-- More nonces of a job are in its set, if each was reserved. -/
theorem Data.setJob (h : Data P E params verifier server) {active : Nat} {job job' : ActiveJob}
    (hjob : server.jobs[active]? = some job) (hwire : job'.wire = job.wire)
    (hmining : job'.mining = job.mining) (hsub : job.seenNonces ⊆ job'.seenNonces)
    (hseen : ∀ nonce ∈ job'.seenNonces,
      ∃ t, .reservation t active nonce job.parent .reserved ∈ server.history) :
    Data P E params verifier { server with jobs := server.jobs.set active job' } := by
  have hparent : job'.parent = job.parent := by rw [ActiveJob.parent, hwire, ActiveJob.parent]
  -- every job is one that was there, but for its set
  have hback : ∀ (i : Nat) (found : ActiveJob), (server.jobs.set active job')[i]? = some found →
      ∃ old : ActiveJob, server.jobs[i]? = some old ∧ found.wire = old.wire ∧
        found.mining = old.mining := by
    intro i found hfound
    rcases of_getElem?_set hjob hfound with ⟨rfl, rfl⟩ | hfound
    · exact ⟨job, hjob, hwire, hmining⟩
    · exact ⟨found, hfound, rfl, rfl⟩
  have hbackMem : ∀ found ∈ server.jobs.set active job', ∃ old ∈ server.jobs,
      found.wire = old.wire ∧ found.mining = old.mining := by
    intro found hmem
    obtain ⟨i, hi⟩ := List.mem_iff_getElem?.mp hmem
    obtain ⟨old, hold, heq⟩ := hback i found hi
    exact ⟨old, List.mem_of_getElem? hold, heq⟩
  refine { h with
    current := by rw [List.length_set]; exact h.current
    challenge := fun found hmem => ?_, parents := fun i found hfound => ?_
    distinct := fun i j found found' hfound hfound' heq => ?_, jobIds := fun found hmem => ?_
    seen := fun i found hfound nonce hnonce => ?_
    justified := fun t i share block earlier hsuffix =>
      (h.justified t i share block earlier hsuffix).mono (.set hjob hwire hmining)
    settled := fun c hc => ?_ }
  · obtain ⟨old, hold, hw, hm⟩ := hbackMem found hmem
    rw [hw, hm]
    exact h.challenge old hold
  · obtain ⟨old, hold, hw, _⟩ := hback i found hfound
    rw [ActiveJob.parent, hw]
    exact h.parents i old hold
  · obtain ⟨old, hold, hw, _⟩ := hback i found hfound
    obtain ⟨old', hold', hw', _⟩ := hback j found' hfound'
    rw [ActiveJob.parent, ActiveJob.parent, hw, hw'] at heq
    exact h.distinct i j old old' hold hold' heq
  · obtain ⟨old, hold, hw, _⟩ := hbackMem found hmem
    rw [hw]
    exact h.jobIds old hold
  · rcases of_getElem?_set hjob hfound with ⟨rfl, rfl⟩ | hfound
    · rw [hparent]
      exact hseen nonce hnonce
    · exact h.seen i found hfound nonce hnonce
  · obtain ⟨old, hold, hsettled⟩ := h.settled c hc
    by_cases hi : c.1 = active
    · obtain rfl := Option.some.inj (hjob.symm.trans (hi ▸ hold))
      refine ⟨job', ?_, ?_⟩
      · rw [hi, List.getElem?_set_self (List.getElem?_eq_some_iff.mp hjob).1]
      · rw [Settled, hparent]
        exact hsettled.imp_left fun hmem => hsub hmem
    · exact ⟨old, by rw [List.getElem?_set_ne (Ne.symm hi)]; exact hold, hsettled⟩

/-- A job on a new tip.  The parents of all earlier jobs were left, so it has another. -/
theorem Data.install (h : Data P E params verifier server) {current : ActiveJob}
    (hcurrent : server.jobs[server.state.current]? = some current)
    (hstale : current.parent ≠ server.node.state.tip) {mining : MiningJob}
    (hmining : mining.challenge.previousBlock = server.node.state.tip)
    (shareTarget startup jobNonce : Bytes32) (sequence next : UInt64) {job : ActiveJob}
    (hjob : job = ActiveJob.new P shareTarget startup jobNonce sequence mining) :
    Data P E params verifier ({ server with
      jobs := server.jobs ++ [job]
      state := { current := server.jobs.length, nextJobSequence := next } }.record
        (.installed (jobIdBytes startup jobNonce sequence mining.challenge
          job.wire.shareTarget))) := by
  have hparent : job.parent = server.node.state.tip := by rw [hjob]; exact hmining
  have hleft : ∀ (i : Nat) (old : ActiveJob), server.jobs[i]? = some old →
      server.node.Left old.parent := by
    intro i old hold
    refine (h.parents i old hold).resolve_right fun ⟨hi, htip⟩ => hstale ?_
    obtain rfl := Option.some.inj ((hi ▸ hcurrent).symm.trans hold)
    exact htip.symm
  obtain ⟨accepted, hrun⟩ := h.node
  have hne : ∀ (i : Nat) (old : ActiveJob), server.jobs[i]? = some old → old.parent ≠ job.parent :=
    fun i old hold => hparent ▸ (hleft i old hold).ne_tip hrun
  have hrecorded := h.record (.installed (jobIdBytes startup jobNonce sequence
    mining.challenge job.wire.shareTarget)) rfl
  refine { hrecorded with
    current := by rw [PoolServer.record, List.length_append, List.length_singleton]
    challenge := fun found hmem => ?_, parents := fun i found hfound => ?_
    distinct := fun i j found found' hfound hfound' heq => ?_, jobIds := fun found hmem => ?_
    seen := fun i found hfound nonce hnonce => ?_
    justified := fun t i share block earlier hsuffix =>
      (hrecorded.justified t i share block earlier hsuffix).mono (.append _ _)
    settled := fun c hc => ?_ }
  · rcases List.mem_append.mp hmem with hold | hnew
    · exact h.challenge found hold
    · rw [List.mem_singleton.mp hnew, hjob]
      rfl
  · rcases of_getElem?_concat hfound with ⟨rfl, rfl⟩ | hold
    · exact .inr ⟨rfl, hparent.symm⟩
    · exact .inl (hleft i found hold)
  · rcases of_getElem?_concat hfound with ⟨rfl, rfl⟩ | hold
    · rcases of_getElem?_concat hfound' with ⟨rfl, -⟩ | hold'
      · rfl
      · exact absurd heq.symm (hne j found' hold')
    · rcases of_getElem?_concat hfound' with ⟨rfl, rfl⟩ | hold'
      · exact absurd heq (hne i found hold)
      · exact h.distinct i j found found' hold hold' heq
  · rcases List.mem_append.mp hmem with hold | hnew
    · exact hrecorded.jobIds found hold
    · rw [List.mem_singleton.mp hnew, hjob]
      exact ⟨startup, jobNonce, sequence, List.mem_cons_self, rfl⟩
  · rcases of_getElem?_concat hfound with ⟨-, rfl⟩ | hold
    · rw [hjob] at hnonce
      exact absurd hnonce (Finset.notMem_empty nonce)
    · exact hrecorded.seen i found hold nonce hnonce
  · obtain ⟨old, hold, hsettled⟩ := hrecorded.settled c hc
    have hlt : c.1 < server.jobs.length := (List.getElem?_eq_some_iff.mp hold).1
    exact ⟨old, (List.getElem?_append_left hlt).trans hold, hsettled⟩

/-- A credit of a share that was not credited before. -/
theorem Data.credit (h : Data P E params verifier server) {t active : Nat} {share : PoolShare}
    {block : Bool} {ledger : PoolLedger} {job : ActiveJob}
    (hjob : server.jobs[active]? = some job) (hsettled : Settled server.node job share.nonce)
    (hfresh : (active, share.nonce) ∉ (creditsOf server.history).map fun c => (c.1, c.2.1.nonce))
    (hjustified : Justified E server.jobs t active share block server.history)
    (haccepted : ledger.acceptedShares = saturatingAdd server.ledger.acceptedShares 1)
    (hblocks : ledger.poolBlocks = countIf server.ledger.poolBlocks block) :
    Data P E params verifier ({ server with ledger }.record (.credited t active share block)) := by
  have hcredits : creditsOf (.credited t active share block :: server.history) =
      (active, share, block) :: creditsOf server.history :=
    List.filterMap_cons_some rfl
  have hone : (1 : UInt64).toNat = 1 := rfl
  refine { h with
    jobIds := fun job hjob => ?_, seen := fun i job hjob nonce hnonce => ?_
    justified := fun u i other flag earlier hsuffix => ?_
    once := ?_, settled := fun c hc => ?_, accepted := ?_, blocks := ?_ }
  · obtain ⟨startup, nonce, sequence, hmem, hid⟩ := h.jobIds job hjob
    exact ⟨startup, nonce, sequence, List.mem_cons_of_mem _ hmem, hid⟩
  · obtain ⟨u, hmem⟩ := h.seen i job hjob nonce hnonce
    exact ⟨u, List.mem_cons_of_mem _ hmem⟩
  · rcases List.suffix_cons_iff.mp hsuffix with heq | hsuffix
    · obtain ⟨hevent, rfl⟩ := List.cons.inj heq
      obtain ⟨rfl, rfl, rfl, rfl⟩ := PoolEvent.credited.inj hevent
      exact hjustified
    · exact h.justified u i other flag earlier hsuffix
  · rw [PoolServer.record, hcredits, List.map_cons, List.nodup_cons]
    exact ⟨hfresh, h.once⟩
  · rw [PoolServer.record, hcredits] at hc
    rcases List.mem_cons.mp hc with rfl | hc
    · exact ⟨job, hjob, hsettled⟩
    · exact h.settled c hc
  · rw [PoolServer.record, hcredits, List.length_cons, haccepted, toNat_saturatingAdd_min, h.accepted, hone]
    omega
  · rw [PoolServer.record, hcredits, List.filter_cons, hblocks]
    cases block with
    | true =>
        rw [countIf, if_pos rfl, if_pos rfl, List.length_cons, toNat_saturatingAdd_min, h.blocks,
          hone]
        omega
    | false =>
        rw [countIf, if_neg Bool.false_ne_true, if_neg Bool.false_ne_true]
        exact h.blocks

/-! ## Sections -/

/-- A thread moves on, after it may have changed the data: if it changed what the lock of
the node protects, the other threads are outside. -/
theorem Sound.moves (h : Sound P E params verifier server)
    (hcalls : server'.calls = server.calls) (hholder : server'.nodeHolder = server.nodeHolder)
    (hdata : Data P E params verifier server') (hsame : SameJobs server.jobs server'.jobs)
    (hothers : server.nodeHolder = some t ∨ server'.node = server.node ∧
      server'.jobs = server.jobs ∧ server'.history = server.history)
    (hfree : call.holdsNode = true → server.nodeHolder = none ∨ server.nodeHolder = some t)
    (hknown : Known E server'.jobs call)
    (hheld : Held server'.node server'.jobs server'.history t call) :
    Sound P E params verifier (server'.goto t call) := by
  refine ⟨{ hdata with }, ?_, fun u => ?_, fun u => ?_⟩
  · rw [goto, hcalls, hholder]
    exact h.exclusive.move hfree
  · by_cases hu : u = t
    · subst hu
      rw [goto_calls_self]
      exact hknown
    · rw [goto_calls_ne _ hu, hcalls]
      exact (h.known u).mono hsame
  · by_cases hu : u = t
    · subst hu
      rw [goto_calls_self]
      exact hheld
    · rw [goto_calls_ne _ hu, hcalls]
      rcases hothers with hself | ⟨hnode, hjobs, hhistory⟩
      · exact held_of_outside (h.exclusive.outside hself hu) _ _ _ _
      · have hheldu := h.held u
        rw [← hnode, ← hjobs, ← hhistory] at hheldu
        exact hheldu

/-- A thread that leaves the data alone. -/
theorem Sound.goto (h : Sound P E params verifier server)
    (hfree : call.holdsNode = true → server.nodeHolder = none ∨ server.nodeHolder = some t)
    (hknown : Known E server.jobs call)
    (hheld : Held server.node server.jobs server.history t call) :
    Sound P E params verifier (server.goto t call) :=
  h.moves rfl rfl h.data (.refl _) (.inr ⟨rfl, rfl, rfl⟩) hfree hknown hheld

/-- A thread that goes outside. -/
theorem Sound.leave (h : Sound P E params verifier server) (houtside : call.holdsNode = false)
    (hknown : Known E server.jobs call) : Sound P E params verifier (server.goto t call) :=
  h.goto (by rw [houtside]; nofun) hknown (held_of_outside houtside _ _ _ _)

theorem Sound.holds (h : Sound P E params verifier server) (hcall : server.calls t = call)
    (hinside : call.holdsNode = true) : server.nodeHolder = some t :=
  (h.exclusive t).mp (hcall ▸ hinside)

theorem afterRotate_outside (next : AfterRotate) (result : Outcome PoolError Bool) :
    (next.call result).holdsNode = false ∧ ∀ jobs, Known E jobs (next.call result) := by
  cases next <;> cases result <;> exact ⟨rfl, fun _ => trivial⟩

theorem Sound.readCurrent (h : Sound P E params verifier server) {share : PoolShare}
    {next : PoolServer} (hnext : server.readCurrent t share = some next) :
    Sound P E params verifier next := by
  rw [PoolServer.readCurrent] at hnext
  split at hnext
  · obtain rfl := Option.some.inj hnext
    exact h.leave rfl trivial
  · obtain ⟨active, hactive, rfl⟩ := Option.map_eq_some_iff.mp hnext
    split
    · exact h.leave rfl trivial
    · next hid => exact h.leave rfl ⟨active, hactive, not_not.mp hid⟩

theorem Sound.evaluate (h : Sound P E params verifier server) {share : PoolShare} {active : Nat}
    (hcall : server.calls t = .evaluating share active) {next : PoolServer}
    (hnext : server.evaluate E t share active = some next) : Sound P E params verifier next := by
  obtain ⟨job, hjob, rfl⟩ := Option.map_eq_some_iff.mp hnext
  have hknown := h.known t
  rw [hcall] at hknown
  obtain ⟨known, hknown, hid⟩ := hknown
  obtain rfl := Option.some.inj (hjob.symm.trans hknown)
  split
  · exact h.leave rfl trivial
  · exact h.leave rfl trivial
  · next block heval => exact h.leave rfl ⟨job, hjob, hid, heval⟩

theorem Sound.lockForShare (h : Sound P E params verifier server) {share : PoolShare}
    {active : Nat} {block : Option Block} (hcall : server.calls t = .locking share active block)
    {next : PoolServer} (hnext : server.lockForShare t share active block = some next) :
    Sound P E params verifier next := by
  rw [PoolServer.lockForShare] at hnext
  split at hnext
  · cases hnext
  · next hfree =>
      split at hnext
      · obtain rfl := Option.some.inj hnext
        exact h.leave rfl trivial
      · obtain ⟨job, hjob, rfl⟩ := Option.map_eq_some_iff.mp hnext
        have hknown := h.known t
        rw [hcall] at hknown
        split
        · exact h.leave rfl trivial
        · next htip =>
            exact h.goto (fun _ => .inl (not_not.mp hfree)) hknown ⟨job, hjob, not_not.mp htip⟩

/-- A nonce that is not in the set of its job, on the tip, was not credited. -/
theorem Data.fresh (h : Data P E params verifier server) {active : Nat} {job : ActiveJob}
    {nonce : UInt64} (hjob : server.jobs[active]? = some job)
    (htip : server.node.state.tip = job.parent) (hnew : nonce ∉ job.seenNonces) :
    (active, nonce) ∉ (creditsOf server.history).map fun c => (c.1, c.2.1.nonce) := by
  intro hmem
  obtain ⟨c, hc, heq⟩ := List.mem_map.mp hmem
  obtain ⟨hactive, hnonce⟩ := Prod.mk.inj heq
  obtain ⟨settled, hsettledJob, hsettled⟩ := h.settled c hc
  obtain rfl := Option.some.inj (hjob.symm.trans (hactive ▸ hsettledJob))
  obtain ⟨accepted, hrun⟩ := h.node
  rcases hsettled with hseen | hleft
  · exact hnew (hnonce ▸ hseen)
  · exact hleft.ne_tip hrun htip.symm

/-- Where a reserved share goes. -/
theorem Sound.reserve (h : Sound P E params verifier server) {share : PoolShare} {active : Nat}
    {block : Option Block} (hcall : server.calls t = .reserving share active block)
    {next : PoolServer} (hnext : server.reserve t share active block = some next) :
    Sound P E params verifier next := by
  have hholder := h.holds hcall rfl
  have hknown := h.known t
  have hheld := h.held t
  rw [hcall] at hknown hheld
  obtain ⟨job, hjob, rfl⟩ := Option.map_eq_some_iff.mp hnext
  obtain ⟨held, hheld, htip⟩ := hheld
  obtain rfl := Option.some.inj (hjob.symm.trans hheld)
  cases hanswer : reserveValidShare job share.nonce with
  | mk answer job' =>
      obtain ⟨hwire, hmining, hsub, hduplicate, hinsert, hsame⟩ := reserveValidShare_eq hanswer
      have hparent : job'.parent = job.parent := by rw [ActiveJob.parent, hwire, ActiveJob.parent]
      have hset : (server.jobs.set active job')[active]? = some job' :=
        List.getElem?_set_self (List.getElem?_eq_some_iff.mp hjob).1
      have hjobs := SameJobs.set hjob hwire hmining
      have hevaluated : Evaluated E (server.jobs.set active job') share active block :=
        Evaluated.mono hjobs hknown
      -- every nonce of the set was reserved: the new one just now
      have hseen : ∀ nonce ∈ job'.seenNonces, ∃ u, .reservation u active nonce job.parent .reserved ∈
          .reservation t active share.nonce server.node.state.tip answer :: server.history := by
        intro nonce hnonce
        by_cases hreserved : answer = .reserved
        · rw [hinsert hreserved, Finset.mem_insert] at hnonce
          rcases hnonce with rfl | hnonce
          · exact ⟨t, by rw [hreserved, htip]; exact List.mem_cons_self⟩
          · obtain ⟨u, hmem⟩ := h.data.seen active job hjob nonce hnonce
            exact ⟨u, List.mem_cons_of_mem _ hmem⟩
        · rw [hsame hreserved] at hnonce
          obtain ⟨u, hmem⟩ := h.data.seen active job hjob nonce hnonce
          exact ⟨u, List.mem_cons_of_mem _ hmem⟩
      have hdata := (h.data.record
        (.reservation t active share.nonce server.node.state.tip answer) rfl).setJob hjob hwire
          hmining hsub hseen
      have hfresh : answer ≠ .duplicate → (active, share.nonce) ∉
          (creditsOf server.history).map fun c => (c.1, c.2.1.nonce) :=
        fun hne => h.data.fresh hjob htip fun hmem => hne (hduplicate.mpr hmem)
      cases answer with
      | duplicate =>
          exact h.moves rfl rfl hdata hjobs (.inl hholder) nofun trivial trivial
      | full =>
          cases block with
          | none => exact h.moves rfl rfl hdata hjobs (.inl hholder) nofun trivial trivial
          | some block =>
              exact h.moves rfl rfl hdata hjobs (.inl hholder) (fun _ => .inr hholder) hevaluated
                ⟨job', .full, server.history, hset, htip.trans hparent.symm, nofun,
                  by rw [hparent, ← htip]; rfl, hfresh nofun⟩
      | reserved =>
          cases block with
          | none =>
              refine h.moves rfl rfl hdata hjobs (.inl hholder) (fun _ => .inr hholder)
                ⟨none, hevaluated, rfl⟩ ⟨job', hset, .inl ?_, ?_, hfresh nofun⟩
              · rw [hinsert rfl]
                exact Finset.mem_insert_self _ _
              · rw [hparent, ← htip]
                exact .share
          | some block =>
              exact h.moves rfl rfl hdata hjobs (.inl hholder) (fun _ => .inr hholder) hevaluated
                ⟨job', .reserved, server.history, hset, htip.trans hparent.symm, nofun,
                  by rw [hparent, ← htip]; rfl, hfresh nofun⟩

/-- The block of an evaluated share is on the parent of its job. -/
theorem evaluated_parent {job : ActiveJob} {nonce : UInt64} {block : Block}
    (hchallenge : job.wire.challenge = job.mining.challenge)
    (heval : job.evaluate E nonce = .ok (.ok (some block))) :
    block.challenge.previousBlock = job.parent := by
  obtain ⟨proof, _, _, hblock⟩ := evaluate_eq_ok heval
  split at hblock
  · rw [Option.some.inj hblock, ActiveJob.parent, hchallenge]
    rfl
  · cases hblock

theorem Sound.submit (h : Sound P E params verifier server) {share : PoolShare} {active : Nat}
    {block : Block} (hcall : server.calls t = .submitting share active block)
    (env : Environment) : Sound P E params verifier (server.submit P env t share active block) := by
  have hholder := h.holds hcall rfl
  have hknown := h.known t
  have hheld := h.held t
  rw [hcall] at hknown hheld
  obtain ⟨job, answer, earlier, hjob, htip, hanswer, hhistory, hfresh⟩ := hheld
  obtain ⟨known, hknownJob, hid, heval⟩ := hknown
  obtain rfl := Option.some.inj (hjob.symm.trans hknownJob)
  obtain ⟨accepted, hrun⟩ := h.data.node
  rw [PoolServer.submit]
  split
  · exact h.leave rfl trivial
  · next now hclock =>
      cases hsubmit : server.node.submitBlock P env.append block now with
      | mk result node =>
          obtain ⟨⟨more, hlater⟩, hmoves⟩ := hrun.movesTo_submitBlock hsubmit
          have hdata := (h.data.setNode (server.nodePoisoned || poisons result) ⟨_, hlater⟩
            hmoves).record (.submitted t active share.nonce block result.isOk) rfl
          have hevaluated : Evaluated E server.jobs share active (some block) :=
            ⟨job, hjob, hid, heval⟩
          cases result with
          | error fault =>
              cases fault with
              | err error =>
                  exact h.moves rfl rfl hdata (.refl _) (.inl hholder) nofun trivial trivial
              | panic =>
                  exact h.moves rfl rfl hdata (.refl _) (.inl hholder) nofun trivial trivial
          | ok fees =>
              have hparent := evaluated_parent
                (h.data.challenge job (List.mem_of_getElem? hjob)) heval
              have hleft := hrun.left_of_accepted hsubmit (hparent.trans htip.symm)
              refine h.moves rfl rfl hdata (.refl _) (.inl hholder) (fun _ => .inr hholder)
                ⟨some block, hevaluated, rfl⟩ ⟨job, hjob, .inr (htip ▸ hleft), ?_, hfresh⟩
              show LeadsTo t active share.nonce job.parent true
                (.submitted t active share.nonce block true :: server.history)
              rw [hhistory]
              exact .block hanswer

theorem Sound.credit (h : Sound P E params verifier server) {share : PoolShare} {active : Nat}
    {blockAccepted : Bool} (hcall : server.calls t = .crediting share active blockAccepted) :
    Sound P E params verifier (server.credit t share active blockAccepted) := by
  have hholder := h.holds hcall rfl
  have hknown := h.known t
  have hheld := h.held t
  rw [hcall] at hknown hheld
  obtain ⟨job, hjob, hsettled, hleads, hfresh⟩ := hheld
  obtain ⟨block, ⟨known, hknownJob, hid, heval⟩, hblock⟩ := hknown
  obtain rfl := Option.some.inj (hjob.symm.trans hknownJob)
  obtain ⟨proof, hproof, hmeets, _⟩ := evaluate_eq_ok heval
  -- whatever the result, the thread goes outside
  have hends : ∀ {after : PoolServer} {call : Call}, Data P E params verifier after →
      after.calls = server.calls → after.nodeHolder = server.nodeHolder →
      after.jobs = server.jobs → call.holdsNode = false → Known E after.jobs call →
      Sound P E params verifier (after.goto t call) :=
    fun hdata hcalls hnode hjobs hout hknown =>
      h.moves hcalls hnode hdata (hjobs ▸ .refl _) (.inl hholder) (by rw [hout]; nofun) hknown
        (held_of_outside hout _ _ _ _)
  rw [PoolServer.credit]
  cases hsession : server.ledger.sessions.lookup share.sessionId with
  | none =>
      simp only [PoolLedger.creditAcceptedShare_unknown hsession]
      exact hends h.data rfl rfl rfl rfl trivial
  | some session =>
      obtain ⟨haccepted, hblocks⟩ := PoolLedger.creditAcceptedShare_counts hsession blockAccepted
        server.config.testCreditAtomsPerShare
      have hdata := h.data.credit hjob hsettled hfresh
        ⟨job, hjob, hid, ⟨proof, hproof, hmeets⟩, hleads⟩ haccepted hblocks
      cases hcredit : server.ledger.creditAcceptedShare share.sessionId blockAccepted
          server.config.testCreditAtomsPerShare with
      | mk result ledger =>
          rw [hcredit] at hdata
          cases result with
          | error fault => exact hends hdata rfl rfl rfl rfl trivial
          | ok stats =>
              cases blockAccepted with
              | true => exact hends hdata rfl rfl rfl rfl trivial
              | false => exact hends hdata rfl rfl rfl rfl trivial

theorem Sound.reject (h : Sound P E params verifier server) (share : PoolShare) (code : String) :
    Sound P E params verifier (server.reject t share code) := by
  obtain ⟨haccepted, hblocks, _⟩ :=
    PoolLedger.creditRejectedShare_counts server.ledger share.sessionId
  exact h.moves rfl rfl (h.data.setLedger haccepted hblocks) (.refl _) (.inr ⟨rfl, rfl, rfl⟩) nofun
    trivial trivial

theorem Sound.lockForRotation (h : Sound P E params verifier server) {next : AfterRotate}
    {server' : PoolServer} (hnext : server.lockForRotation t next = some server') :
    Sound P E params verifier server' := by
  rw [PoolServer.lockForRotation] at hnext
  split at hnext
  · cases hnext
  · next hfree =>
      split at hnext
      · obtain rfl := Option.some.inj hnext
        obtain ⟨hout, hknown⟩ := afterRotate_outside next (fail .sharedStatePoisoned)
        exact h.leave hout (hknown _)
      · obtain rfl := Option.some.inj hnext
        exact h.goto (fun _ => .inl (not_not.mp hfree)) trivial trivial

theorem Sound.install (h : Sound P E params verifier server) {next : AfterRotate}
    (hcall : server.calls t = .installing next) (env : Environment) {server' : PoolServer}
    (hnext : server.install P env t next = some server') : Sound P E params verifier server' := by
  have hholder := h.holds hcall rfl
  -- the rotation ends, with or without a new job
  have hends : ∀ {after : PoolServer} (result : Outcome PoolError Bool),
      Data P E params verifier after → after.calls = server.calls →
      after.nodeHolder = server.nodeHolder → SameJobs server.jobs after.jobs →
      Sound P E params verifier (after.goto t (next.call result)) := by
    intro after result hdata hcalls hnode hjobs
    obtain ⟨hout, hknown⟩ := afterRotate_outside next result
    exact h.moves hcalls hnode hdata hjobs (.inl hholder) (by rw [hout]; nofun) (hknown _)
      (held_of_outside hout _ _ _ _)
  have hdata : ∀ poisoned poisoned' sequence, Data P E params verifier { server with
      nodePoisoned := poisoned, statePoisoned := poisoned'
      state.nextJobSequence := sequence } := fun _ _ _ => { h.data with }
  rw [PoolServer.install] at hnext
  split at hnext
  · obtain rfl := Option.some.inj hnext
    exact hends _ h.data rfl rfl (.refl _)
  · obtain ⟨current, hcurrent, rfl⟩ := Option.map_eq_some_iff.mp hnext
    split
    · exact hends _ h.data rfl rfl (.refl _)
    · next hstale =>
        split
        · exact hends _ h.data rfl rfl (.refl _)
        · next now _ =>
            cases hbuilt : server.node.buildMiningJob P server.config.blockDestination now with
            | error fault =>
                cases fault with
                | err error => exact hends _ (hdata _ _ _) rfl rfl (.refl _)
                | panic => exact hends _ (hdata _ _ _) rfl rfl (.refl _)
            | ok mining =>
                cases env.random with
                | error error => exact hends _ (hdata _ _ _) rfl rfl (.refl _)
                | ok jobNonce =>
                    have hinstalled := (hdata (server.nodePoisoned || false) false
                      server.state.nextJobSequence).install hcurrent hstale
                      (buildMiningJob_parent hbuilt) server.config.shareTarget server.startupNonce
                      jobNonce server.state.nextJobSequence (server.state.nextJobSequence + 1) rfl
                    exact hends _ hinstalled rfl rfl (.append _ _)

/-! ## Steps and runs -/

/-- Somebody else changes the node or the ledger, while no thread holds the node or
without touching what it protects. -/
theorem Sound.changes (h : Sound P E params verifier server)
    (hcalls : server'.calls = server.calls) (hholder : server'.nodeHolder = server.nodeHolder)
    (hdata : Data P E params verifier server') (hjobs : server'.jobs = server.jobs)
    (hothers : server.nodeHolder = none ∨ server'.node = server.node ∧
      server'.history = server.history) : Sound P E params verifier server' := by
  refine ⟨hdata, ?_, fun t => ?_, fun t => ?_⟩
  · rw [hcalls, hholder]
    exact h.exclusive
  · rw [hcalls, hjobs]
    exact h.known t
  · rw [hcalls]
    rcases hothers with hfree | ⟨hnode, hhistory⟩
    · exact held_of_outside (h.exclusive.outside_of_free hfree t) _ _ _ _
    · rw [hnode, hjobs, hhistory]
      exact h.held t

theorem Sound.runSection (h : Sound P E params verifier server) {env : Environment}
    (hnext : server.runSection P E env t = some server') : Sound P E params verifier server' := by
  rw [PoolServer.runSection] at hnext
  split at hnext
  · cases hnext
  · cases hnext
  · cases hnext
  · exact h.readCurrent hnext
  · next hcall => exact h.evaluate hcall hnext
  · next hcall => exact h.lockForShare hcall hnext
  · next hcall => exact h.reserve hcall hnext
  · next hcall =>
      obtain rfl := Option.some.inj hnext
      exact h.submit hcall env
  · next hcall =>
      obtain rfl := Option.some.inj hnext
      exact h.credit hcall
  · obtain rfl := Option.some.inj hnext
    exact h.reject _ _
  · exact h.lockForRotation hnext
  · next hcall => exact h.install hcall env hnext

theorem Sound.step (h : Sound P E params verifier server) {action : PoolAction}
    (hstep : server.step P E action = some server') : Sound P E params verifier server' := by
  cases action with
  | processShare t share =>
      obtain ⟨_, hstep⟩ := Option.ite_none_right_eq_some.mp hstep
      obtain rfl := Option.some.inj hstep
      exact h.leave rfl trivial
  | rotateIfTipChanged t =>
      obtain ⟨_, hstep⟩ := Option.ite_none_right_eq_some.mp hstep
      obtain rfl := Option.some.inj hstep
      exact h.leave rfl trivial
  | run t env => exact h.runSection hstep
  | register sessionId worker payout =>
      obtain rfl := Option.some.inj hstep
      obtain ⟨haccepted, hblocks, _⟩ :=
        server.ledger.registerSession_counts sessionId worker payout
      exact h.changes rfl rfl (h.data.setLedger haccepted hblocks) rfl (.inr ⟨rfl, rfl⟩)
  | disconnect sessionId =>
      obtain rfl := Option.some.inj hstep
      obtain ⟨haccepted, hblocks, _⟩ := server.ledger.disconnect_counts sessionId
      exact h.changes rfl rfl (h.data.setLedger haccepted hblocks) rfl (.inr ⟨rfl, rfl⟩)
  | submitBlock append block acceptedAt =>
      obtain ⟨hfree, hstep⟩ := Option.ite_none_right_eq_some.mp hstep
      obtain rfl := Option.some.inj hstep
      obtain ⟨accepted, hrun⟩ := h.data.node
      obtain ⟨⟨more, hlater⟩, hmoves⟩ := hrun.movesTo_submitBlock (Prod.mk.eta).symm
      exact h.changes rfl rfl (h.data.setNode _ ⟨_, hlater⟩ hmoves) rfl (.inl hfree)
  | submitTransaction transaction =>
      obtain ⟨hfree, hstep⟩ := Option.ite_none_right_eq_some.mp hstep
      obtain rfl := Option.some.inj hstep
      obtain ⟨accepted, hrun⟩ := h.data.node
      obtain ⟨⟨more, hlater⟩, hmoves⟩ := hrun.movesTo_submitTransaction (Prod.mk.eta).symm
      exact h.changes rfl rfl (h.data.setNode _ ⟨_, hlater⟩ hmoves) rfl (.inl hfree)

/-- A new server, on any node. -/
theorem Sound.spawn {accepted : List Acceptance} {node : Node} {config : PoolServerConfig}
    {now : UInt64} {startupNonce firstJobNonce : Bytes32}
    (hrun : NodeRun P params verifier accepted node)
    (hspawn : spawnPoolServer P config node now startupNonce firstJobNonce = .ok server) :
    Sound P E params verifier server := by
  simp only [spawnPoolServer, bind_eq_ok, mapErr_eq_ok, pure_eq_ok] at hspawn
  obtain ⟨_, _, mining, hbuilt, rfl⟩ := hspawn
  have hsingle : ∀ {i : Nat} {first found : ActiveJob}, [first][i]? = some found →
      i = 0 ∧ found = first := by
    intro i first found hfound
    cases i with
    | zero => exact ⟨rfl, (Option.some.inj hfound).symm⟩
    | succ i => cases hfound
  refine ⟨⟨⟨accepted, hrun⟩, rfl, ?_, ?_, ?_, ?_, ?_, ?_, List.nodup_nil, ?_, rfl, rfl⟩, ?_, ?_, ?_⟩
  · intro job hjob
    rw [List.mem_singleton.mp hjob]
    rfl
  · intro i job hjob
    obtain ⟨rfl, rfl⟩ := hsingle hjob
    exact .inr ⟨rfl, (buildMiningJob_parent hbuilt).symm⟩
  · intro i j job job' hjob hjob' _
    rw [(hsingle hjob).1, (hsingle hjob').1]
  · intro job hjob
    rw [List.mem_singleton.mp hjob]
    exact ⟨startupNonce, firstJobNonce, 0, List.mem_singleton_self _, rfl⟩
  · intro i job hjob nonce hnonce
    obtain ⟨rfl, rfl⟩ := hsingle hjob
    exact absurd hnonce (Finset.notMem_empty nonce)
  · intro t active share block earlier hsuffix
    rcases List.suffix_cons_iff.mp hsuffix with heq | hsuffix
    · cases heq
    · cases List.suffix_nil.mp hsuffix
  · intro c hc
    cases hc
  · intro t
    constructor
    · intro h
      cases h
    · intro h
      cases h
  · exact fun _ => trivial
  · exact fun _ => trivial

end PoolServer

end CommonFoundry
