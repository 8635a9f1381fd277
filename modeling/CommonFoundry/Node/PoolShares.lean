/-
# `CommonFoundry.Node.PoolShares` — what the ledger of a pool shows, in every run

A pool is spawned on any node and goes through any sequence of sections, of any number of
threads, with calls of the node and changes of sessions in between.  Then each share is in
the ledger once, for a job whose parent was the tip when it was reserved, and a counter of
blocks grows only right after the node has accepted one.  A full set of nonces keeps no
block from the node.
-/
import CommonFoundry.Lib.Reveals
import CommonFoundry.Node.PoolCredit

namespace CommonFoundry

open Lib Lib.Outcome PoolServer

variable {P : Platform} {E : PowEvaluation} {params : NetworkParams}
  {verifier : ConsensusPowVerifier}

/-! ## Identifiers of jobs -/

/-- The bytes of a job's identifier show its parent. -/
theorem jobIdBytes_parent {startup startup' nonce nonce' : Bytes32} {sequence sequence' : UInt64}
    {challenge challenge' : BlockChallenge} {target target' : Bytes32}
    (h : jobIdBytes startup nonce sequence challenge target =
      jobIdBytes startup' nonce' sequence' challenge' target') :
    challenge.previousBlock = challenge'.previousBlock := by
  simp only [jobIdBytes, List.append_assoc] at h
  obtain ⟨_, h⟩ := array_append_inj h
  obtain ⟨_, h⟩ := array_append_inj h
  obtain ⟨_, h⟩ := leBytes64_append_inj h
  obtain ⟨_, h⟩ := array_append_inj h
  exact (array_append_inj h).1

/-- No two of the strings that were hashed for identifiers of jobs have one hash. -/
def NoJobCollision (P : Platform) (history : List PoolEvent) : Prop :=
  ∀ bytes bytes', .installed bytes ∈ history → .installed bytes' ∈ history →
    P.deriveKey poolJobDomain bytes = P.deriveKey poolJobDomain bytes' → bytes = bytes'

/-! ## Credits -/

theorem exists_suffix_of_credit {history : List PoolEvent} {c : Nat × PoolShare × Bool}
    (hc : c ∈ creditsOf history) :
    ∃ t earlier, .credited t c.1 c.2.1 c.2.2 :: earlier <:+ history := by
  obtain ⟨event, hmem, hcredit⟩ := List.mem_filterMap.mp hc
  cases event with
  | credited t active share block =>
      obtain rfl := Option.some.inj hcredit
      obtain ⟨before, after, rfl⟩ := List.append_of_mem hmem
      exact ⟨t, after, List.suffix_append _ _⟩
  | installed bytes => cases hcredit
  | reservation t active nonce tip answer => cases hcredit
  | submitted t active nonce block accepted => cases hcredit

/-- What a ledger shows: each share once, and each for a good reason. -/
structure PoolServer.Accounted (P : Platform) (E : PowEvaluation) (server : PoolServer) : Prop where
  /-- no identifier of a job is credited twice with one nonce -/
  once : NoJobCollision P server.history →
    ((creditsOf server.history).map fun c => (c.2.1.jobId, c.2.1.nonce)).Nodup
  /-- a credited share met the target of its job, was reserved on the job's parent as the
  tip, and if it is a block, the node had just accepted that -/
  justified : ∀ t active share block earlier,
    .credited t active share block :: earlier <:+ server.history →
      Justified E server.jobs t active share block earlier
  /-- the ledger counts these credits -/
  accepted : server.ledger.acceptedShares.toNat =
    min (creditsOf server.history).length (2 ^ 64 - 1)
  blocks : server.ledger.poolBlocks.toNat =
    min ((creditsOf server.history).filter (·.2.2)).length (2 ^ 64 - 1)

theorem PoolServer.Sound.accounted {server : PoolServer} (h : server.Sound P E params verifier) :
    server.Accounted P E := by
  refine ⟨fun hcollision => ?_, h.data.justified, h.data.accepted, h.data.blocks⟩
  refine List.Nodup.map_on (fun c hc c' hc' heq => ?_) (List.Nodup.of_map _ h.data.once)
  obtain ⟨hid, hnonce⟩ := Prod.mk.inj heq
  obtain ⟨t, earlier, hsuffix⟩ := exists_suffix_of_credit hc
  obtain ⟨t', earlier', hsuffix'⟩ := exists_suffix_of_credit hc'
  obtain ⟨job, hjob, hjobId, _⟩ := h.data.justified _ _ _ _ _ hsuffix
  obtain ⟨job', hjob', hjobId', _⟩ := h.data.justified _ _ _ _ _ hsuffix'
  obtain ⟨startup, nonce, sequence, hmem, hhash⟩ :=
    h.data.jobIds job (List.mem_of_getElem? hjob)
  obtain ⟨startup', nonce', sequence', hmem', hhash'⟩ :=
    h.data.jobIds job' (List.mem_of_getElem? hjob')
  -- one identifier, so the same bytes, so the same parent, so the same job
  rw [hjobId, hjobId', hhash, hhash'] at hid
  have hactive : c.1 = c'.1 := h.data.distinct _ _ job job' hjob hjob'
    (jobIdBytes_parent (hcollision _ _ hmem hmem' hid))
  exact List.inj_on_of_nodup_map h.data.once hc hc' (Prod.ext hactive hnonce)

/-! ## Steps -/

/-- Only two sections change the ledger. -/
theorem runSection_ledger {server server' : PoolServer} {t : Nat} {env : Environment}
    (hnext : server.runSection P E env t = some server') :
    server'.ledger = server.ledger ∨
      (∃ share code, server' = server.reject t share code) ∨
      ∃ share active blockAccepted, server.calls t = .crediting share active blockAccepted ∧
        server' = server.credit t share active blockAccepted := by
  rw [runSection] at hnext
  split at hnext
  · cases hnext
  · cases hnext
  · cases hnext
  · rw [readCurrent] at hnext
    split at hnext
    · obtain rfl := Option.some.inj hnext
      exact .inl rfl
    · obtain ⟨_, _, rfl⟩ := Option.map_eq_some_iff.mp hnext
      split <;> exact .inl rfl
  · obtain ⟨_, _, rfl⟩ := Option.map_eq_some_iff.mp hnext
    split <;> exact .inl rfl
  · rw [lockForShare] at hnext
    split at hnext
    · cases hnext
    · split at hnext
      · obtain rfl := Option.some.inj hnext
        exact .inl rfl
      · obtain ⟨_, _, rfl⟩ := Option.map_eq_some_iff.mp hnext
        split <;> exact .inl rfl
  · obtain ⟨job, _, rfl⟩ := Option.map_eq_some_iff.mp hnext
    split
    split <;> exact .inl rfl
  · obtain rfl := Option.some.inj hnext
    rw [submit]
    split
    · exact .inl rfl
    · split
      split <;> exact .inl rfl
  · next hcall =>
      obtain rfl := Option.some.inj hnext
      exact .inr (.inr ⟨_, _, _, hcall, rfl⟩)
  · obtain rfl := Option.some.inj hnext
    exact .inr (.inl ⟨_, _, rfl⟩)
  · rw [lockForRotation] at hnext
    split at hnext
    · cases hnext
    · split at hnext
      · obtain rfl := Option.some.inj hnext
        exact .inl rfl
      · obtain rfl := Option.some.inj hnext
        exact .inl rfl
  · rw [install] at hnext
    split at hnext
    · obtain rfl := Option.some.inj hnext
      exact .inl rfl
    · obtain ⟨_, _, rfl⟩ := Option.map_eq_some_iff.mp hnext
      split
      · exact .inl rfl
      · split
        · exact .inl rfl
        · dsimp only
          split
          · exact .inl rfl
          · split <;> exact .inl rfl

theorem credit_ledger (server : PoolServer) (t : Nat) (share : PoolShare) (active : Nat)
    (blockAccepted : Bool) :
    (server.credit t share active blockAccepted).ledger =
      (server.ledger.creditAcceptedShare share.sessionId blockAccepted
        server.config.testCreditAtomsPerShare).2 := by
  rw [credit]
  dsimp only
  split <;> split
  · rfl
  · rfl
  · split <;> rfl
  · split <;> rfl

/-- A counter of blocks grows only in the credit of a block that the node has just
accepted from this thread. -/
def PoolServer.CountsBlocks (P : Platform) (E : PowEvaluation) (server : PoolServer) : Prop :=
  ∀ action server', server.step P E action = some server' →
    ¬PoolLedger.NoMoreBlocks server.ledger server'.ledger →
      ∃ t env share active block earlier, action = .run t env ∧
        server.calls t = .crediting share active true ∧
        server.history = .submitted t active share.nonce block true :: earlier

theorem PoolServer.Sound.countsBlocks {server : PoolServer}
    (h : server.Sound P E params verifier) : server.CountsBlocks P E := by
  intro action server' hstep hmore
  have hsame : server'.ledger ≠ server.ledger :=
    fun heq => hmore (heq ▸ PoolLedger.NoMoreBlocks.refl _)
  cases action with
  | processShare t share =>
      obtain ⟨_, hstep⟩ := Option.ite_none_right_eq_some.mp hstep
      obtain rfl := Option.some.inj hstep
      exact absurd rfl hsame
  | rotateIfTipChanged t =>
      obtain ⟨_, hstep⟩ := Option.ite_none_right_eq_some.mp hstep
      obtain rfl := Option.some.inj hstep
      exact absurd rfl hsame
  | register sessionId worker payout =>
      obtain rfl := Option.some.inj hstep
      exact absurd (server.ledger.registerSession_counts sessionId worker payout).2.2 hmore
  | disconnect sessionId =>
      obtain rfl := Option.some.inj hstep
      exact absurd (server.ledger.disconnect_counts sessionId).2.2 hmore
  | submitBlock append block acceptedAt =>
      obtain ⟨_, hstep⟩ := Option.ite_none_right_eq_some.mp hstep
      obtain rfl := Option.some.inj hstep
      exact absurd rfl hsame
  | submitTransaction transaction =>
      obtain ⟨_, hstep⟩ := Option.ite_none_right_eq_some.mp hstep
      obtain rfl := Option.some.inj hstep
      exact absurd rfl hsame
  | run t env =>
      rcases runSection_ledger hstep with heq | ⟨share, code, rfl⟩ |
        ⟨share, active, blockAccepted, hcall, rfl⟩
      · exact absurd heq hsame
      · exact absurd (server.ledger.creditRejectedShare_counts share.sessionId).2.2 hmore
      · rw [credit_ledger] at hmore
        cases blockAccepted with
        | false =>
            exact absurd (PoolLedger.creditAcceptedShare_noMoreBlocks _ share.sessionId _) hmore
        | true =>
            have hheld := h.held t
            rw [hcall] at hheld
            obtain ⟨_, _, _, hleads, _⟩ := hheld
            generalize hhistory : server.history = history at hleads
            cases hleads with
            | block _ => exact ⟨t, env, share, active, _, _, rfl, hcall, rfl⟩

/-- A share that meets the chain target is given to the node as a block, whatever the size
of the set of its job, unless its nonce was reserved before. -/
structure PoolServer.SubmitsBlocks (P : Platform) (E : PowEvaluation) (server : PoolServer) :
    Prop where
  reserve : ∀ t env share active block job, server.calls t = .reserving share active block →
    server.jobs[active]? = some job → job.Meets E share.nonce job.mining.challenge.target →
    share.nonce ∉ job.seenNonces →
      ∃ proof next, E.evaluate job.mining.verifier job.mining.challenge share.nonce = .ok proof ∧
        server.step P E (.run t env) = some next ∧
        next.calls t = .submitting share active (job.mining.template.block proof)
  submit : ∀ t env now share active block, server.calls t = .submitting share active block →
    env.clock = some now →
      ∃ next, server.step P E (.run t env) = some next ∧
        next.node = (server.node.submitBlock P env.append block now).2
  duplicate : ∀ (active : Nat) (job : ActiveJob), server.jobs[active]? = some job →
    ∀ nonce ∈ job.seenNonces,
      ∃ t, .reservation t active nonce job.parent .reserved ∈ server.history

theorem PoolServer.Sound.submitsBlocks {server : PoolServer}
    (h : server.Sound P E params verifier) : server.SubmitsBlocks P E := by
  refine ⟨?_, ?_, h.data.seen⟩
  · intro t env share active block job hcall hjob hmeets hnew
    have hknown := h.known t
    rw [hcall] at hknown
    obtain ⟨known, hknownJob, _, heval⟩ := hknown
    obtain rfl := Option.some.inj (hjob.symm.trans hknownJob)
    obtain ⟨proof, hproof, _, hblock⟩ := evaluate_eq_ok heval
    obtain ⟨met, hmet, hle⟩ := hmeets
    obtain rfl := Except.ok.inj (hproof.symm.trans hmet)
    rw [if_pos hle] at hblock
    subst hblock
    have hstep : server.step P E (.run t env) =
        server.reserve t share active (some (job.mining.template.block proof)) := by
      rw [PoolServer.step, PoolServer.runSection, hcall]
    rw [PoolServer.reserve, hjob, Option.map_some] at hstep
    refine ⟨proof, _, hproof, hstep, ?_⟩
    cases hanswer : reserveValidShare job share.nonce with
    | mk answer job' =>
        obtain ⟨_, _, _, hduplicate, _⟩ := reserveValidShare_eq hanswer
        cases answer with
        | duplicate => exact absurd (hduplicate.mp rfl) hnew
        | full => exact goto_calls_self _ t _
        | reserved => exact goto_calls_self _ t _
  · intro t env now share active block hcall hclock
    refine ⟨server.submit P env t share active block, ?_, ?_⟩
    · rw [PoolServer.step, PoolServer.runSection, hcall]
    · rw [PoolServer.submit, hclock]
      dsimp only
      split <;> rfl

/-! ## Runs -/

/-- What every step keeps, every run keeps. -/
theorem PoolServer.Sound.run {server server' : PoolServer} {actions : List PoolAction}
    (h : server.Sound P E params verifier)
    (hrun : runEvents (PoolServer.step P E) actions server = some server') :
    server'.Sound P E params verifier :=
  runEvents_inv _ (fun h hstep => PoolServer.Sound.step h hstep) h hrun

/-- In every run of a pool, over any interleaving of the sections of its threads with what
others do to the node and to the sessions. -/
theorem pool_credits_once {accepted : List Acceptance} {node : Node}
    (hnode : NodeRun P params verifier accepted node) {config : PoolServerConfig} {now : UInt64}
    {startupNonce firstJobNonce : Bytes32} {server server' : PoolServer}
    (hspawn : spawnPoolServer P config node now startupNonce firstJobNonce = .ok server)
    {actions : List PoolAction}
    (hrun : runEvents (PoolServer.step P E) actions server = some server') :
    server'.Accounted P E ∧ server'.CountsBlocks P E ∧ server'.SubmitsBlocks P E :=
  have hsound := (Sound.spawn hnode hspawn).run hrun
  ⟨hsound.accounted, hsound.countsBlocks, hsound.submitsBlocks⟩

/-! ## A sample pool

Two threads submit one nonce, section by section in turn; then the first submits a block,
and installs the job on top of it. -/

def samplePoolConfig : PoolServerConfig where
  blockDestination := toBytes 5
  shareTarget := Bytes.replicate 32 255
  testCreditAtomsPerShare := 1

/-- Every nonce is a share, and nonce zero is a block. -/
def sampleEvaluation : PowEvaluation where
  evaluate _ _ nonce := .ok (.v1Legacy {
    algorithmVersion := 1, modelVersion := 1, nonce, modelRoot := zero32, outputDigest := zero32
    workDigest := if nonce = 0 then zero32 else Bytes.replicate 32 255 })
  verifyEvaluation _ _ _ := .ok ()

def sampleEnvironment : Environment where
  clock := some 1060
  random := .ok (toBytes 9)
  append := .synced

def sampleServer : Option PoolServer :=
  (spawnPoolServer samplePlatform samplePoolConfig sampleNode₀ 1060 (toBytes 7)
    (toBytes 8)).toOption

def sampleShare (server : PoolServer) (nonce : UInt64) : PoolShare where
  sessionId := 1
  jobId := (server.jobs.map (·.wire.jobId)).headD zero32
  nonce

def sampleActions (server : PoolServer) : List PoolAction :=
  [.register 1 [0x61] (toBytes 6), .processShare 1 (sampleShare server 3),
    .processShare 2 (sampleShare server 3)] ++
  ([1, 2, 2, 1, 1, 1, 1, 2, 2, 2].map fun t => .run t sampleEnvironment) ++
  .processShare 1 (sampleShare server 0) :: List.replicate 8 (.run 1 sampleEnvironment)

/-- The share is credited once, and then the block. -/
theorem pool_credits_once_sample :
    ∃ server server', sampleServer = some server ∧
      runEvents (PoolServer.step samplePlatform sampleEvaluation) (sampleActions server) server =
        some server' ∧
      server'.jobs.length = 2 ∧
      (creditsOf server'.history).map (fun c => (c.1, c.2.1.nonce, c.2.2)) =
        [(0, 0, true), (0, 3, false)] ∧
      server'.Accounted samplePlatform sampleEvaluation ∧
      server'.CountsBlocks samplePlatform sampleEvaluation ∧
      server'.SubmitsBlocks samplePlatform sampleEvaluation := by
  have hsample : (sampleServer.bind fun server =>
      runEvents (PoolServer.step samplePlatform sampleEvaluation) (sampleActions server) server).map
        (fun server' => (server'.jobs.length,
          (creditsOf server'.history).map fun c => (c.1, c.2.1.nonce, c.2.2))) =
      some (2, [(0, 0, true), (0, 3, false)]) := by decide +kernel
  obtain ⟨server', hserver', hresult⟩ := Option.map_eq_some_iff.mp hsample
  obtain ⟨server, hserver, hrun⟩ := Option.bind_eq_some_iff.mp hserver'
  have hspawn : spawnPoolServer samplePlatform samplePoolConfig sampleNode₀ 1060 (toBytes 7)
      (toBytes 8) = .ok server := by
    rw [sampleServer] at hserver
    cases hspawned : spawnPoolServer samplePlatform samplePoolConfig sampleNode₀ 1060 (toBytes 7)
        (toBytes 8) with
    | error fault =>
        rw [hspawned] at hserver
        cases hserver
    | ok spawned =>
        rw [hspawned] at hserver
        exact congrArg Except.ok (Option.some.inj hserver)
  obtain ⟨hjobs, hcredits⟩ := Prod.mk.inj hresult
  exact ⟨server, server', hserver, hrun, hjobs, hcredits,
    pool_credits_once sampleNode₀_run hspawn hrun⟩

end CommonFoundry
