/-
# `CommonFoundry.Node.PoolAnswers` — what a submitted share is told

A thread processes one share, while the other threads of the pool, its sessions and the users
of its node do what they like.  The answer tells of the credits that the thread has made since,
neither more nor less; where the call fails there was one at most.  A share of a job that was
ever installed is refused as stale only when another job is the current one, so a miner that
asks for the current job then does not get the same one again.

`UnderWay` is the invariant of one call: its thread keeps it by the rules of `CallStep`, and
everybody else leaves it alone.
-/
import CommonFoundry.Node.PoolSections

namespace CommonFoundry

open Lib Lib.Outcome PoolServer

variable {P : Platform} {E : PowEvaluation} {params : NetworkParams}
  {verifier : ConsensusPowVerifier} {before server server' after : PoolServer} {t : Nat}
  {share : PoolShare}

/-- The thread enters `process_share` or `rotate_if_tip_changed`. -/
def PoolAction.StartsCall (t : Nat) : PoolAction → Prop
  | .processShare u _ => u = t
  | .rotateIfTipChanged u => u = t
  | _ => False

/-- What the end of a call tells: `before` it began, and `after`. -/
def PoolServer.Reports (P : Platform) (before after : PoolServer) (t : Nat) (share : PoolShare) :
    Outcome PoolError PoolShareResult → Prop
  | .ok result =>
      Answers share result ∧
        creditsBy t after.history = result.owed ++ creditsBy t before.history ∧
        (result.code = "stale_job" → before.Installed share.jobId →
          NoJobCollision P after.history →
            ∀ job, after.jobs[after.state.current]? = some job → job.wire.jobId ≠ share.jobId)
  | .error _ =>
      creditsBy t after.history = creditsBy t before.history ∨
        ∃ block, creditsBy t after.history =
          (share.jobId, share.nonce, block) :: creditsBy t before.history

/-! ## One call -/

/-- The thread has been processing the share since `before`. -/
structure UnderWay (P : Platform) (E : PowEvaluation) (params : NetworkParams)
    (verifier : ConsensusPowVerifier) (before : PoolServer) (t : Nat) (share : PoolShare)
    (server : PoolServer) : Prop where
  sound : server.Sound P E params verifier
  processes : (server.calls t).Processes share
  owes : ∃ credits, creditsBy t server.history = credits ++ creditsBy t before.history ∧
    (server.calls t).Owes share credits
  stale : before.Installed share.jobId →
    server.Installed share.jobId ∧ (server.calls t).FindsStale server

/-- The call begins. -/
theorem UnderWay.start (h : before.Sound P E params verifier)
    (hstep : before.step P E (.processShare t share) = some server) :
    UnderWay P E params verifier before t share server := by
  have hsound := h.step hstep
  obtain ⟨_, hstep⟩ := Option.ite_none_right_eq_some.mp hstep
  obtain rfl := Option.some.inj hstep
  have hcall : (before.goto t (.reading share)).calls t = .reading share := goto_calls_self ..
  refine ⟨hsound, ?_, ⟨[], rfl, ?_⟩, fun hinstalled => ⟨hinstalled, ?_⟩⟩
  · rw [hcall]
    rfl
  · rw [hcall]
    rfl
  · rw [hcall]
    trivial

/-- What the others do leaves the place and the credits of a thread. -/
theorem step_others {action : PoolAction} (hstep : server.step P E action = some server')
    (hrun : ∀ env, action ≠ .run t env) (hstart : ¬action.StartsCall t) :
    server'.calls t = server.calls t ∧
      creditsBy t server'.history = creditsBy t server.history := by
  cases action with
  | processShare u other =>
      obtain ⟨_, hstep⟩ := Option.ite_none_right_eq_some.mp hstep
      obtain rfl := Option.some.inj hstep
      exact ⟨goto_calls_ne _ (Ne.symm hstart) _, rfl⟩
  | rotateIfTipChanged u =>
      obtain ⟨_, hstep⟩ := Option.ite_none_right_eq_some.mp hstep
      obtain rfl := Option.some.inj hstep
      exact ⟨goto_calls_ne _ (Ne.symm hstart) _, rfl⟩
  | run u env =>
      have hne : u ≠ t := fun heq => hrun env (heq ▸ rfl)
      obtain ⟨call, credits, _, hframe⟩ := runSection_step hstep
      refine ⟨?_, ?_⟩
      · rw [hframe.calls, Function.update_of_ne (Ne.symm hne)]
      · exact hframe.creditsBy_of_ne (Ne.symm hne)
  | register sessionId worker payout =>
      obtain rfl := Option.some.inj hstep
      exact ⟨rfl, rfl⟩
  | disconnect sessionId =>
      obtain rfl := Option.some.inj hstep
      exact ⟨rfl, rfl⟩
  | submitBlock append block acceptedAt =>
      obtain ⟨_, hstep⟩ := Option.ite_none_right_eq_some.mp hstep
      obtain rfl := Option.some.inj hstep
      exact ⟨rfl, rfl⟩
  | submitTransaction transaction =>
      obtain ⟨_, hstep⟩ := Option.ite_none_right_eq_some.mp hstep
      obtain rfl := Option.some.inj hstep
      exact ⟨rfl, rfl⟩

/-- The thread goes on with its call. -/
theorem UnderWay.runSection (h : UnderWay P E params verifier before t share server)
    {env : Environment} (hstep : server.step P E (.run t env) = some server') :
    UnderWay P E params verifier before t share server' := by
  have hsound := h.sound.step hstep
  have hadvances := h.sound.advances hstep
  obtain ⟨call, credits, hrule, hframe⟩ := runSection_step hstep
  have hcall : server'.calls t = call := by rw [hframe.calls, Function.update_self]
  have hon := hrule.processes h.processes
  obtain ⟨paid, hpaid, howes⟩ := h.owes
  refine ⟨hsound, ?_, ⟨credits.map creditEntry ++ paid, ?_, ?_⟩, fun hinstalled => ?_⟩
  · rw [hcall]
    exact hon.processes
  · rw [hframe.creditsBy_self, hpaid, List.append_assoc]
  · rw [hcall]
    exact hon.owes paid howes
  · obtain ⟨hknown, hstale⟩ := h.stale hinstalled
    refine ⟨hknown.advances hadvances, ?_⟩
    rw [hcall]
    exact hrule.findsStale h.sound.data hsound.data hadvances (h.sound.known t) h.processes hknown
      hstale

theorem UnderWay.step (h : UnderWay P E params verifier before t share server)
    {action : PoolAction} (hstep : server.step P E action = some server')
    (hstart : ¬action.StartsCall t) : UnderWay P E params verifier before t share server' := by
  by_cases hrun : ∃ env, action = .run t env
  · obtain ⟨env, rfl⟩ := hrun
    exact h.runSection hstep
  · have hsound := h.sound.step hstep
    have hadvances := h.sound.advances hstep
    obtain ⟨hcall, hcredits⟩ := step_others hstep (fun env heq => hrun ⟨env, heq⟩) hstart
    refine ⟨hsound, ?_, ?_, fun hinstalled => ?_⟩
    · rw [hcall]
      exact h.processes
    · rw [hcall, hcredits]
      exact h.owes
    · obtain ⟨hknown, hstale⟩ := h.stale hinstalled
      rw [hcall]
      exact ⟨hknown.advances hadvances, findsStale_advances hstale h.sound.data hsound.data hadvances⟩

/-- Any steps, of which none is another call of the thread. -/
theorem UnderWay.run {actions : List PoolAction}
    (h : UnderWay P E params verifier before t share server)
    (hstart : ∀ action ∈ actions, ¬action.StartsCall t)
    (hrun : runEvents (PoolServer.step P E) actions server = some after) :
    UnderWay P E params verifier before t share after := by
  induction actions generalizing server with
  | nil =>
      obtain rfl := Option.some.inj hrun
      exact h
  | cons action rest ih =>
      obtain ⟨middle, hmiddle, hrest⟩ := runEvents_cons.mp hrun
      have hnext := h.step hmiddle (hstart action List.mem_cons_self)
      exact ih hnext (fun other hother => hstart other (List.mem_cons_of_mem _ hother)) hrest

theorem UnderWay.reports (h : UnderWay P E params verifier before t share server)
    {result : Outcome PoolError PoolShareResult} (hreturned : server.calls t = .returned result) :
    before.Reports P server t share result := by
  have hprocesses := h.processes
  obtain ⟨credits, hcredits, howes⟩ := h.owes
  rw [hreturned] at hprocesses howes
  cases result with
  | error fault =>
      rcases howes with rfl | ⟨block, rfl⟩
      · exact .inl hcredits
      · exact .inr ⟨block, hcredits⟩
  | ok result =>
      obtain rfl : credits = result.owed := howes
      refine ⟨hprocesses, hcredits, fun hcode hinstalled hcollision job hjob => ?_⟩
      obtain ⟨_, hstale⟩ := h.stale hinstalled
      rw [hreturned] at hstale
      have hovertaken : server.Overtaken result.jobId := hstale hcode
      rw [hprocesses.jobId] at hovertaken
      exact hovertaken.ne_current h.sound.data hcollision hjob

/-- In every run of a pool: a thread begins a call, and has returned from it. -/
theorem pool_shares_answered {accepted : List Acceptance} {node : Node}
    (hnode : NodeRun P params verifier accepted node) {config : PoolServerConfig} {now : UInt64}
    {startupNonce firstJobNonce : Bytes32}
    (hspawn : spawnPoolServer P config node now startupNonce firstJobNonce = .ok server)
    {earlier later : List PoolAction} {started : PoolServer}
    (hearlier : runEvents (PoolServer.step P E) earlier server = some before)
    (hcall : before.step P E (.processShare t share) = some started)
    (hlater : runEvents (PoolServer.step P E) later started = some after)
    (hone : ∀ action ∈ later, ¬action.StartsCall t)
    {result : Outcome PoolError PoolShareResult} (hreturned : after.calls t = .returned result) :
    before.Reports P after t share result := by
  have hsound := (Sound.spawn hnode hspawn).run (E := E) hearlier
  exact ((UnderWay.start hsound hcall).run hone hlater).reports hreturned

/-! ## A share of the sample pool -/

/-- The answer of a call that has one. -/
def Call.answer? : Call → Option PoolShareResult
  | .returned (.ok result) => some result
  | _ => none

theorem returned_of_answer {call : Call} {result : PoolShareResult}
    (h : call.answer? = some result) : call = .returned (.ok result) := by
  cases call with
  | returned outcome =>
      cases outcome with
      | ok found => rw [Option.some.inj h]
      | error fault => cases h
  | _ => cases h

/-- The sample pool with a session: before a call, at its start and after five sections. -/
def sampleCall (server : PoolServer) : Option (PoolServer × PoolServer × PoolServer) :=
  (runEvents (PoolServer.step samplePlatform sampleEvaluation)
    [.register 1 [0x61] (toBytes 6)] server).bind fun before =>
    (before.step samplePlatform sampleEvaluation
      (.processShare 1 (sampleShare server 3))).bind fun started =>
      (runEvents (PoolServer.step samplePlatform sampleEvaluation)
        (List.replicate 5 (.run 1 sampleEnvironment)) started).map fun after =>
          (before, started, after)

theorem spawn_of_sampleServer (h : sampleServer = some server) :
    spawnPoolServer samplePlatform samplePoolConfig sampleNode₀ 1060 (toBytes 7) (toBytes 8) =
      .ok server := by
  rw [sampleServer] at h
  cases hspawned : spawnPoolServer samplePlatform samplePoolConfig sampleNode₀ 1060 (toBytes 7)
      (toBytes 8) with
  | error fault =>
      rw [hspawned] at h
      cases h
  | ok spawned =>
      rw [hspawned] at h
      exact congrArg Except.ok (Option.some.inj h)

/-- The share is accepted, and the answer tells of its credit. -/
theorem pool_shares_answered_sample :
    ∃ server before started after result, sampleServer = some server ∧
      sampleCall server = some (before, started, after) ∧
      after.calls 1 = .returned (.ok result) ∧ result.code = "share_accepted" ∧
      before.Reports samplePlatform after 1 (sampleShare server 3) (.ok result) := by
  have hsample : ((sampleServer.bind sampleCall).bind fun call =>
      (call.2.2.calls 1).answer?).map (·.code) = some "share_accepted" := by decide +kernel
  obtain ⟨result, hresult, hcode⟩ := Option.map_eq_some_iff.mp hsample
  obtain ⟨⟨before, started, after⟩, hcalls, hanswer⟩ := Option.bind_eq_some_iff.mp hresult
  obtain ⟨server, hserver, hcall⟩ := Option.bind_eq_some_iff.mp hcalls
  obtain ⟨before', hearlier, hrest⟩ := Option.bind_eq_some_iff.mp hcall
  obtain ⟨started', hstart, hrest⟩ := Option.bind_eq_some_iff.mp hrest
  obtain ⟨after', hlater, heq⟩ := Option.map_eq_some_iff.mp hrest
  cases heq
  have hreturned := returned_of_answer hanswer
  have hone : ∀ action ∈ List.replicate 5 (PoolAction.run 1 sampleEnvironment),
      ¬action.StartsCall 1 := by
    intro action haction
    rw [List.eq_of_mem_replicate haction]
    exact id
  exact ⟨server, before, started, after, result, hserver, hcall, hreturned, hcode,
    pool_shares_answered sampleNode₀_run (spawn_of_sampleServer hserver) hearlier hstart hlater
      hone hreturned⟩

end CommonFoundry
