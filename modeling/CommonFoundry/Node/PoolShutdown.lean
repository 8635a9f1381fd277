/-
# `CommonFoundry.Node.PoolShutdown` — a pool that is stopped comes to its end

From the stop flag on, each section of a thread takes it nearer to its end: a session turns to
nothing new, and the listener accepts one more connection at most.  So the threads take no more
sections than `remaining` says, and while one of them has not ended, one of them can go on.
-/
import CommonFoundry.Node.PoolProgress

namespace CommonFoundry

open Lib Lib.Outcome

/-! ## What is left to do -/

@[simp] def AfterRotate.rank : AfterRotate → Nat
  | .reject _ => 2
  | _ => 1

/-- The sections of a call that are left, at most. -/
@[simp] def Call.rank : Call → Nat
  | .idle | .rotated _ | .returned _ => 0
  | .rejecting .. => 1
  | .installing next => next.rank
  | .rotating next => next.rank + 1
  | .crediting .. => 3
  | .submitting .. => 4
  | .reserving .. => 5
  | .locking .. => 6
  | .evaluating .. => 7
  | .reading _ => 8

@[simp] def SessionPlace.rank : SessionPlace → Nat
  | .closed => 0
  | .closing => 1
  | .leaving | .rejecting .. => 2
  | .refusing .. | .turning | .reading => 3
  | .replying _ | .rotating | .opening _ => 4
  | .renewing .. | .greeting => 5
  | .answering .. | .acking => 6
  | .processing .. | .registering .. => 7
  | .noting .. | .numbering .. => 8
  | .checking .. | .hello => 9

@[simp] def ListenerPlace.rank : ListenerPlace → Nat
  | .stopped => 0
  | .turning => 1
  | .accepting => 2
  | .rotating => 3

theorem AfterRotate.rank_call (next : AfterRotate) (result : Outcome PoolError Bool) :
    (next.call result).rank < next.rank := by
  cases next <;> cases result <;> simp [AfterRotate.call]

theorem Call.rank_le (call : Call) : call.rank ≤ 8 := by
  cases call with
  | installing next => cases next <;> simp
  | rotating next => cases next <;> simp
  | _ => simp

namespace PoolServer

/-- Each section of a call is one less. -/
theorem CallStep.rank_lt {server server' : PoolServer} {call call' : Call}
    {credits : List (Nat × PoolShare × Bool)} (h : CallStep server server' call call' credits) :
    call'.rank < call.rank := by
  cases h with
  | rotating => exact Nat.lt_succ_self _
  | rotationFails => exact (AfterRotate.rank_call _ _).trans (Nat.lt_succ_self _)
  | installed => exact AfterRotate.rank_call _ _
  | installationFails => exact AfterRotate.rank_call _ _
  | _ => simp

end PoolServer

namespace PoolNetwork

variable {P : Platform} {E : PowEvaluation} {params : NetworkParams}
  {verifier : ConsensusPowVerifier} {network network' : PoolNetwork} {server : PoolServer}
  {io : SessionIo} {k : Nat} {connection : PoolConnection} {move : SessionMove}

def sessionRemaining (connection : PoolConnection) (call : Call) : Nat :=
  10 * connection.place.rank + call.rank

def sessionsRemaining (network : PoolNetwork) : Nat :=
  ∑ k ∈ Finset.range network.accepted,
    sessionRemaining (network.connections k) (network.server.calls (k + 1))

/-- The sections that the threads of a stopped pool have left, at most. -/
def remaining (network : PoolNetwork) : Nat :=
  100 * network.listener.rank + (network.server.calls 0).rank + network.sessionsRemaining

/-! ## Sections of a session -/

theorem rank_writes {message : ServerMessage} {next failed : SessionPlace} {n : Nat}
    (hnext : next.rank < n) (hfailed : failed.rank < n) :
    (writes io connection message next failed).connection.place.rank < n := by
  rw [writes, PoolConnection.write]
  split
  · exact hnext
  · exact hfailed

theorem rank_currentJob {next : PoolJob → SessionMove} {n : Nat}
    (hnext : ∀ job, (next job).connection.place.rank < n) (hleaving : 2 < n)
    (h : network.withCurrentJob connection next = some move) :
    move.connection.place.rank < n := by
  obtain ⟨outcome, _, rfl⟩ := Option.map_eq_some_iff.mp h
  cases outcome with
  | ok job => exact hnext job
  | error fault => exact hleaving

theorem rank_afterHello (message : ClientMessage) :
    (network.afterHello P message).rank < 9 := by
  cases message with
  | submitShare jobId nonce => simp [afterHello]
  | hello protocolVersion networkId consensusFingerprint worker payout =>
      rw [afterHello]
      split
      · simp
      split
      · simp
      split
      · simp
      split <;> simp

/-- A thread in a call goes on with it, or leaves this place. -/
theorem falls_rotate {next : SessionPlace} (hnext : next.rank < connection.place.rank)
    (hleaving : 2 < connection.place.rank) :
    (network.rotate io k connection next).connection.place.rank < connection.place.rank ∨
      network.rotate io k connection next =
        { connection, action := some (.run (k + 1) io.env) } := by
  rw [rotate]
  split
  · exact .inl hnext
  · exact .inl hleaving
  · exact .inr rfl

/-- After a stop, a section takes a session to a later place, or goes on with its call. -/
theorem nextSection_falls (hstop : network.stop = true)
    (h : network.nextSection P io k connection = some move) :
    move.connection.place.rank < connection.place.rank ∨
      move = { connection, action := some (.run (k + 1) io.env) } := by
  rw [nextSection] at h
  cases hplace : connection.place with
  | hello =>
      rw [hplace] at h
      change network.readHello P io connection = some move at h
      rw [readHello] at h
      refine .inl ?_
      split at h
      · split at h
        · cases h
        · obtain rfl := Option.some.inj h
          exact rank_afterHello _
      · obtain rfl := Option.some.inj h
        simp
  | numbering worker payout =>
      rw [hplace] at h
      obtain rfl := Option.some.inj h
      exact .inl (by simp [takeNumber])
  | registering worker payout =>
      rw [hplace] at h
      obtain rfl := Option.some.inj h
      refine .inl ?_
      rw [register]
      show SessionPlace.rank (if _ then _ else _) < _
      split <;> simp
  | acking =>
      rw [hplace] at h
      obtain rfl := Option.some.inj h
      exact .inl (rank_writes (by simp) (by simp))
  | greeting =>
      rw [hplace] at h
      exact .inl (rank_currentJob (fun _ => by simp) (by simp) h)
  | opening job =>
      rw [hplace] at h
      obtain rfl := Option.some.inj h
      exact .inl (rank_writes (by simp) (by simp))
  | turning =>
      rw [hplace] at h
      obtain rfl := Option.some.inj h
      refine .inl ?_
      rw [turn, if_pos hstop]
      simp
  | rotating =>
      rw [hplace] at h
      obtain rfl := Option.some.inj h
      rw [← hplace]
      exact falls_rotate (by simp [hplace]) (by simp [hplace])
  | reading =>
      rw [hplace] at h
      change network.readMessage io k connection = some move at h
      rw [readMessage, if_pos (.inl hstop)] at h
      obtain rfl := Option.some.inj h
      exact .inl (by simp)
  | checking jobId nonce =>
      rw [hplace] at h
      obtain rfl := Option.some.inj h
      rw [← hplace]
      exact falls_rotate (by simp [hplace]) (by simp [hplace])
  | noting jobId nonce =>
      rw [hplace] at h
      exact .inl (rank_currentJob (fun _ => by simp) (by simp) h)
  | processing jobId nonce before =>
      rw [hplace] at h
      obtain rfl := Option.some.inj h
      rw [process]
      split
      · exact .inl (by simp)
      · exact .inl (by simp)
      · exact .inr rfl
  | answering jobId before result =>
      rw [hplace] at h
      refine .inl (rank_currentJob (fun job => ?_) (by simp) h)
      show (if _ then _ else _ : SessionMove).connection.place.rank < _
      split
      · exact Nat.lt_succ_self _
      · exact Nat.lt_succ_of_lt (by simp)
  | renewing job result =>
      rw [hplace] at h
      obtain rfl := Option.some.inj h
      exact .inl (rank_writes (by simp) (by simp))
  | replying result =>
      rw [hplace] at h
      obtain rfl := Option.some.inj h
      exact .inl (rank_writes (by simp) (by simp))
  | rejecting code message =>
      rw [hplace] at h
      obtain rfl := Option.some.inj h
      exact .inl (rank_writes (by simp) (by simp))
  | refusing code message =>
      rw [hplace] at h
      obtain rfl := Option.some.inj h
      exact .inl (rank_writes (by simp) (by simp))
  | leaving =>
      rw [hplace] at h
      obtain rfl := Option.some.inj h
      exact .inl (by simp)
  | closing =>
      rw [hplace] at h
      obtain rfl := Option.some.inj h
      exact .inl (by simp)
  | closed =>
      rw [hplace] at h
      cases h

theorem sessionRemaining_lt (hstop : network.stop = true)
    (hmove : network.nextSection P io k connection = some move)
    (hacts : Acts P E network.server server move.action) :
    sessionRemaining move.connection (server.calls (k + 1)) <
      sessionRemaining connection (network.server.calls (k + 1)) := by
  rw [sessionRemaining, sessionRemaining]
  rcases nextSection_falls hstop hmove with hlt | rfl
  · have hle := Call.rank_le (server.calls (k + 1))
    omega
  · obtain ⟨call, credits, hrule, hframe⟩ := PoolServer.runSection_step hacts
    have hlt := hrule.rank_lt
    rw [hframe.calls, Function.update_self]
    exact Nat.add_lt_add_left hlt _

theorem Seated.serve_remaining (h : network.Seated) (hstop : network.stop = true)
    (hstep : network.serve P E k io = some network') :
    network'.remaining < network.remaining := by
  have hcalls : ∀ u, u ≠ k + 1 → network'.server.calls u = network.server.calls u :=
    fun u hu => h.serve_calls hstep hu
  obtain ⟨move, server, hmove, hacts, rfl⟩ := serve_some hstep
  have hk : k < network.accepted := h.lt_accepted fun hclosed => by
    rw [nextSection, hclosed] at hmove
    cases hmove
  have hfirst : server.calls 0 = network.server.calls 0 := hcalls 0 (Nat.succ_ne_zero k).symm
  have hlt := sessionRemaining_lt hstop hmove hacts
  have hsum : ∑ j ∈ Finset.range network.accepted,
      sessionRemaining (Function.update network.connections k move.connection j)
        (server.calls (j + 1)) < network.sessionsRemaining := by
    refine Finset.sum_lt_sum (fun j _ => ?_) ⟨k, Finset.mem_range.mpr hk, ?_⟩
    · by_cases hj : j = k
      · rw [hj, Function.update_self]
        exact hlt.le
      · have hcall : server.calls (j + 1) = network.server.calls (j + 1) :=
          hcalls (j + 1) fun heq => hj (Nat.succ.inj heq)
        rw [Function.update_of_ne hj, hcall]
    · rw [Function.update_self]
      exact hlt
  show 100 * network.listener.rank + (server.calls 0).rank + _ <
    100 * network.listener.rank + (network.server.calls 0).rank + _
  rw [hfirst]
  exact Nat.add_lt_add_left hsum _

/-! ## Sections of the listener -/

/-- Another state of the server, with the calls of the sessions as they were. -/
theorem sessionsRemaining_congr (listener : ListenerPlace)
    (hcalls : ∀ u, u ≠ 0 → server.calls u = network.server.calls u) :
    sessionsRemaining { network with server, listener } = network.sessionsRemaining :=
  Finset.sum_congr rfl fun j _ =>
    congrArg (sessionRemaining (network.connections j)) (hcalls (j + 1) (Nat.succ_ne_zero j))

theorem listen_remaining (hstop : network.stop = true) {env : Environment}
    (hstep : network.listen P E env = some network') :
    network'.remaining < network.remaining := by
  have hmove : ∀ listener : ListenerPlace, listener.rank < network.listener.rank →
      remaining { network with listener } < network.remaining := by
    intro listener hlt
    show 100 * listener.rank + (network.server.calls 0).rank + network.sessionsRemaining <
      100 * network.listener.rank + (network.server.calls 0).rank + network.sessionsRemaining
    omega
  rw [PoolNetwork.listen] at hstep
  split at hstep
  · next hplace =>
      rw [if_pos hstop] at hstep
      obtain rfl := Option.some.inj hstep
      exact hmove .stopped (by simp [hplace])
  · next hplace =>
      split at hstep
      · obtain rfl := Option.some.inj hstep
        exact hmove .stopped (by simp [hplace])
      · obtain rfl := Option.some.inj hstep
        exact hmove .accepting (by simp [hplace])
      · obtain ⟨server, hacts, rfl⟩ := act_some hstep
        obtain ⟨call, credits, hrule, hframe⟩ := PoolServer.runSection_step hacts
        have hlt := hrule.rank_lt
        have hcall : (server.calls 0) = call := by rw [hframe.calls, Function.update_self]
        have hsame : sessionsRemaining { network with server } = network.sessionsRemaining :=
          sessionsRemaining_congr network.listener fun u hu => by
            rw [hframe.calls, Function.update_of_ne hu]
        show 100 * network.listener.rank + (server.calls 0).rank +
            sessionsRemaining { network with server } <
          100 * network.listener.rank + (network.server.calls 0).rank + network.sessionsRemaining
        rw [hsame, hcall]
        omega
  · next hplace =>
      obtain rfl := Option.some.inj hstep
      exact hmove .turning (by simp [hplace])
  · cases hstep

theorem accept_remaining {privateAddress : Bool}
    (hstep : network.accept privateAddress = some network') :
    network'.remaining < network.remaining := by
  rw [PoolNetwork.accept] at hstep
  split at hstep
  · next hplace =>
      have hrank : network.listener.rank = 2 := by
        rw [hplace]
        rfl
      split at hstep
      · obtain rfl := Option.some.inj hstep
        show 100 * 1 + (network.server.calls 0).rank + network.sessionsRemaining <
          100 * network.listener.rank + (network.server.calls 0).rank + network.sessionsRemaining
        omega
      · obtain rfl := Option.some.inj hstep
        have hnew : ∑ j ∈ Finset.range (network.accepted + 1), sessionRemaining
              (Function.update network.connections network.accepted
                (PoolConnection.unused.goto .hello) j) (network.server.calls (j + 1)) =
            network.sessionsRemaining + sessionRemaining (PoolConnection.unused.goto .hello)
              (network.server.calls (network.accepted + 1)) := by
          rw [Finset.sum_range_succ, Function.update_self]
          refine congrArg (· + _) (Finset.sum_congr rfl fun j hj => ?_)
          rw [Function.update_of_ne (Finset.mem_range.mp hj).ne]
        have hle := Call.rank_le (network.server.calls (network.accepted + 1))
        have hhello : sessionRemaining (PoolConnection.unused.goto .hello)
            (network.server.calls (network.accepted + 1)) =
              90 + (network.server.calls (network.accepted + 1)).rank := rfl
        show 100 * 1 + (network.server.calls 0).rank +
            ∑ j ∈ Finset.range (network.accepted + 1), _ <
          100 * network.listener.rank + (network.server.calls 0).rank + network.sessionsRemaining
        rw [hnew, hhello]
        omega
  · cases hstep

theorem failListener_remaining (hstep : network.failListener = some network') :
    network'.remaining < network.remaining := by
  have hmove : 0 < network.listener.rank →
      remaining { network with listener := .stopped } < network.remaining := by
    intro hlt
    show 100 * 0 + (network.server.calls 0).rank + network.sessionsRemaining <
      100 * network.listener.rank + (network.server.calls 0).rank + network.sessionsRemaining
    omega
  rw [failListener] at hstep
  split at hstep
  · next hplace =>
      obtain rfl := Option.some.inj hstep
      exact hmove (by simp [hplace])
  · next hplace =>
      obtain rfl := Option.some.inj hstep
      exact hmove (by simp [hplace])
  · cases hstep

/-! ## Steps -/

/-- The event is a section of a thread of the pool. -/
def OfPool : PoolNetworkEvent → Bool
  | .listen _ | .listenerFails | .accept _ | .serve .. => true
  | _ => false

/-- The other parts of the program, and the clients, leave the threads where they are. -/
theorem remaining_of_others {event : PoolNetworkEvent} (hothers : OfPool event = false)
    (hstep : network.step P E event = some network') : network'.remaining = network.remaining := by
  cases event with
  | send k message =>
      obtain ⟨_, hstep⟩ := Option.ite_none_right_eq_some.mp hstep
      obtain rfl := Option.some.inj hstep
      refine congrArg (_ + ·) (Finset.sum_congr rfl fun j _ => ?_)
      show sessionRemaining (Function.update network.connections k _ j) _ = _
      by_cases hj : j = k
      · rw [hj, Function.update_self]
        rfl
      · rw [Function.update_of_ne hj]
  | submitBlock append block acceptedAt =>
      obtain ⟨server, hacts, rfl⟩ := act_some hstep
      obtain ⟨_, hacts⟩ := Option.ite_none_right_eq_some.mp hacts
      obtain rfl := Option.some.inj hacts
      rfl
  | submitTransaction transaction =>
      obtain ⟨server, hacts, rfl⟩ := act_some hstep
      obtain ⟨_, hacts⟩ := Option.ite_none_right_eq_some.mp hacts
      obtain rfl := Option.some.inj hacts
      rfl
  | stop =>
      obtain rfl := Option.some.inj hstep
      rfl
  | _ => cases hothers

theorem Seated.step_remaining (h : network.Seated) (hstop : network.stop = true)
    {event : PoolNetworkEvent} (hstep : network.step P E event = some network') :
    (if OfPool event then 1 else 0) + network'.remaining ≤ network.remaining := by
  cases event with
  | listen env => exact Nat.one_add _ ▸ listen_remaining hstop hstep
  | listenerFails => exact Nat.one_add _ ▸ failListener_remaining hstep
  | accept privateAddress => exact Nat.one_add _ ▸ accept_remaining hstep
  | serve k io => exact Nat.one_add _ ▸ h.serve_remaining hstop hstep
  | _ => exact ((Nat.zero_add _).trans (remaining_of_others rfl hstep)).le

/-- The stop flag stays. -/
theorem stop_of_step {event : PoolNetworkEvent} (hstop : network.stop = true)
    (hstep : network.step P E event = some network') : network'.stop = true := by
  cases event with
  | listen env =>
      change network.listen P E env = some network' at hstep
      rw [PoolNetwork.listen, if_pos hstop] at hstep
      split at hstep
      · obtain rfl := Option.some.inj hstep
        exact hstop
      · split at hstep
        · obtain rfl := Option.some.inj hstep
          exact hstop
        · obtain rfl := Option.some.inj hstep
          exact hstop
        · obtain ⟨server, _, rfl⟩ := act_some hstep
          exact hstop
      · obtain rfl := Option.some.inj hstep
        exact hstop
      · cases hstep
  | listenerFails =>
      change network.failListener = some network' at hstep
      rw [failListener] at hstep
      split at hstep <;> cases hstep <;> exact hstop
  | accept privateAddress =>
      change network.accept privateAddress = some network' at hstep
      rw [PoolNetwork.accept] at hstep
      split at hstep
      · split at hstep <;> cases hstep <;> exact hstop
      · cases hstep
  | serve k io =>
      obtain ⟨move, server, _, _, rfl⟩ := serve_some hstep
      exact hstop
  | send k message =>
      obtain ⟨_, hstep⟩ := Option.ite_none_right_eq_some.mp hstep
      obtain rfl := Option.some.inj hstep
      exact hstop
  | submitBlock append block acceptedAt =>
      obtain ⟨server, _, rfl⟩ := act_some hstep
      exact hstop
  | submitTransaction transaction =>
      obtain ⟨server, _, rfl⟩ := act_some hstep
      exact hstop
  | stop =>
      obtain rfl := Option.some.inj hstep
      rfl

theorem Seated.run_remaining (h : network.Seated) (hstop : network.stop = true)
    {events : List PoolNetworkEvent}
    (hrun : runEvents (PoolNetwork.step P E) events network = some network')
    (hfew : network'.numbered < 2 ^ 64) :
    events.countP OfPool + network'.remaining ≤ network.remaining := by
  induction events generalizing network with
  | nil =>
      obtain rfl := Option.some.inj hrun
      exact (Nat.zero_add _).le
  | cons event rest ih =>
      obtain ⟨middle, hmiddle, hrest⟩ := runEvents_cons.mp hrun
      have hbefore := ((numbered_le hmiddle).trans (numbered_le_run hrest)).trans_lt hfew
      have hfirst := h.step_remaining hstop hmiddle
      have hlater := ih (h.step hbefore hmiddle) (stop_of_step hstop hmiddle) hrest
      rw [List.countP_cons]
      omega

/-- While a thread has not ended, one can go on, whatever its client does. -/
theorem Live.some_goes_on (h : Live P E params verifier network) {t : Nat}
    (hruns : network.Runs t) :
    ∃ u, ∀ env, network.CanGoOn P E { env, ok := false } u := by
  by_cases hall : ∀ env, network.CanGoOn P E { env, ok := false } t
  · exact ⟨t, hall⟩
  · obtain ⟨env, hnot⟩ := not_forall.mp hall
    have hclient : ¬network.AwaitsClient { env, ok := false } t := by
      cases t with
      | zero => exact id
      | succ k => exact fun hawaits => Bool.false_ne_true hawaits.1
    rcases h.goes_on hruns hclient with hgoes | ⟨holder, _, _, hgoes⟩
    · exact absurd hgoes hnot
    · exact ⟨holder, fun env => hgoes { env, ok := false }⟩

end PoolNetwork

/-- In every run of a pool that goes on `later` from a state in which it was stopped. -/
theorem pool_shutdown_completes {P : Platform} {E : PowEvaluation} {params : NetworkParams}
    {verifier : ConsensusPowVerifier} {accepted : List Acceptance} {node : Node}
    (hnode : NodeRun P params verifier accepted node) {config : PoolServerConfig}
    {maxConnections : Nat} {consensusFingerprint : Bytes32} {now : UInt64}
    {startupNonce firstJobNonce : Bytes32} {network stopped after : PoolNetwork}
    (hspawn : spawnPoolNetwork P config maxConnections consensusFingerprint node now startupNonce
      firstJobNonce = some network)
    {events later : List PoolNetworkEvent}
    (hrun : runEvents (PoolNetwork.step P E) events network = some stopped)
    (hstop : stopped.stop = true)
    (hlater : runEvents (PoolNetwork.step P E) later stopped = some after)
    (hfew : after.numbered < 2 ^ 64) :
    later.countP PoolNetwork.OfPool ≤ stopped.remaining ∧
      ((∀ t, ¬after.Runs t) ∨ ∃ t, ∀ env, after.CanGoOn P E { env, ok := false } t) := by
  have hbefore := (PoolNetwork.numbered_le_run hlater).trans_lt hfew
  have hlive := (PoolNetwork.Live.spawn (E := E) hnode hspawn).run hrun hbefore
  have hcount := hlive.seated.run_remaining hstop hlater hfew
  refine ⟨(Nat.le_add_right _ _).trans hcount, ?_⟩
  by_cases hruns : ∃ t, after.Runs t
  · obtain ⟨t, hruns⟩ := hruns
    exact .inr ((hlive.run hlater hfew).some_goes_on hruns)
  · exact .inl (not_exists.mp hruns)

/-- The sample pool is stopped with a session that has registered, which then ends. -/
theorem pool_shutdown_completes_sample :
    ∃ network stopped after, sampleNetwork = some network ∧
      runEvents (PoolNetwork.step samplePlatform sampleEvaluation)
        (sampleVisit network ++ [.stop]) network = some stopped ∧
      runEvents (PoolNetwork.step samplePlatform sampleEvaluation)
        (List.replicate 4 (.serve 0 { env := sampleEnvironment, ok := false })) stopped =
          some after ∧
      (after.connections 0).place.rank = 0 ∧ 4 ≤ stopped.remaining := by
  have hsample : (sampleNetwork.bind fun network =>
      (runEvents (PoolNetwork.step samplePlatform sampleEvaluation)
        (sampleVisit network ++ [.stop]) network).bind fun stopped =>
        (runEvents (PoolNetwork.step samplePlatform sampleEvaluation)
          (List.replicate 4 (.serve 0 { env := sampleEnvironment, ok := false })) stopped).map
          fun after => (stopped.stop, after.numbered, (after.connections 0).place.rank)) =
      some (true, 1, 0) := by decide +kernel
  obtain ⟨network, hspawn, hsample⟩ := Option.bind_eq_some_iff.mp hsample
  obtain ⟨stopped, hrun, hsample⟩ := Option.bind_eq_some_iff.mp hsample
  obtain ⟨after, hlater, hreads⟩ := Option.map_eq_some_iff.mp hsample
  obtain ⟨hstop, hreads⟩ := Prod.mk.inj hreads
  obtain ⟨hnumbered, hrank⟩ := Prod.mk.inj hreads
  have hfew : after.numbered < 2 ^ 64 := by
    rw [hnumbered]
    decide
  exact ⟨network, stopped, after, hspawn, hrun, hlater, hrank,
    (pool_shutdown_completes sampleNode₀_run hspawn hrun hstop hlater hfew).1⟩

end CommonFoundry
