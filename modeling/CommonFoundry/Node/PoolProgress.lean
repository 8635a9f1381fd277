/-
# `CommonFoundry.Node.PoolProgress` — no thread of a pool is stuck

A thread of the pool waits for its client, or for the lock of the node while another holds it;
the other locks are taken and dropped within one section.  The holder waits for nobody: what it
needs, it has.  So the listener and the sessions never bring each other to a halt.
-/
import CommonFoundry.Node.PoolServes

namespace CommonFoundry

open Lib Lib.Outcome

/-- The thread is about to take the lock of the node. -/
def Call.wantsNode : Call → Bool
  | .locking .. | .rotating _ => true
  | _ => false

theorem Call.busy_of_holdsNode {call : Call} (h : call.holdsNode = true) :
    call.atRest = false ∧ call.wantsNode = false := by
  cases call with
  | reserving share active block => exact ⟨rfl, rfl⟩
  | submitting share active block => exact ⟨rfl, rfl⟩
  | crediting share active blockAccepted => exact ⟨rfl, rfl⟩
  | installing next => exact ⟨rfl, rfl⟩
  | _ => cases h

/-! ## The server -/

namespace PoolServer

variable {P : Platform} {E : PowEvaluation} {params : NetworkParams}
  {verifier : ConsensusPowVerifier} {server server' : PoolServer} {t : Nat}

theorem Data.exists_current (h : Data P E params verifier server) :
    ∃ job, server.jobs[server.state.current]? = some job := by
  have hlt : server.state.current < server.jobs.length := by
    have hcurrent := h.current
    omega
  exact ⟨_, List.getElem?_eq_getElem hlt⟩

/-- A thread in a call has a next section, unless it is in front of the lock. -/
theorem Sound.runs (h : Sound P E params verifier server) (env : Environment)
    (hbusy : (server.calls t).atRest = false)
    (hfree : (server.calls t).wantsNode = true → server.nodeHolder = none) :
    ∃ server', server.runSection P E env t = some server' := by
  obtain ⟨current, hcurrent⟩ := h.data.exists_current
  have hknown := h.known t
  rw [PoolServer.runSection]
  cases hcall : server.calls t with
  | idle =>
      rw [hcall] at hbusy
      cases hbusy
  | rotated result =>
      rw [hcall] at hbusy
      cases hbusy
  | returned result =>
      rw [hcall] at hbusy
      cases hbusy
  | reading share =>
      show ∃ server', server.readCurrent t share = some server'
      rw [PoolServer.readCurrent, hcurrent]
      split <;> exact ⟨_, rfl⟩
  | evaluating share active =>
      rw [hcall] at hknown
      obtain ⟨job, hjob, _⟩ := hknown
      show ∃ server', server.evaluate E t share active = some server'
      rw [PoolServer.evaluate, hjob]
      exact ⟨_, rfl⟩
  | locking share active block =>
      rw [hcall] at hknown
      obtain ⟨job, hjob, _⟩ := hknown
      have hnone : server.nodeHolder = none := hfree (hcall ▸ rfl)
      show ∃ server', server.lockForShare t share active block = some server'
      rw [PoolServer.lockForShare, if_neg (not_not.mpr hnone), hjob]
      split <;> exact ⟨_, rfl⟩
  | reserving share active block =>
      rw [hcall] at hknown
      obtain ⟨job, hjob, _⟩ := hknown
      show ∃ server', server.reserve t share active block = some server'
      rw [PoolServer.reserve, hjob]
      exact ⟨_, rfl⟩
  | submitting share active block => exact ⟨_, rfl⟩
  | crediting share active blockAccepted => exact ⟨_, rfl⟩
  | rejecting share code => exact ⟨_, rfl⟩
  | rotating next =>
      have hnone : server.nodeHolder = none := hfree (hcall ▸ rfl)
      show ∃ server', server.lockForRotation t next = some server'
      rw [PoolServer.lockForRotation, if_neg (not_not.mpr hnone)]
      split <;> exact ⟨_, rfl⟩
  | installing next =>
      show ∃ server', server.install P env t next = some server'
      rw [PoolServer.install, hcurrent]
      split <;> exact ⟨_, rfl⟩

theorem Sound.due (h : Sound P E params verifier server) {action : PoolAction}
    (hdue : server.Due t action)
    (hfree : (server.calls t).wantsNode = true → server.nodeHolder = none) :
    ∃ server', server.step P E action = some server' := by
  cases hdue with
  | rotation hrest => exact ⟨_, if_pos hrest⟩
  | share hrest => exact ⟨_, if_pos hrest⟩
  | onward hbusy => exact h.runs _ hbusy hfree

theorem Sound.runAdmitted (h : Sound P E params verifier server) {actions : List PoolAction}
    (hrun : runEvents (stepAdmitted P E) actions server = some server') :
    Sound P E params verifier server' := by
  refine runEvents_inv (fun server : PoolServer => Sound P E params verifier server) ?_ h hrun
  intro action before after hbefore hstep
  obtain ⟨_, hstep⟩ := Option.ite_none_right_eq_some.mp hstep
  exact hbefore.step hstep

end PoolServer

/-! ## The listener -/

def ListenerPlace.Fits : ListenerPlace → Call → Prop
  | .rotating, call => call.Rotates
  | _, call => call.atRest = true

namespace PoolNetwork

variable {P : Platform} {E : PowEvaluation} {params : NetworkParams}
  {verifier : ConsensusPowVerifier} {network network' : PoolNetwork} {server : PoolServer}
  {k : Nat} {connection : PoolConnection}

/-- The listener is in the call that its place says. -/
def ListenerFits (network : PoolNetwork) : Prop :=
  network.listener.Fits (network.server.calls 0)

theorem listenerFits_listen (h : network.ListenerFits) {env : Environment}
    (hstep : network.listen P E env = some network') : network'.ListenerFits := by
  rw [ListenerFits] at h
  rw [PoolNetwork.listen] at hstep
  split at hstep
  · next hplace =>
      rw [hplace] at h
      split at hstep
      · obtain rfl := Option.some.inj hstep
        exact h
      · obtain ⟨middle, hmiddle, rfl⟩ := Option.map_eq_some_iff.mp hstep
        obtain ⟨server, hacts, rfl⟩ := act_some hmiddle
        obtain ⟨_, hacts⟩ := Option.ite_none_right_eq_some.mp hacts
        obtain rfl := Option.some.inj hacts
        show ((network.server.goto 0 (.rotating .done)).calls 0).Rotates
        rw [PoolServer.goto_calls_self]
        trivial
  · next hplace =>
      rw [hplace] at h
      split at hstep
      · next hcall =>
          obtain rfl := Option.some.inj hstep
          show (network.server.calls 0).atRest = true
          rw [hcall]
          rfl
      · next hcall =>
          obtain rfl := Option.some.inj hstep
          show (network.server.calls 0).atRest = true
          rw [hcall]
          rfl
      · obtain ⟨server, hacts, rfl⟩ := act_some hstep
        show network.listener.Fits (server.calls 0)
        rw [hplace]
        exact PoolServer.runs_rotation h hacts
  · next hplace =>
      rw [hplace] at h
      obtain rfl := Option.some.inj hstep
      exact h
  · cases hstep

/-- A section of a session leaves the calls of the other threads. -/
theorem Seated.serve_calls (h : network.Seated) {io : SessionIo}
    (hstep : network.serve P E k io = some network') {u : Nat} (hu : u ≠ k + 1) :
    network'.server.calls u = network.server.calls u := by
  obtain ⟨move, server, hmove, hacts, rfl⟩ := serve_some hstep
  cases nextSection_moves (E := E) (h.fits k) hmove with
  | stays hstays =>
      have hleaves := hacts.leaves fun a ha => (hstays.action a ha).ofThread
      exact hleaves.calls u hu
  | takesNumber hplace =>
      obtain rfl : server = network.server := hacts
      rfl
  | registers hplace =>
      obtain rfl := Option.some.inj hacts
      rfl
  | disconnects hplace =>
      obtain rfl := Option.some.inj hacts
      rfl
  | ends hplace =>
      obtain rfl : server = network.server := hacts
      rfl

theorem listenerFits_act (h : network.ListenerFits) {action : PoolAction}
    (haction : PoolServer.OfThread 1 action)
    (hstep : network.act P E (some action) = some network') : network'.ListenerFits := by
  obtain ⟨server, hacts, rfl⟩ := act_some hstep
  have hleaves := PoolServer.LeavesSessions.of_step haction hacts
  show network.listener.Fits (server.calls 0)
  rw [hleaves.calls 0 (Nat.zero_ne_one)]
  exact h

theorem Seated.listenerFits_step (h : network.Seated) (hfits : network.ListenerFits)
    {event : PoolNetworkEvent} (hstep : network.step P E event = some network') :
    network'.ListenerFits := by
  cases event with
  | listen env => exact listenerFits_listen hfits hstep
  | listenerFails =>
      change network.failListener = some network' at hstep
      rw [ListenerFits] at hfits
      rw [failListener] at hstep
      split at hstep
      · next hplace =>
          rw [hplace] at hfits
          obtain rfl := Option.some.inj hstep
          exact hfits
      · next hplace =>
          rw [hplace] at hfits
          obtain rfl := Option.some.inj hstep
          exact hfits
      · cases hstep
  | accept privateAddress =>
      change network.accept privateAddress = some network' at hstep
      rw [ListenerFits] at hfits
      rw [PoolNetwork.accept] at hstep
      split at hstep
      · next hplace =>
          rw [hplace] at hfits
          split at hstep
          · obtain rfl := Option.some.inj hstep
            exact hfits
          · obtain rfl := Option.some.inj hstep
            exact hfits
      · cases hstep
  | serve k io =>
      have hcall := h.serve_calls hstep (Nat.succ_ne_zero k).symm
      obtain ⟨move, server, _, _, rfl⟩ := serve_some hstep
      show network.listener.Fits (server.calls 0)
      rw [show server.calls 0 = network.server.calls 0 from hcall]
      exact hfits
  | send k message =>
      obtain ⟨_, hstep⟩ := Option.ite_none_right_eq_some.mp hstep
      obtain rfl := Option.some.inj hstep
      exact hfits
  | submitBlock append block acceptedAt =>
      have haction : PoolServer.OfThread 1 (.submitBlock append block acceptedAt) := trivial
      exact listenerFits_act hfits haction hstep
  | submitTransaction transaction =>
      have haction : PoolServer.OfThread 1 (.submitTransaction transaction) := trivial
      exact listenerFits_act hfits haction hstep
  | stop =>
      obtain rfl := Option.some.inj hstep
      exact hfits

/-! ## What a thread can do -/

theorem act_of_acts {action : Option PoolAction} (h : Acts P E network.server server action) :
    network.act P E action = some { network with server } := by
  cases action with
  | none =>
      obtain rfl : server = network.server := h
      rfl
  | some action => exact congrArg (Option.map _) h

theorem exists_withCurrentJob (hjob : ∃ job,
    network.server.jobs[network.server.state.current]? = some job) (next : PoolJob → SessionMove) :
    ∃ move, network.withCurrentJob connection next = some move := by
  obtain ⟨job, hjob⟩ := hjob
  rw [withCurrentJob, PoolServer.currentJob, hjob]
  split <;> exact ⟨_, rfl⟩

/-- A session that is not closed has a next section, unless it waits for a message. -/
theorem exists_nextSection (hjob : ∃ job,
    network.server.jobs[network.server.state.current]? = some job) {io : SessionIo}
    (hopen : connection.place ≠ .closed)
    (hmessage : io.ok = true → connection.toServer = [] →
      connection.place ≠ .hello ∧ connection.place ≠ .reading) :
    ∃ move, network.nextSection P io k connection = some move := by
  rw [nextSection]
  cases hplace : connection.place with
  | hello =>
      show ∃ move, network.readHello P io connection = some move
      rw [readHello]
      split
      · next hok =>
          split
          · next hempty => exact absurd hplace (hmessage hok hempty).1
          · exact ⟨_, rfl⟩
      · exact ⟨_, rfl⟩
  | reading =>
      show ∃ move, network.readMessage io k connection = some move
      rw [readMessage]
      split
      · exact ⟨_, rfl⟩
      · next hgoes =>
          have hok : io.ok = true := not_not.mp fun hfails => hgoes (.inr hfails)
          split
          · next hempty => exact absurd hplace (hmessage hok hempty).2
          · exact ⟨_, rfl⟩
  | greeting => exact exists_withCurrentJob hjob _
  | noting jobId nonce => exact exists_withCurrentJob hjob _
  | answering jobId before result => exact exists_withCurrentJob hjob _
  | closed => exact absurd hplace hopen
  | _ => exact ⟨_, rfl⟩

theorem Seated.exists_serve (h : network.Seated)
    (hsound : network.server.Sound P E params verifier) {io : SessionIo}
    (hopen : (network.connections k).place ≠ .closed)
    (hmessage : io.ok = true → (network.connections k).toServer = [] →
      (network.connections k).place ≠ .hello ∧ (network.connections k).place ≠ .reading)
    (hfree : (network.server.calls (k + 1)).wantsNode = true →
      network.server.nodeHolder = none) :
    ∃ after, network.serve P E k io = some after := by
  obtain ⟨move, hmove⟩ :=
    exists_nextSection (P := P) (k := k) hsound.data.exists_current hopen hmessage
  have hacts : ∃ server, Acts P E network.server server move.action := by
    cases nextSection_moves (E := E) (h.fits k) hmove with
    | stays hstays =>
        cases haction : move.action with
        | none => exact ⟨_, rfl⟩
        | some action => exact hsound.due (hstays.action action haction) hfree
    | takesNumber hplace => exact ⟨_, rfl⟩
    | registers hplace => exact ⟨_, rfl⟩
    | disconnects hplace => exact ⟨_, rfl⟩
    | ends hplace => exact ⟨_, rfl⟩
  obtain ⟨server, hacts⟩ := hacts
  rw [PoolNetwork.serve, hmove, Option.bind_some, act_of_acts hacts]
  exact ⟨_, rfl⟩

theorem exists_listen (h : network.ListenerFits)
    (hsound : network.server.Sound P E params verifier) (env : Environment)
    (hopen : network.listener ≠ .stopped)
    (hfree : (network.server.calls 0).wantsNode = true → network.server.nodeHolder = none) :
    ∃ after, network.listen P E env = some after := by
  rw [ListenerFits] at h
  rw [PoolNetwork.listen]
  split
  · next hplace =>
      rw [hplace] at h
      split
      · exact ⟨_, rfl⟩
      · obtain ⟨server, hacts⟩ := hsound.due (.rotation h) hfree
        have hacts : Acts P E network.server server (some (.rotateIfTipChanged 0)) := hacts
        rw [act_of_acts hacts]
        exact ⟨_, rfl⟩
  · next hplace =>
      rw [hplace] at h
      split
      · exact ⟨_, rfl⟩
      · exact ⟨_, rfl⟩
      · next hrotated =>
          have hbusy : (network.server.calls 0).atRest = false := busy_of_rotates h hrotated
          obtain ⟨server, hacts⟩ := hsound.due (.onward hbusy) hfree
          have hacts : Acts P E network.server server (some (.run 0 env)) := hacts
          exact ⟨_, act_of_acts hacts⟩
  · exact ⟨_, rfl⟩
  · next hplace => exact absurd hplace hopen

/-! ## Threads -/

/-- The next section of a thread of the pool. -/
def threadEvent (io : SessionIo) : Nat → PoolNetworkEvent
  | 0 => .listen io.env
  | k + 1 => .serve k io

/-- The thread has not ended. -/
def Runs (network : PoolNetwork) : Nat → Prop
  | 0 => network.listener ≠ .stopped
  | k + 1 => (network.connections k).place ≠ .closed

/-- The thread reads, and its client has not sent anything yet. -/
def AwaitsClient (network : PoolNetwork) (io : SessionIo) : Nat → Prop
  | 0 => False
  | k + 1 => io.ok = true ∧ (network.connections k).toServer = [] ∧
      ((network.connections k).place = .hello ∨ (network.connections k).place = .reading)

def CanGoOn (P : Platform) (E : PowEvaluation) (network : PoolNetwork) (io : SessionIo)
    (t : Nat) : Prop :=
  ∃ after, network.step P E (threadEvent io t) = some after

/-- What holds of a pool with its connections in every run. -/
structure Live (P : Platform) (E : PowEvaluation) (params : NetworkParams)
    (verifier : ConsensusPowVerifier) (network : PoolNetwork) : Prop where
  seated : network.Seated
  listener : network.ListenerFits
  sound : network.server.Sound P E params verifier

theorem Live.spawn {accepted : List Acceptance} {node : Node}
    (hnode : NodeRun P params verifier accepted node) {config : PoolServerConfig}
    {maxConnections : Nat} {consensusFingerprint : Bytes32} {now : UInt64}
    {startupNonce firstJobNonce : Bytes32}
    (hspawn : spawnPoolNetwork P config maxConnections consensusFingerprint node now startupNonce
      firstJobNonce = some network) : Live P E params verifier network := by
  have hseated := Seated.spawn hspawn
  obtain ⟨_, hspawn⟩ := Option.ite_none_left_eq_some.mp hspawn
  obtain ⟨server, hserver, rfl⟩ := Option.map_eq_some_iff.mp hspawn
  refine ⟨hseated, ?_, .spawn hnode (spawned_of_toOption hserver)⟩
  have hcalls := (spawned_server hserver).2
  show (server.calls 0).atRest = true
  rw [hcalls]
  rfl

theorem numbered_le_run {events : List PoolNetworkEvent}
    (hrun : runEvents (PoolNetwork.step P E) events network = some network') :
    network.numbered ≤ network'.numbered :=
  runEvents_inv (fun later : PoolNetwork => network.numbered ≤ later.numbered)
    (fun hle hstep => hle.trans (numbered_le hstep)) (le_refl _) hrun

theorem Live.run (h : Live P E params verifier network) {events : List PoolNetworkEvent}
    (hrun : runEvents (PoolNetwork.step P E) events network = some network')
    (hfew : network'.numbered < 2 ^ 64) : Live P E params verifier network' := by
  obtain ⟨hseated, actions, hactions⟩ := h.seated.run hrun hfew
  refine ⟨hseated, ?_, h.sound.runAdmitted hactions⟩
  have hboth : network'.numbered < 2 ^ 64 → network'.Seated ∧ network'.ListenerFits := by
    refine runEvents_inv (fun network : PoolNetwork =>
      network.numbered < 2 ^ 64 → network.Seated ∧ network.ListenerFits) ?_
      (fun _ => ⟨h.seated, h.listener⟩) hrun
    intro event before after hbefore hstep hafter
    have hfew := (numbered_le hstep).trans_lt hafter
    obtain ⟨hseated, hfits⟩ := hbefore hfew
    exact ⟨hseated.step hfew hstep, hseated.listenerFits_step hfits hstep⟩
  exact (hboth hfew).2

theorem Live.canGoOn (h : Live P E params verifier network) {io : SessionIo} {t : Nat}
    (hruns : network.Runs t) (hclient : ¬network.AwaitsClient io t)
    (hfree : (network.server.calls t).wantsNode = true → network.server.nodeHolder = none) :
    network.CanGoOn P E io t := by
  cases t with
  | zero => exact exists_listen h.listener h.sound io.env hruns hfree
  | succ k =>
      refine h.seated.exists_serve h.sound hruns
        (fun hok hempty => ⟨fun hplace => ?_, fun hplace => ?_⟩) hfree
      · exact hclient ⟨hok, hempty, .inl hplace⟩
      · exact hclient ⟨hok, hempty, .inr hplace⟩

/-- The thread that holds the node has not ended, and waits for nobody. -/
theorem Live.holder_runs (h : Live P E params verifier network) {t : Nat}
    (hholds : (network.server.calls t).holdsNode = true) (io : SessionIo) :
    network.Runs t ∧ ¬network.AwaitsClient io t := by
  have hbusy := (Call.busy_of_holdsNode hholds).1
  cases t with
  | zero =>
      refine ⟨fun hstopped => ?_, id⟩
      have hlistener := h.listener
      rw [ListenerFits, hstopped] at hlistener
      exact Bool.false_ne_true (hbusy.symm.trans hlistener)
  | succ k =>
      have hrest : (network.connections k).place.Rests → False := by
        intro hrests
        have hatRest := ((network.connections k).fits_iff_atRest hrests _).mp (h.seated.fits k)
        exact Bool.false_ne_true (hbusy.symm.trans hatRest)
      refine ⟨fun hclosed => hrest (hclosed ▸ trivial), fun hawaits => ?_⟩
      rcases hawaits.2.2 with hplace | hplace
      · exact hrest (hplace ▸ trivial)
      · exact hrest (hplace ▸ trivial)

theorem Live.goes_on (h : Live P E params verifier network) {io : SessionIo} {t : Nat}
    (hruns : network.Runs t) (hclient : ¬network.AwaitsClient io t) :
    network.CanGoOn P E io t ∨ ∃ holder, network.server.nodeHolder = some holder ∧ holder ≠ t ∧
      ∀ io, network.CanGoOn P E io holder := by
  by_cases hwants : (network.server.calls t).wantsNode = true
  · cases hholder : network.server.nodeHolder with
    | none => exact .inl (h.canGoOn hruns hclient fun _ => hholder)
    | some holder =>
        have hholds : (network.server.calls holder).holdsNode = true :=
          (h.sound.exclusive holder).mpr hholder
        have hcalm := (Call.busy_of_holdsNode hholds).2
        refine .inr ⟨holder, rfl, ?_, fun io => ?_⟩
        · rintro rfl
          exact Bool.false_ne_true (hcalm.symm.trans hwants)
        · obtain ⟨hholderRuns, hawaits⟩ := h.holder_runs hholds io
          exact h.canGoOn hholderRuns hawaits fun hwants =>
            absurd (hcalm.symm.trans hwants) Bool.false_ne_true
  · exact .inl (h.canGoOn hruns hclient fun h => absurd h hwants)

end PoolNetwork

end CommonFoundry
