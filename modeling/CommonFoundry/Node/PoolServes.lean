/-
# `CommonFoundry.Node.PoolServes` — the sessions of a pool in every run

Each event keeps the places of the sessions (`Seated`), and moves the server as one does whose
registrations are admitted: what holds of every run of the server holds of the pool with its
connections.
-/
import CommonFoundry.Node.PoolSlots

namespace CommonFoundry

open Lib Lib.Outcome

namespace PoolNetwork

variable {P : Platform} {E : PowEvaluation} {network network' : PoolNetwork} {server : PoolServer}
  {k : Nat} {connection : PoolConnection}

/-! ## Steps -/

theorem Acts.leaves {action : Option PoolAction} {t : Nat}
    (hacts : Acts P E network.server server action)
    (haction : ∀ a, action = some a → PoolServer.OfThread t a) :
    PoolServer.LeavesSessions network.server server t := by
  cases action with
  | none =>
      obtain rfl : server = network.server := hacts
      exact .refl _ t
  | some action => exact .of_step (haction action rfl) hacts

/-- A connection that follows one whose thread is in no call. -/
theorem Seated.fits_of_rests (h : network.Seated) (hold : (network.connections k).place.Rests)
    (hnew : connection.place.Rests) : connection.Fits (network.server.calls (k + 1)) := by
  have hrest := ((network.connections k).fits_iff_atRest hold _).mp (h.fits k)
  exact (connection.fits_iff_atRest hnew _).mpr hrest

theorem Seated.takeNumber (h : network.Seated) {worker : List UInt8} {payout : Bytes32}
    (hplace : (network.connections k).place = .numbering worker payout) :
    network.Replaces k network.server (network.numbered + 1) network.activeConnections
      (network.takeNumber (network.connections k) worker payout).connection := by
  have hstage : (network.connections k).place.stage = .outside := by rw [hplace]; rfl
  have hnames := h.names k
  rw [hplace] at hnames
  refine {
    balanced := h.balanced
    calls := fun _ _ => rfl
    grows := Nat.le_succ _
    limit := le_refl _
    active := by rw [PoolConnection.live, PoolConnection.live, hstage]; rfl
    number := le_refl _
    numbered := fun _ => Nat.succ_ne_zero _
    distinct := fun j _ hsame => ?_
    names := hnames
    fits := h.fits_of_rests (hplace ▸ trivial) trivial
    connected := fun sessionId => ?_
    count := by rw [PoolConnection.guarded, PoolConnection.guarded, hstage]; exact le_refl _ }
  · have hle := h.numbers j
    rw [hsame] at hle
    exact absurd hle (Nat.not_succ_le_self _)
  · rw [h.connected sessionId, serves_iff k, hstage]
    exact or_congr_left ⟨fun hleft => (by cases hleft.1), fun hleft => (by cases hleft.1)⟩

theorem Seated.register (h : network.Seated) (hfew : network.numbered < 2 ^ 64)
    {worker : List UInt8} {payout : Bytes32}
    (hplace : (network.connections k).place = .registering worker payout)
    (hacts : Acts P E network.server server
      (some (.register (network.connections k).sessionId worker payout))) :
    network.Replaces k server network.numbered network.activeConnections
      (network.register (network.connections k) worker payout).connection := by
  have hstage : (network.connections k).place.stage = .numbered := by rw [hplace]; rfl
  have hadmits := h.admits hfew hplace
  obtain ⟨_, _, _, hregistered, _⟩ :=
    PoolLedger.registerSession_spec h.balanced (h.room hstage) (network.connections k).sessionId
      worker payout
  obtain ⟨hcount, hconnected⟩ :=
    PoolLedger.register_sessions h.balanced (h.room hstage) (network.connections k).sessionId
      worker payout
  have hserver : server = { network.server with
      ledger := (network.server.ledger.registerSession (network.connections k).sessionId worker
        payout).2 } := (Option.some.inj hacts).symm
  have hmoved : (network.register (network.connections k) worker payout).connection =
      (network.connections k).goto .acking := by
    rw [PoolNetwork.register, hregistered]
    rfl
  rw [hmoved, hserver]
  refine {
    balanced := ?_
    calls := fun _ _ => rfl
    grows := le_refl _
    limit := le_refl _
    active := by rw [PoolConnection.live, PoolConnection.live, hstage]; rfl
    number := h.numbers k
    numbered := fun _ => h.numbered k (.inl hstage)
    distinct := fun j hj hsame => h.ne_number hj hsame
    names := trivial
    fits := h.fits_of_rests (hplace ▸ trivial) trivial
    connected := fun sessionId => ?_
    count := by rw [PoolConnection.guarded, PoolConnection.guarded, hstage]; exact hcount }
  · have hadmitted : network.server.Admits
        (.register (network.connections k).sessionId worker payout) := hadmits
    rw [← hserver]
    rcases PoolServer.step_ledger hadmitted hacts with heq | ⟨event, hevent⟩
    · rw [heq]
      exact h.balanced
    · exact h.balanced.step hevent
  · refine (hconnected sessionId).trans ?_
    rw [h.connected sessionId, serves_iff k, hstage]
    constructor
    · rintro (rfl | ⟨hguarded, _⟩ | helsewhere)
      · exact .inl ⟨rfl, rfl⟩
      · cases hguarded
      · exact .inr helsewhere
    · rintro (⟨_, hid⟩ | helsewhere)
      · exact .inl hid.symm
      · exact .inr (.inr helsewhere)

theorem Seated.disconnect (h : network.Seated) (hfew : network.numbered < 2 ^ 64)
    (hplace : (network.connections k).place = .leaving)
    (hacts : Acts P E network.server server
      (some (.disconnect (network.connections k).sessionId))) :
    network.Replaces k server network.numbered network.activeConnections
      ((network.connections k).goto .closing) := by
  have hstage : (network.connections k).place.stage = .guarded := by rw [hplace]; rfl
  have hown : network.server.ledger.IsConnected (network.connections k).sessionId = true :=
    (h.connected _).mpr ⟨k, hstage, rfl⟩
  obtain ⟨hcount, hconnected⟩ := PoolLedger.disconnect_sessions hown
  obtain rfl := Option.some.inj hacts
  refine {
    balanced := h.balanced.disconnect _
    calls := fun _ _ => rfl
    grows := le_refl _
    limit := le_refl _
    active := by rw [PoolConnection.live, PoolConnection.live, hstage]; rfl
    number := h.numbers k
    numbered := fun _ => h.numbered k (.inr hstage)
    distinct := fun j hj hsame => h.ne_number hj hsame
    names := trivial
    fits := h.fits_of_rests (hplace ▸ trivial) trivial
    connected := fun sessionId => ?_
    count := by rw [PoolConnection.guarded, PoolConnection.guarded, hstage]; exact hcount.le }
  refine (hconnected sessionId).trans ?_
  rw [h.connected sessionId, serves_iff k]
  constructor
  · rintro ⟨hne, ⟨_, hid⟩ | helsewhere⟩
    · exact absurd hid.symm hne
    · exact .inr helsewhere
  · rintro (⟨hclosing, _⟩ | helsewhere)
    · cases hclosing
    · refine ⟨?_, .inr helsewhere⟩
      rintro rfl
      exact h.own hfew (.inr hstage) helsewhere

theorem Seated.endConnection (h : network.Seated)
    (hplace : (network.connections k).place = .closing) :
    network.Replaces k network.server network.numbered (network.activeConnections - 1)
      ((network.connections k).goto .closed) := by
  have hstage : (network.connections k).place.stage = .outside := by rw [hplace]; rfl
  have hlive : (network.connections k).live = 1 := by rw [PoolConnection.live, hstage]; rfl
  have hk : k < network.accepted := h.lt_accepted fun hclosed => by
    rw [hplace] at hclosed
    cases hclosed
  have hle : (network.connections k).live ≤
      ∑ j ∈ Finset.range network.accepted, (network.connections j).live :=
    Finset.single_le_sum (f := fun j => (network.connections j).live) (fun _ _ => Nat.zero_le _)
      (Finset.mem_range.mpr hk)
  refine {
    balanced := h.balanced
    calls := fun _ _ => rfl
    grows := le_refl _
    limit := Nat.sub_le _ _
    active := ?_
    number := h.numbers k
    numbered := fun hnumbered => by rcases hnumbered with hstage | hstage <;> cases hstage
    distinct := fun j hj hsame => h.ne_number hj hsame
    names := trivial
    fits := h.fits_of_rests (hplace ▸ trivial) trivial
    connected := fun sessionId => ?_
    count := by rw [PoolConnection.guarded, PoolConnection.guarded, hstage]; exact le_refl _ }
  · rw [hlive] at hle ⊢
    have hactive := h.active
    have hclosed : ((network.connections k).goto .closed).live = 0 := rfl
    omega
  · rw [h.connected sessionId, serves_iff k, hstage]
    exact or_congr_left ⟨fun hleft => (by cases hleft.1), fun hleft => (by cases hleft.1)⟩

theorem serve_some {io : SessionIo} (h : network.serve P E k io = some network') :
    ∃ move server, network.nextSection P io k (network.connections k) = some move ∧
      Acts P E network.server server move.action ∧
      network' = { network with
        server
        numbered := network.numbered + move.takesNumber.toNat
        activeConnections := network.activeConnections - move.endsConnection.toNat
        connections := Function.update network.connections k move.connection } := by
  obtain ⟨move, hmove, h⟩ := Option.bind_eq_some_iff.mp h
  obtain ⟨middle, hmiddle, rfl⟩ := Option.map_eq_some_iff.mp h
  obtain ⟨server, hacts, rfl⟩ := act_some hmiddle
  exact ⟨move, server, hmove, hacts, rfl⟩

theorem Seated.serve (h : network.Seated) (hfew : network.numbered < 2 ^ 64) {io : SessionIo}
    (hstep : network.serve P E k io = some network') : network'.Seated := by
  obtain ⟨move, server, hmove, hacts, rfl⟩ := serve_some hstep
  have hk : k < network.accepted := h.lt_accepted fun hclosed => by
    rw [nextSection, hclosed] at hmove
    cases hmove
  cases nextSection_moves (E := E) (h.fits k) hmove with
  | stays hstays =>
      rw [hstays.counters.1, hstays.counters.2]
      exact h.replace hk (h.stay (hacts.leaves fun a ha => (hstays.action a ha).ofThread)
        hstays.stage hstays.number hstays.names (hstays.fits server hacts))
  | takesNumber hplace =>
      obtain rfl : server = network.server := hacts
      exact h.replace hk (h.takeNumber hplace)
  | registers hplace => exact h.replace hk (h.register hfew hplace hacts)
  | disconnects hplace => exact h.replace hk (h.disconnect hfew hplace hacts)
  | ends hplace =>
      obtain rfl : server = network.server := hacts
      exact h.replace hk (h.endConnection hplace)

/-- Another part of the program, or the listener, moves the server. -/
theorem Seated.act (h : network.Seated) {action : PoolAction}
    (haction : PoolServer.OfThread 0 action)
    (hstep : network.act P E (some action) = some network') : network'.Seated := by
  obtain ⟨server, hacts, rfl⟩ := act_some hstep
  exact h.shared (hacts.leaves fun a ha => Option.some.inj ha ▸ haction)
    fun k hk => absurd hk (Nat.succ_ne_zero k)

theorem Seated.atListener (h : network.Seated) (listener : ListenerPlace) :
    Seated { network with listener } := { h with }

theorem Seated.listen (h : network.Seated) {env : Environment}
    (hstep : network.listen P E env = some network') : network'.Seated := by
  rw [PoolNetwork.listen] at hstep
  split at hstep
  · split at hstep
    · obtain rfl := Option.some.inj hstep
      exact h.atListener .stopped
    · obtain ⟨middle, hmiddle, rfl⟩ := Option.map_eq_some_iff.mp hstep
      have haction : PoolServer.OfThread 0 (.rotateIfTipChanged 0) := rfl
      exact (h.act haction hmiddle).atListener .rotating
  · split at hstep
    · obtain rfl := Option.some.inj hstep
      exact h.atListener .stopped
    · obtain rfl := Option.some.inj hstep
      exact h.atListener .accepting
    · have haction : PoolServer.OfThread 0 (.run 0 env) := rfl
      exact h.act haction hstep
  · obtain rfl := Option.some.inj hstep
    exact h.atListener .turning
  · cases hstep

/-- There is one more connection, which says hello. -/
theorem Seated.grow (h : network.Seated)
    (hroom : network.activeConnections < network.maxConnections)
    {connections : Nat → PoolConnection}
    (hself : connections network.accepted = PoolConnection.unused.goto .hello)
    (hother : ∀ j, j ≠ network.accepted → connections j = network.connections j)
    (listener : ListenerPlace) :
    Seated { network with
      activeConnections := network.activeConnections + 1
      accepted := network.accepted + 1
      connections
      listener } := by
  have hold : network.connections network.accepted = .unused := h.unused _ (le_refl _)
  have hsums : ∀ count : PoolConnection → Nat,
      ∑ j ∈ Finset.range (network.accepted + 1), count (connections j) =
        ∑ j ∈ Finset.range network.accepted, count (network.connections j) +
          count (PoolConnection.unused.goto .hello) := by
    intro count
    rw [Finset.sum_range_succ, hself]
    refine congrArg (· + _) (Finset.sum_congr rfl fun j hj => ?_)
    rw [hother j (Finset.mem_range.mp hj).ne]
  have hnumber : ∀ j, (connections j).number = (network.connections j).number := by
    intro j
    by_cases hj : j = network.accepted
    · rw [hj, hself, hold]
      rfl
    · rw [hother j hj]
  -- neither the new connection nor the unused one has a number
  have hnew : ∀ j, (connections j).place.stage = .numbered ∨
      (connections j).place.stage = .guarded → j ≠ network.accepted := by
    rintro j hstage rfl
    rw [hself] at hstage
    rcases hstage with hstage | hstage <;> cases hstage
  refine {
    balanced := h.balanced
    bound := h.bound
    limit := hroom
    active := (congrArg (· + 1) h.active).trans (hsums PoolConnection.live).symm
    unused := fun j hj => (hother j (ne_of_gt hj)).trans (h.unused j (Nat.le_of_succ_le hj))
    numbers := fun j => (hnumber j).trans_le (h.numbers j)
    numbered := fun j hj => ?_
    distinct := fun i j hij hne => ?_
    names := fun j => ?_
    fits := fun j => ?_
    connected := fun sessionId => (h.connected sessionId).trans ?_
    count := h.count.trans_eq (hsums PoolConnection.guarded).symm }
  · show (connections j).number ≠ 0
    change (connections j).place.stage = _ ∨ (connections j).place.stage = _ at hj
    rw [hnumber j]
    rw [hother j (hnew j hj)] at hj
    exact h.numbered j hj
  · change (connections i).number = (connections j).number at hij
    change (connections i).number ≠ 0 at hne
    rw [hnumber i] at hij hne
    rw [hnumber j] at hij
    exact h.distinct i j hij hne
  · show (connections j).place.Names
    by_cases hj : j = network.accepted
    · rw [hj, hself]
      trivial
    · rw [hother j hj]
      exact h.names j
  · show (connections j).Fits (network.server.calls (j + 1))
    by_cases hj : j = network.accepted
    · rw [hj, hself]
      exact h.fits_of_rests (hold ▸ trivial) trivial
    · rw [hother j hj]
      exact h.fits j
  · constructor
    · rintro ⟨j, hstage, hid⟩
      have hj : j ≠ network.accepted := by
        rintro rfl
        rw [hold] at hstage
        cases hstage
      rw [← hother j hj] at hstage hid
      exact ⟨j, hstage, hid⟩
    · rintro ⟨j, hstage, hid⟩
      change (connections j).place.stage = _ at hstage
      change (connections j).sessionId = _ at hid
      have hj : j ≠ network.accepted := hnew j (.inr hstage)
      rw [hother j hj] at hstage hid
      exact ⟨j, hstage, hid⟩

theorem Seated.accept (h : network.Seated) {privateAddress : Bool}
    (hstep : network.accept privateAddress = some network') : network'.Seated := by
  rw [PoolNetwork.accept] at hstep
  split at hstep
  · split at hstep
    · obtain rfl := Option.some.inj hstep
      exact h.atListener .turning
    · next hroom =>
        obtain rfl := Option.some.inj hstep
        have hroom : network.activeConnections < network.maxConnections :=
          Nat.lt_of_not_ge fun hfull => hroom (.inr hfull)
        exact h.grow hroom (Function.update_self ..)
          (fun j hj => Function.update_of_ne hj ..) .turning
  · cases hstep

theorem Seated.send (h : network.Seated) {message : ClientMessage}
    (hstep : network.send k message = some network') : network'.Seated := by
  obtain ⟨hk, hstep⟩ := Option.ite_none_right_eq_some.mp hstep
  obtain rfl := Option.some.inj hstep
  exact h.replace hk (h.stay (.refl _ _) rfl rfl (h.names k) (h.fits k))

theorem Seated.step (h : network.Seated) (hfew : network.numbered < 2 ^ 64)
    {event : PoolNetworkEvent} (hstep : network.step P E event = some network') :
    network'.Seated := by
  cases event with
  | listen env => exact h.listen hstep
  | listenerFails =>
      change network.failListener = some network' at hstep
      rw [failListener] at hstep
      split at hstep
      · obtain rfl := Option.some.inj hstep
        exact h.atListener .stopped
      · obtain rfl := Option.some.inj hstep
        exact h.atListener .stopped
      · cases hstep
  | accept privateAddress => exact h.accept hstep
  | serve k io => exact h.serve hfew hstep
  | send k message => exact h.send hstep
  | submitBlock append block acceptedAt =>
      have haction : PoolServer.OfThread 0 (.submitBlock append block acceptedAt) := trivial
      exact h.act haction hstep
  | submitTransaction transaction =>
      have haction : PoolServer.OfThread 0 (.submitTransaction transaction) := trivial
      exact h.act haction hstep
  | stop =>
      obtain rfl := Option.some.inj hstep
      exact { h with }

/-- Numbers are only taken. -/
theorem numbered_le {event : PoolNetworkEvent} (hstep : network.step P E event = some network') :
    network.numbered ≤ network'.numbered := by
  cases event with
  | listen env =>
      change network.listen P E env = some network' at hstep
      rw [listen] at hstep
      split at hstep
      · split at hstep
        · obtain rfl := Option.some.inj hstep
          exact le_refl _
        · obtain ⟨middle, hmiddle, rfl⟩ := Option.map_eq_some_iff.mp hstep
          obtain ⟨server, _, rfl⟩ := act_some hmiddle
          exact le_refl _
      · split at hstep
        · obtain rfl := Option.some.inj hstep
          exact le_refl _
        · obtain rfl := Option.some.inj hstep
          exact le_refl _
        · obtain ⟨server, _, rfl⟩ := act_some hstep
          exact le_refl _
      · obtain rfl := Option.some.inj hstep
        exact le_refl _
      · cases hstep
  | listenerFails =>
      change network.failListener = some network' at hstep
      rw [failListener] at hstep
      split at hstep <;> cases hstep <;> exact le_refl _
  | accept privateAddress =>
      change network.accept privateAddress = some network' at hstep
      rw [accept] at hstep
      split at hstep
      · split at hstep <;> cases hstep <;> exact le_refl _
      · cases hstep
  | serve k io =>
      obtain ⟨move, server, _, _, rfl⟩ := serve_some hstep
      exact Nat.le_add_right _ _
  | send k message =>
      obtain ⟨_, hstep⟩ := Option.ite_none_right_eq_some.mp hstep
      obtain rfl := Option.some.inj hstep
      exact le_refl _
  | submitBlock append block acceptedAt =>
      obtain ⟨server, _, rfl⟩ := act_some hstep
      exact le_refl _
  | submitTransaction transaction =>
      obtain ⟨server, _, rfl⟩ := act_some hstep
      exact le_refl _
  | stop =>
      obtain rfl := Option.some.inj hstep
      exact le_refl _

/-- The server moves as one whose registrations are admitted does, or stays. -/
def Admitted (P : Platform) (E : PowEvaluation) (server server' : PoolServer) : Prop :=
  server' = server ∨ ∃ action, PoolServer.stepAdmitted P E action server = some server'

theorem Acts.admitted {action : Option PoolAction}
    (hacts : Acts P E network.server server action)
    (hadmits : ∀ a, action = some a → network.server.Admits a) :
    Admitted P E network.server server := by
  cases action with
  | none => exact .inl hacts
  | some action => exact .inr ⟨action, (if_pos (hadmits action rfl)).trans hacts⟩

theorem admits_of_ofThread {action : PoolAction} {t : Nat}
    (haction : PoolServer.OfThread t action) (server : PoolServer) : server.Admits action := by
  cases action with
  | register sessionId worker payout => cases haction
  | _ => trivial

theorem act_admitted {action : PoolAction} (haction : PoolServer.OfThread 0 action)
    (hstep : network.act P E (some action) = some network') :
    Admitted P E network.server network'.server := by
  obtain ⟨server, hacts, rfl⟩ := act_some hstep
  refine hacts.admitted fun a ha => ?_
  obtain rfl := Option.some.inj ha
  exact admits_of_ofThread haction network.server

theorem Seated.serve_admitted (h : network.Seated) (hfew : network.numbered < 2 ^ 64)
    {io : SessionIo} (hstep : network.serve P E k io = some network') :
    Admitted P E network.server network'.server := by
  obtain ⟨move, server, hmove, hacts, rfl⟩ := serve_some hstep
  cases nextSection_moves (E := E) (h.fits k) hmove with
  | stays hstays =>
      exact hacts.admitted fun a ha =>
        admits_of_ofThread (hstays.action a ha).ofThread network.server
  | takesNumber hplace => exact .inl hacts
  | registers hplace =>
      refine hacts.admitted fun a ha => ?_
      obtain rfl := Option.some.inj ha
      exact h.admits hfew hplace
  | disconnects hplace =>
      refine hacts.admitted fun a ha => ?_
      obtain rfl := Option.some.inj ha
      trivial
  | ends hplace => exact .inl hacts

theorem listen_admitted {env : Environment} (hstep : network.listen P E env = some network') :
    Admitted P E network.server network'.server := by
  rw [PoolNetwork.listen] at hstep
  split at hstep
  · split at hstep
    · obtain rfl := Option.some.inj hstep
      exact .inl rfl
    · obtain ⟨middle, hmiddle, rfl⟩ := Option.map_eq_some_iff.mp hstep
      have haction : PoolServer.OfThread 0 (.rotateIfTipChanged 0) := rfl
      have hmoved : Admitted P E network.server middle.server := act_admitted haction hmiddle
      exact hmoved
  · split at hstep
    · obtain rfl := Option.some.inj hstep
      exact .inl rfl
    · obtain rfl := Option.some.inj hstep
      exact .inl rfl
    · have haction : PoolServer.OfThread 0 (.run 0 env) := rfl
      exact act_admitted haction hstep
  · obtain rfl := Option.some.inj hstep
    exact .inl rfl
  · cases hstep

theorem Seated.step_admitted (h : network.Seated) (hfew : network.numbered < 2 ^ 64)
    {event : PoolNetworkEvent} (hstep : network.step P E event = some network') :
    Admitted P E network.server network'.server := by
  cases event with
  | listen env => exact listen_admitted hstep
  | listenerFails =>
      change network.failListener = some network' at hstep
      rw [failListener] at hstep
      split at hstep <;> cases hstep <;> exact .inl rfl
  | accept privateAddress =>
      change network.accept privateAddress = some network' at hstep
      rw [PoolNetwork.accept] at hstep
      split at hstep
      · split at hstep <;> cases hstep <;> exact .inl rfl
      · cases hstep
  | serve k io => exact h.serve_admitted hfew hstep
  | send k message =>
      obtain ⟨_, hstep⟩ := Option.ite_none_right_eq_some.mp hstep
      obtain rfl := Option.some.inj hstep
      exact .inl rfl
  | submitBlock append block acceptedAt =>
      have haction : PoolServer.OfThread 0 (.submitBlock append block acceptedAt) := trivial
      exact act_admitted haction hstep
  | submitTransaction transaction =>
      have haction : PoolServer.OfThread 0 (.submitTransaction transaction) := trivial
      exact act_admitted haction hstep
  | stop =>
      obtain rfl := Option.some.inj hstep
      exact .inl rfl

/-- A run, and the run of the server that it makes. -/
theorem Seated.run (h : network.Seated) {events : List PoolNetworkEvent}
    (hrun : runEvents (PoolNetwork.step P E) events network = some network')
    (hfew : network'.numbered < 2 ^ 64) :
    network'.Seated ∧ ∃ actions,
      runEvents (PoolServer.stepAdmitted P E) actions network.server = some network'.server := by
  induction events generalizing network with
  | nil =>
      obtain rfl := Option.some.inj hrun
      exact ⟨h, [], rfl⟩
  | cons event rest ih =>
      obtain ⟨middle, hmiddle, hrest⟩ := runEvents_cons.mp hrun
      have hlater : middle.numbered ≤ network'.numbered :=
        runEvents_inv (fun later : PoolNetwork => middle.numbered ≤ later.numbered)
          (fun hle hstep => hle.trans (numbered_le hstep)) (le_refl _) hrest
      have hbefore := ((numbered_le hmiddle).trans hlater).trans_lt hfew
      obtain ⟨hseated, actions, hactions⟩ := ih (h.step hbefore hmiddle) hrest
      refine ⟨hseated, ?_⟩
      rcases h.step_admitted hbefore hmiddle with heq | ⟨action, haction⟩
      · exact ⟨actions, heq ▸ hactions⟩
      · exact ⟨action :: actions, runEvents_cons.mpr ⟨middle.server, haction, hactions⟩⟩

theorem spawned_of_toOption {outcome : Outcome PoolError PoolServer}
    (h : outcome.toOption = some server) : outcome = .ok server := by
  cases outcome with
  | error fault => cases h
  | ok spawned => exact congrArg Except.ok (Option.some.inj h)

theorem spawned_server {config : PoolServerConfig} {node : Node} {now : UInt64}
    {startupNonce firstJobNonce : Bytes32}
    (h : (spawnPoolServer P config node now startupNonce firstJobNonce).toOption = some server) :
    server.ledger = .empty ∧ server.calls = fun _ => .idle := by
  have hspawned := spawned_of_toOption h
  simp only [spawnPoolServer, bind_eq_ok, pure_eq_ok] at hspawned
  obtain ⟨_, _, _, _, rfl⟩ := hspawned
  exact ⟨rfl, rfl⟩

theorem Seated.spawn {config : PoolServerConfig} {maxConnections : Nat}
    {consensusFingerprint : Bytes32} {node : Node} {now : UInt64}
    {startupNonce firstJobNonce : Bytes32}
    (hspawn : spawnPoolNetwork P config maxConnections consensusFingerprint node now startupNonce
      firstJobNonce = some network) : network.Seated := by
  obtain ⟨hlimit, hspawn⟩ := Option.ite_none_left_eq_some.mp hspawn
  obtain ⟨server, hserver, rfl⟩ := Option.map_eq_some_iff.mp hspawn
  obtain ⟨hledger, hcalls⟩ := spawned_server hserver
  refine {
    balanced := hledger ▸ .empty
    bound := le_of_not_gt fun hover => hlimit (.inr hover)
    limit := Nat.zero_le _
    active := rfl
    unused := fun _ _ => rfl
    numbers := fun _ => le_refl _
    numbered := fun _ hstage => by rcases hstage with hstage | hstage <;> cases hstage
    distinct := fun _ _ _ hne => absurd rfl hne
    names := fun _ => trivial
    fits := fun _ => ?_
    connected := fun sessionId => ?_
    count := ?_ }
  · show (server.calls _).atRest = true
    rw [hcalls]
    rfl
  · show server.ledger.IsConnected sessionId = true ↔ _
    rw [hledger]
    constructor
    · intro hconnected
      cases hconnected
    · rintro ⟨_, hstage, _⟩
      cases hstage
  · show server.ledger.connectedSessions ≤ _
    rw [hledger]
    exact Nat.zero_le _

/-! ## The sessions in every run -/

end PoolNetwork

def sampleNetwork : Option PoolNetwork :=
  spawnPoolNetwork samplePlatform samplePoolConfig 2 (toBytes 5) sampleNode₀ 1060 (toBytes 7)
    (toBytes 8)

/-- A miner comes, greets and registers. -/
def sampleVisit (network : PoolNetwork) : List PoolNetworkEvent :=
  let serve : PoolNetworkEvent := .serve 0 { env := sampleEnvironment, ok := true }
  List.replicate 4 (.listen sampleEnvironment) ++
    [.accept true, .send 0 (.hello 1 network.networkId (toBytes 5) [0x61] (toBytes 6))] ++
    List.replicate 4 serve

end CommonFoundry
