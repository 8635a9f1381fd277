/-
# `CommonFoundry.Node.PoolSlots` — every session of a pool has its place in the ledger

A pool with its connections, in any interleaving of their threads.  The listener admits no
more connections than the limit, and a session has its number from one counter: so the
sessions that are connected in the ledger are those that a thread is serving, each under a
number of its own, and there is room for every one that comes (`Seated`).  Here is the
invariant, and what one connection that changes has to keep (`Replaces`).
-/
import CommonFoundry.Node.PoolMoves

namespace CommonFoundry

open Lib Lib.Outcome

/-! ## The ledger -/

namespace PoolLedger

variable {ledger : PoolLedger}

theorem isConnected_of_lookup {sessionId : UInt64} {session : SessionRecord}
    (h : ledger.sessions.lookup sessionId = some session) :
    ledger.IsConnected sessionId = session.connected := by
  rw [IsConnected, h]
  rfl

theorem exists_of_isConnected {sessionId : UInt64} (h : ledger.IsConnected sessionId = true) :
    ∃ session, ledger.sessions.lookup sessionId = some session ∧ session.connected = true :=
  (Option.any_eq_true _ _).mp h

/-- The same sessions are connected. -/
structure SameSessions (ledger ledger' : PoolLedger) : Prop where
  connected : ∀ sessionId, ledger'.IsConnected sessionId = ledger.IsConnected sessionId
  count : ledger'.connectedSessions ≤ ledger.connectedSessions

theorem SameSessions.refl (ledger : PoolLedger) : SameSessions ledger ledger :=
  ⟨fun _ => rfl, le_refl _⟩

theorem Credited.sameSessions {ledger' : PoolLedger} {sessionId : UInt64} {session : SessionRecord}
    {amount : Counter → UInt64} (hsession : ledger.sessions.lookup sessionId = some session)
    (h : Credited ledger sessionId session amount ledger') : SameSessions ledger ledger' := by
  obtain ⟨session', hsessions, _, _, hconnected, _⟩ := h.sessions
  constructor
  · intro other
    by_cases heq : sessionId = other
    · subst heq
      rw [isConnected_of_lookup hsession, IsConnected, hsessions, KeyMap.lookup_insert, if_pos rfl]
      exact hconnected
    · rw [IsConnected, hsessions, KeyMap.lookup_insert, if_neg heq, IsConnected]
  · rw [connectedSessions, hsessions]
    exact connectedSessions_insert_le hsession fun h => hconnected ▸ h

theorem sameSessions_accepted (ledger : PoolLedger) (sessionId : UInt64) (block : Bool)
    (atoms : UInt64) :
    SameSessions ledger (ledger.creditAcceptedShare sessionId block atoms).2 := by
  cases hsession : ledger.sessions.lookup sessionId with
  | none =>
      rw [creditAcceptedShare_unknown hsession]
      exact .refl ledger
  | some session => exact (after_creditAccepted hsession block atoms).sameSessions hsession

theorem sameSessions_rejected (ledger : PoolLedger) (sessionId : UInt64) :
    SameSessions ledger (ledger.creditRejectedShare sessionId).2 := by
  cases hsession : ledger.sessions.lookup sessionId with
  | none =>
      rw [creditRejectedShare, hsession]
      exact .refl ledger
  | some session => exact (credited_rejected hsession).sameSessions hsession

/-- One more session is connected. -/
theorem register_sessions (h : ledger.Balanced)
    (hroom : ledger.connectedSessions < poolMaxConnections) (sessionId : UInt64)
    (worker : List UInt8) (payout : Bytes32) :
    (ledger.registerSession sessionId worker payout).2.connectedSessions ≤
        ledger.connectedSessions + 1 ∧
      ∀ other, (ledger.registerSession sessionId worker payout).2.IsConnected other = true ↔
        other = sessionId ∨ ledger.IsConnected other = true := by
  obtain ⟨sessions, payouts, record, heq, _, hsub, hkeep, _⟩ :=
    registerSession_spec h hroom sessionId worker payout
  rw [heq]
  constructor
  · show (sessions.insert sessionId _).values.countP (·.connected) ≤ _
    rw [(KeyMap.values_insert_perm _ _ _).countP_eq, List.countP_cons]
    have hfewer : (sessions.erase sessionId).values.countP (·.connected) ≤
        ledger.connectedSessions :=
      (KeyMap.values_erase_sublist sessions sessionId).countP_le.trans (hsub.map _).countP_le
    split <;> omega
  · intro other
    rw [IsConnected, KeyMap.lookup_insert]
    split
    · next hsame =>
        subst hsame
        simp [newSession]
    · next hne =>
        rw [or_iff_right (Ne.symm hne)]
        constructor
        · intro hconnected
          obtain ⟨session, hsession, hactive⟩ := (Option.any_eq_true _ _).mp hconnected
          rw [isConnected_of_lookup (KeyMap.lookup_of_mem (hsub.subset
            (KeyMap.mem_of_lookup hsession)))]
          exact hactive
        · intro hconnected
          obtain ⟨session, hsession, hactive⟩ := exists_of_isConnected hconnected
          rw [KeyMap.lookup_of_mem (hkeep _ (KeyMap.mem_of_lookup hsession) hactive)]
          exact hactive

/-- A session that was connected is not any more. -/
theorem disconnect_sessions {sessionId : UInt64} (h : ledger.IsConnected sessionId = true) :
    (ledger.disconnect sessionId).connectedSessions + 1 = ledger.connectedSessions ∧
      ∀ other, (ledger.disconnect sessionId).IsConnected other = true ↔
        other ≠ sessionId ∧ ledger.IsConnected other = true := by
  obtain ⟨session, hsession, hactive⟩ := exists_of_isConnected h
  rw [disconnect, hsession]
  constructor
  · rw [connectedSessions, connectedSessions, (KeyMap.values_insert_perm _ _ _).countP_eq,
      (KeyMap.values_perm hsession).countP_eq, List.countP_cons, List.countP_cons, if_pos hactive]
    rfl
  · intro other
    rw [IsConnected, KeyMap.lookup_insert]
    split
    · next hsame =>
        subst hsame
        simp
    · next hne =>
        rw [and_iff_right (Ne.symm hne), IsConnected]

end PoolLedger

namespace PoolServer

variable {P : Platform} {E : PowEvaluation} {server server' : PoolServer} {t : Nat}

/-- The sessions stay as they are, and so do the other threads. -/
structure LeavesSessions (server server' : PoolServer) (t : Nat) : Prop where
  balanced : server.ledger.Balanced → server'.ledger.Balanced
  sessions : PoolLedger.SameSessions server.ledger server'.ledger
  calls : ∀ u, u ≠ t → server'.calls u = server.calls u

theorem LeavesSessions.refl (server : PoolServer) (t : Nat) : LeavesSessions server server t :=
  ⟨id, .refl _, fun _ _ => rfl⟩

theorem LeavesSessions.of_step {action : PoolAction} (haction : OfThread t action)
    (hstep : server.step P E action = some server') : LeavesSessions server server' t := by
  cases action with
  | processShare u share =>
      obtain rfl : u = t := haction
      obtain ⟨_, hstep⟩ := Option.ite_none_right_eq_some.mp hstep
      obtain rfl := Option.some.inj hstep
      exact ⟨id, .refl _, fun v hne => goto_calls_ne _ hne _⟩
  | rotateIfTipChanged u =>
      obtain rfl : u = t := haction
      obtain ⟨_, hstep⟩ := Option.ite_none_right_eq_some.mp hstep
      obtain rfl := Option.some.inj hstep
      exact ⟨id, .refl _, fun v hne => goto_calls_ne _ hne _⟩
  | run u env =>
      obtain rfl : u = t := haction
      obtain ⟨call, credits, _, hframe⟩ := runSection_step hstep
      refine ⟨fun h => ?_, ?_, fun v hne => ?_⟩
      · have hadmits : server.Admits (.run u env) := trivial
        rcases step_ledger hadmits hstep with heq | ⟨event, hevent⟩
        · exact heq ▸ h
        · exact h.step hevent
      · rcases runSection_ledger hstep with heq | ⟨share, code, rfl⟩ |
          ⟨share, active, block, _, rfl⟩
        · exact heq ▸ .refl _
        · exact PoolLedger.sameSessions_rejected ..
        · rw [credit_ledger]
          exact PoolLedger.sameSessions_accepted ..
      · rw [hframe.calls, Function.update_of_ne hne]
  | register sessionId worker payout => cases haction
  | disconnect sessionId => cases haction
  | submitBlock append block acceptedAt =>
      obtain ⟨_, hstep⟩ := Option.ite_none_right_eq_some.mp hstep
      obtain rfl := Option.some.inj hstep
      exact ⟨id, .refl _, fun _ _ => rfl⟩
  | submitTransaction transaction =>
      obtain ⟨_, hstep⟩ := Option.ite_none_right_eq_some.mp hstep
      obtain rfl := Option.some.inj hstep
      exact ⟨id, .refl _, fun _ _ => rfl⟩

end PoolServer

/-! ## The invariant -/

/-- A count over the first connections, when one of them changes. -/
theorem sum_range_update {A : Type} (count : A → Nat) (parts : Nat → A) {n i : Nat} (hi : i < n)
    (part : A) :
    ∑ j ∈ Finset.range n, count (Function.update parts i part j) + count (parts i) =
      ∑ j ∈ Finset.range n, count (parts j) + count part := by
  have hmem := Finset.mem_range.mpr hi
  have hothers : ∑ j ∈ (Finset.range n).erase i, count (Function.update parts i part j) =
      ∑ j ∈ (Finset.range n).erase i, count (parts j) :=
    Finset.sum_congr rfl fun j hj => by rw [Function.update_of_ne (Finset.ne_of_mem_erase hj)]
  have hnew := Finset.add_sum_erase (Finset.range n)
    (fun j => count (Function.update parts i part j)) hmem
  have hold := Finset.add_sum_erase (Finset.range n) (fun j => count (parts j)) hmem
  simp only [Function.update_self] at hnew
  omega

namespace PoolConnection

def live (connection : PoolConnection) : Nat := if connection.place.stage = .closed then 0 else 1

def guarded (connection : PoolConnection) : Nat :=
  if connection.place.stage = .guarded then 1 else 0

theorem guarded_le_live (connection : PoolConnection) : connection.guarded ≤ connection.live := by
  rw [guarded, live]
  cases connection.place.stage <;> decide

end PoolConnection

namespace PoolNetwork

/-- A thread serves this session. -/
def Serves (network : PoolNetwork) (sessionId : UInt64) : Prop :=
  ∃ k, (network.connections k).place.stage = .guarded ∧
    (network.connections k).sessionId = sessionId

/-- What holds in every reachable state. -/
structure Seated (network : PoolNetwork) : Prop where
  balanced : network.server.ledger.Balanced
  bound : network.maxConnections ≤ poolMaxConnections
  limit : network.activeConnections ≤ network.maxConnections
  active : network.activeConnections =
    ∑ k ∈ Finset.range network.accepted, (network.connections k).live
  unused : ∀ k, network.accepted ≤ k → network.connections k = .unused
  numbers : ∀ k, (network.connections k).number ≤ network.numbered
  numbered : ∀ k, (network.connections k).place.stage = .numbered ∨
    (network.connections k).place.stage = .guarded → (network.connections k).number ≠ 0
  distinct : ∀ j k, (network.connections j).number = (network.connections k).number →
    (network.connections j).number ≠ 0 → j = k
  names : ∀ k, (network.connections k).place.Names
  fits : ∀ k, (network.connections k).Fits (network.server.calls (k + 1))
  connected : ∀ sessionId,
    network.server.ledger.IsConnected sessionId = true ↔ network.Serves sessionId
  count : network.server.ledger.connectedSessions ≤
    ∑ k ∈ Finset.range network.accepted, (network.connections k).guarded

variable {P : Platform} {E : PowEvaluation} {network network' : PoolNetwork} {server : PoolServer}
  {k : Nat} {connection : PoolConnection}

theorem Seated.lt_accepted (h : network.Seated)
    (hplace : (network.connections k).place ≠ .closed) : k < network.accepted := by
  by_contra hle
  rw [h.unused k (not_lt.mp hle)] at hplace
  exact hplace rfl

/-- Only the server moves, and leaves the sessions. -/
theorem Seated.shared (h : network.Seated) {t : Nat}
    (hleaves : PoolServer.LeavesSessions network.server server t)
    (ht : ∀ k, k + 1 = t → (network.connections k).Fits (server.calls (k + 1))) :
    Seated { network with server } := by
  refine { h with
    balanced := hleaves.balanced h.balanced
    fits := fun k => ?_
    connected := fun sessionId => ?_
    count := hleaves.sessions.count.trans h.count }
  · by_cases hk : k + 1 = t
    · exact ht k hk
    · show (network.connections k).Fits (server.calls (k + 1))
      rw [hleaves.calls _ hk]
      exact h.fits k
  · show server.ledger.IsConnected sessionId = true ↔ _
    rw [hleaves.sessions.connected sessionId]
    exact h.connected sessionId

/-- A thread other than that of `k` serves this session. -/
def ServedElsewhere (network : PoolNetwork) (k : Nat) (sessionId : UInt64) : Prop :=
  ∃ j, j ≠ k ∧ (network.connections j).place.stage = .guarded ∧
    (network.connections j).sessionId = sessionId

theorem serves_iff (k : Nat) (sessionId : UInt64) :
    network.Serves sessionId ↔
      ((network.connections k).place.stage = .guarded ∧
        (network.connections k).sessionId = sessionId) ∨
      network.ServedElsewhere k sessionId := by
  constructor
  · rintro ⟨j, hstage, hid⟩
    by_cases hj : j = k
    · exact .inl (hj ▸ ⟨hstage, hid⟩)
    · exact .inr ⟨j, hj, hstage, hid⟩
  · rintro (⟨hstage, hid⟩ | ⟨j, _, hstage, hid⟩)
    · exact ⟨k, hstage, hid⟩
    · exact ⟨j, hstage, hid⟩

/-- One connection changes, and the server with it. -/
structure Replaces (network : PoolNetwork) (k : Nat) (server : PoolServer) (numbered active : Nat)
    (connection : PoolConnection) : Prop where
  balanced : server.ledger.Balanced
  calls : ∀ u, u ≠ k + 1 → server.calls u = network.server.calls u
  grows : network.numbered ≤ numbered
  limit : active ≤ network.activeConnections
  active : active + (network.connections k).live = network.activeConnections + connection.live
  number : connection.number ≤ numbered
  numbered : connection.place.stage = .numbered ∨ connection.place.stage = .guarded →
    connection.number ≠ 0
  distinct : ∀ j, j ≠ k → (network.connections j).number = connection.number →
    connection.number = 0
  names : connection.place.Names
  fits : connection.Fits (server.calls (k + 1))
  connected : ∀ sessionId, server.ledger.IsConnected sessionId = true ↔
    (connection.place.stage = .guarded ∧ connection.sessionId = sessionId) ∨
      network.ServedElsewhere k sessionId
  count : server.ledger.connectedSessions + (network.connections k).guarded ≤
    network.server.ledger.connectedSessions + connection.guarded

theorem Seated.replace (h : network.Seated) (hk : k < network.accepted) {numbered active : Nat}
    (hnew : network.Replaces k server numbered active connection) :
    Seated { network with
      server
      numbered
      activeConnections := active
      connections := Function.update network.connections k connection } := by
  have hself : Function.update network.connections k connection k = connection :=
    Function.update_self ..
  have hother : ∀ j, j ≠ k → Function.update network.connections k connection j =
      network.connections j := fun j hj => Function.update_of_ne hj ..
  have hlive := sum_range_update PoolConnection.live network.connections hk connection
  have hguarded := sum_range_update PoolConnection.guarded network.connections hk connection
  have hactive := hnew.active
  have hcount := hnew.count
  refine {
    balanced := hnew.balanced
    bound := h.bound
    limit := hnew.limit.trans h.limit
    active := ?_
    unused := fun j hj => (hother j (ne_of_gt (hk.trans_le hj))).trans (h.unused j hj)
    numbers := fun j => ?_
    numbered := fun j => ?_
    distinct := fun i j hij hne => ?_
    names := fun j => ?_
    fits := fun j => ?_
    connected := fun sessionId => (hnew.connected sessionId).trans ?_
    count := ?_ }
  · show active = ∑ j ∈ Finset.range network.accepted,
      (Function.update network.connections k connection j).live
    have hold := h.active
    omega
  · show (Function.update network.connections k connection j).number ≤ numbered
    by_cases hj : j = k
    · rw [hj, hself]
      exact hnew.number
    · rw [hother j hj]
      exact (h.numbers j).trans hnew.grows
  · show (Function.update network.connections k connection j).place.stage = .numbered ∨
      (Function.update network.connections k connection j).place.stage = .guarded →
        (Function.update network.connections k connection j).number ≠ 0
    by_cases hj : j = k
    · rw [hj, hself]
      exact hnew.numbered
    · rw [hother j hj]
      exact h.numbered j
  · change (Function.update network.connections k connection i).number =
      (Function.update network.connections k connection j).number at hij
    change (Function.update network.connections k connection i).number ≠ 0 at hne
    by_cases hi : i = k <;> by_cases hj : j = k
    · exact hi.trans hj.symm
    · rw [hi, hself] at hij hne
      rw [hother j hj] at hij
      exact absurd (hnew.distinct j hj hij.symm) hne
    · rw [hother i hi] at hij hne
      rw [hj, hself] at hij
      exact absurd (hij.trans (hnew.distinct i hi hij)) hne
    · rw [hother i hi] at hij hne
      rw [hother j hj] at hij
      exact h.distinct i j hij hne
  · show (Function.update network.connections k connection j).place.Names
    by_cases hj : j = k
    · rw [hj, hself]
      exact hnew.names
    · rw [hother j hj]
      exact h.names j
  · show (Function.update network.connections k connection j).Fits (server.calls (j + 1))
    by_cases hj : j = k
    · rw [hj, hself]
      exact hnew.fits
    · rw [hother j hj, hnew.calls _ (by omega)]
      exact h.fits j
  · constructor
    · rintro (⟨hstage, hid⟩ | ⟨j, hj, hstage, hid⟩)
      · exact ⟨k, (congrArg (·.place.stage) hself).trans hstage,
          (congrArg (·.sessionId) hself).trans hid⟩
      · exact ⟨j, (congrArg (·.place.stage) (hother j hj)).trans hstage,
          (congrArg (·.sessionId) (hother j hj)).trans hid⟩
    · rintro ⟨j, hstage, hid⟩
      change (Function.update network.connections k connection j).place.stage = .guarded at hstage
      change (Function.update network.connections k connection j).sessionId = sessionId at hid
      by_cases hj : j = k
      · rw [hj, hself] at hstage hid
        exact .inl ⟨hstage, hid⟩
      · rw [hother j hj] at hstage hid
        exact .inr ⟨j, hj, hstage, hid⟩
  · show server.ledger.connectedSessions ≤ ∑ j ∈ Finset.range network.accepted,
      (Function.update network.connections k connection j).guarded
    have hold := h.count
    omega

/-- The sessions with a number have different ones. -/
theorem Seated.ne_number (h : network.Seated) {j : Nat} (hj : j ≠ k)
    (hsame : (network.connections j).number = (network.connections k).number) :
    (network.connections k).number = 0 := by
  by_contra hne
  exact hj (h.distinct j k hsame (hsame ▸ hne))

/-- A connection changes within its stage. -/
theorem Seated.stay (h : network.Seated)
    (hleaves : PoolServer.LeavesSessions network.server server (k + 1))
    (hstage : connection.place.stage = (network.connections k).place.stage)
    (hnumber : connection.number = (network.connections k).number)
    (hnames : connection.place.Names) (hfits : connection.Fits (server.calls (k + 1))) :
    network.Replaces k server network.numbered network.activeConnections connection := by
  have hid : connection.sessionId = (network.connections k).sessionId :=
    congrArg UInt64.ofNat hnumber
  refine {
    balanced := hleaves.balanced h.balanced
    calls := hleaves.calls
    grows := le_refl _
    limit := le_refl _
    active := by rw [PoolConnection.live, PoolConnection.live, hstage]
    number := hnumber.trans_le (h.numbers k)
    numbered := fun hplace => ?_
    distinct := fun j hj hsame => ?_
    names := hnames
    fits := hfits
    connected := fun sessionId => ?_
    count := ?_ }
  · rw [hstage] at hplace
    rw [hnumber]
    exact h.numbered k hplace
  · rw [hnumber] at hsame ⊢
    exact h.ne_number hj hsame
  · rw [hleaves.sessions.connected sessionId, h.connected sessionId, serves_iff k, hstage, hid]
  · rw [PoolConnection.guarded, PoolConnection.guarded, hstage]
    exact Nat.add_le_add_right hleaves.sessions.count _

/-- Numbers that are distinct make distinct identifiers, while none was used twice. -/
theorem Seated.number_inj (h : network.Seated) (hfew : network.numbered < 2 ^ 64) {i j : Nat}
    (hsame : (network.connections i).sessionId = (network.connections j).sessionId) :
    (network.connections i).number = (network.connections j).number := by
  have hi : (network.connections i).number < 2 ^ 64 := (h.numbers i).trans_lt hfew
  have hj : (network.connections j).number < 2 ^ 64 := (h.numbers j).trans_lt hfew
  have heq := congrArg UInt64.toNat hsame
  rwa [PoolConnection.sessionId, PoolConnection.sessionId, UInt64.toNat_ofNat_of_lt' hi,
    UInt64.toNat_ofNat_of_lt' hj] at heq

/-- The identifier of a session with a number is its own. -/
theorem Seated.own (h : network.Seated) (hfew : network.numbered < 2 ^ 64)
    (hstage : (network.connections k).place.stage = .numbered ∨
      (network.connections k).place.stage = .guarded) :
    ¬network.ServedElsewhere k (network.connections k).sessionId := by
  rintro ⟨j, hj, _, hid⟩
  exact h.numbered k hstage (h.ne_number hj (h.number_inj hfew hid))

/-- A session that comes finds room. -/
theorem Seated.room (h : network.Seated)
    (hstage : (network.connections k).place.stage = .numbered) :
    network.server.ledger.connectedSessions < poolMaxConnections := by
  have hk : k < network.accepted := h.lt_accepted fun hclosed => by
    rw [hclosed] at hstage
    cases hstage
  have hfewer : ∑ j ∈ Finset.range network.accepted, (network.connections j).guarded <
      ∑ j ∈ Finset.range network.accepted, (network.connections j).live := by
    refine Finset.sum_lt_sum (fun j _ => (network.connections j).guarded_le_live)
      ⟨k, Finset.mem_range.mpr hk, ?_⟩
    rw [PoolConnection.guarded, PoolConnection.live, hstage]
    decide
  calc network.server.ledger.connectedSessions
      ≤ ∑ j ∈ Finset.range network.accepted, (network.connections j).guarded := h.count
    _ < network.activeConnections := h.active ▸ hfewer
    _ ≤ poolMaxConnections := h.limit.trans h.bound

theorem Seated.admits (h : network.Seated) (hfew : network.numbered < 2 ^ 64)
    {worker : List UInt8} {payout : Bytes32}
    (hplace : (network.connections k).place = .registering worker payout) :
    network.server.ledger.Admits
      (.register (network.connections k).sessionId worker payout) := by
  have hstage : (network.connections k).place.stage = .numbered := by rw [hplace]; rfl
  have hnames := h.names k
  rw [hplace] at hnames
  refine ⟨hnames, Bool.eq_false_iff.mpr fun hconnected => ?_, h.room hstage⟩
  rcases (serves_iff k _).mp ((h.connected _).mp hconnected) with ⟨hguarded, _⟩ | helsewhere
  · rw [hstage] at hguarded
    cases hguarded
  · exact h.own hfew (.inl hstage) helsewhere

end PoolNetwork

end CommonFoundry
