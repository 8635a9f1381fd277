/-
# `CommonFoundry.Node.PoolLedger` — the two tables of a pool's ledger, in every run

Threads register sessions, credit shares and end sessions, in any order.  Both tables have a
limit, and a registration makes room in them: it removes sessions that are not connected, and
a payout record that no session refers to.  With few enough sessions connected there is always
one to remove, so a registration does not fail and a connected session keeps its record.

What a session counts its payout record has counted too, and what a record counts the pool has
(`Balanced`).  The counters saturate, so this is up to the largest word (`Covers`).
-/
import CommonFoundry.Lib.Schedule
import CommonFoundry.Node.PoolShares

namespace CommonFoundry

open Lib Lib.Outcome

/-- The largest `max_connections` of a pool. -/
def poolMaxConnections : Nat := 64

/-- The numbers that a session, a payout record and the pool each count. -/
inductive Counter where
  | acceptedShares
  | rejectedShares
  | poolBlocks
  | creditedDevnetAtoms

namespace Counter

def ofSession : Counter → SessionRecord → UInt64
  | .acceptedShares => SessionRecord.acceptedShares
  | .rejectedShares => SessionRecord.rejectedShares
  | .poolBlocks => SessionRecord.poolBlocks
  | .creditedDevnetAtoms => SessionRecord.creditedDevnetAtoms

def ofPayout : Counter → PayoutRecord → UInt64
  | .acceptedShares => PayoutRecord.acceptedShares
  | .rejectedShares => PayoutRecord.rejectedShares
  | .poolBlocks => PayoutRecord.poolBlocks
  | .creditedDevnetAtoms => PayoutRecord.creditedDevnetAtoms

def ofPool : Counter → PoolLedger → UInt64
  | .acceptedShares => PoolLedger.acceptedShares
  | .rejectedShares => PoolLedger.rejectedShares
  | .poolBlocks => PoolLedger.poolBlocks
  | .creditedDevnetAtoms => PoolLedger.creditedDevnetAtoms

theorem ofPool_sessions (counter : Counter) (ledger : PoolLedger)
    (sessions : KeyMap UInt64 SessionRecord) :
    counter.ofPool { ledger with sessions } = counter.ofPool ledger := by
  cases counter <;> rfl

theorem ofPool_payouts (counter : Counter) (ledger : PoolLedger)
    (payouts : KeyMap Bytes32 PayoutRecord) :
    counter.ofPool { ledger with payouts } = counter.ofPool ledger := by
  cases counter <;> rfl

end Counter

/-- A change of the ledger by the thread of a connection. -/
inductive LedgerEvent where
  | register (sessionId : UInt64) (worker : List UInt8) (payout : Bytes32)
  | creditAccepted (sessionId : UInt64) (block : Bool) (atoms : UInt64)
  | creditRejected (sessionId : UInt64)
  | disconnect (sessionId : UInt64)

/-- What an event adds to a counter. -/
def LedgerEvent.amount : LedgerEvent → Counter → UInt64
  | .creditAccepted _ _ _, .acceptedShares => 1
  | .creditAccepted _ block _, .poolBlocks => if block then 1 else 0
  | .creditAccepted _ _ atoms, .creditedDevnetAtoms => atoms
  | .creditRejected _, .rejectedShares => 1
  | _, _ => 0

namespace PoolLedger

def IsConnected (ledger : PoolLedger) (sessionId : UInt64) : Bool :=
  (ledger.sessions.lookup sessionId).any (·.connected)

def connectedSessions (ledger : PoolLedger) : Nat :=
  ledger.sessions.values.countP (·.connected)

/-- When a thread may do it.  A thread registers after the handshake has checked the worker's
name, under a number from a counter, which no other connected session has; and a connection
beyond the limit is dropped before its handshake. -/
def Admits (ledger : PoolLedger) : LedgerEvent → Prop
  | .register sessionId worker _ =>
      (validateWorker worker).isOk = true ∧ ledger.IsConnected sessionId = false ∧
        ledger.connectedSessions < poolMaxConnections
  | _ => True

instance (ledger : PoolLedger) (event : LedgerEvent) : Decidable (ledger.Admits event) := by
  cases event <;> unfold Admits <;> infer_instance

/-- The ledger after an event, whatever its result. -/
def after (ledger : PoolLedger) : LedgerEvent → PoolLedger
  | .register sessionId worker payout => (ledger.registerSession sessionId worker payout).2
  | .creditAccepted sessionId block atoms => (ledger.creditAcceptedShare sessionId block atoms).2
  | .creditRejected sessionId => (ledger.creditRejectedShare sessionId).2
  | .disconnect sessionId => ledger.disconnect sessionId

def step (event : LedgerEvent) (ledger : PoolLedger) : Option PoolLedger :=
  if ledger.Admits event then some (ledger.after event) else none

/-! ## Sums of counters -/

/-- What the sessions of a payout key count together. -/
def sessionCredits (counter : Counter) (payout : Bytes32) (sessions : List SessionRecord) : Nat :=
  ((sessions.filter fun session => session.payout = payout).map fun session =>
    (counter.ofSession session).toNat).sum

/-- What all payout records count together. -/
def payoutCredits (counter : Counter) (payouts : List PayoutRecord) : Nat :=
  (payouts.map fun record => (counter.ofPayout record).toNat).sum

/-- A saturating counter is at least the sum, or as large as it gets. -/
def Covers (counter : UInt64) (sum : Nat) : Prop :=
  sum ≤ counter.toNat ∨ counter.toNat = 2 ^ 64 - 1

theorem Covers.mono {counter : UInt64} {sum sum' : Nat} (h : Covers counter sum)
    (hle : sum' ≤ sum) : Covers counter sum' :=
  h.imp_left hle.trans

theorem Covers.add {counter amount : UInt64} {sum sum' : Nat} (h : Covers counter sum)
    (hle : sum' ≤ sum + amount.toNat) : Covers (saturatingAdd counter amount) sum' := by
  have hcounter := counter.toNat_lt
  rw [Covers, toNat_saturatingAdd_min]
  rcases h with h | h
  · omega
  · omega

theorem le_saturatingAdd (counter amount : UInt64) : counter ≤ saturatingAdd counter amount := by
  have hcounter := counter.toNat_lt
  rw [UInt64.le_iff_toNat_le, toNat_saturatingAdd_min]
  omega

theorem saturatingAdd_zero (counter : UInt64) : saturatingAdd counter 0 = counter := by
  have hcounter := counter.toNat_lt
  rw [← UInt64.toNat_inj, toNat_saturatingAdd_min, UInt64.toNat_zero]
  omega

theorem countIf_eq (counter : UInt64) (counts : Bool) :
    countIf counter counts = saturatingAdd counter (if counts then 1 else 0) := by
  cases counts with
  | true => rfl
  | false => exact (saturatingAdd_zero counter).symm

section Sums

variable {counter : Counter} {payout : Bytes32}

theorem sessionCredits_perm {sessions sessions' : List SessionRecord}
    (h : sessions.Perm sessions') :
    sessionCredits counter payout sessions = sessionCredits counter payout sessions' :=
  ((h.filter _).map _).sum_eq

theorem sessionCredits_sublist (counter : Counter) (payout : Bytes32)
    {sessions sessions' : List SessionRecord}
    (h : sessions'.Sublist sessions) :
    sessionCredits counter payout sessions' ≤ sessionCredits counter payout sessions :=
  ((h.filter _).map _).sum_le_sum fun _ _ => Nat.zero_le _

theorem sessionCredits_cons (session : SessionRecord) (sessions : List SessionRecord) :
    sessionCredits counter payout (session :: sessions) =
      (if session.payout = payout then (counter.ofSession session).toNat else 0) +
        sessionCredits counter payout sessions := by
  rw [sessionCredits, List.filter_cons]
  split
  · next hpayout =>
      rw [if_pos (of_decide_eq_true hpayout)]
      rfl
  · next hpayout =>
      rw [if_neg fun heq => hpayout (decide_eq_true heq), Nat.zero_add]
      rfl

/-- Sessions of other keys count nothing for this one. -/
theorem sessionCredits_eq_zero {sessions : List SessionRecord}
    (h : ∀ session ∈ sessions, session.payout ≠ payout) :
    sessionCredits counter payout sessions = 0 := by
  rw [sessionCredits, List.filter_eq_nil_iff.mpr fun session hsession => by
    simpa using h session hsession]
  rfl

theorem payoutCredits_perm {payouts payouts' : List PayoutRecord} (h : payouts.Perm payouts') :
    payoutCredits counter payouts = payoutCredits counter payouts' :=
  (h.map _).sum_eq

theorem payoutCredits_sublist (counter : Counter) {payouts payouts' : List PayoutRecord}
    (h : payouts'.Sublist payouts) :
    payoutCredits counter payouts' ≤ payoutCredits counter payouts :=
  (h.map _).sum_le_sum fun _ _ => Nat.zero_le _

theorem payoutCredits_cons (record : PayoutRecord) (payouts : List PayoutRecord) :
    payoutCredits counter (record :: payouts) =
      (counter.ofPayout record).toNat + payoutCredits counter payouts :=
  List.sum_cons

end Sums

/-! ## The invariant -/

/-- The tables within their limits, and the counters of one covered by the next. -/
structure Balanced (ledger : PoolLedger) : Prop where
  sessions : ledger.sessions.length ≤ poolMaxLedgerSessions
  payouts : ledger.payouts.length ≤ poolMaxLedgerPayouts
  connected : ledger.connectedSessions ≤ poolMaxConnections
  workers : ∀ session ∈ ledger.sessions.values, (validateWorker session.worker).isOk = true
  /-- the payout record of a session is there -/
  known : ∀ session ∈ ledger.sessions.values,
    ∃ record, ledger.payouts.lookup session.payout = some record
  sessionCredits : ∀ counter payout record, ledger.payouts.lookup payout = some record →
    Covers (counter.ofPayout record) (sessionCredits counter payout ledger.sessions.values)
  payoutCredits : ∀ counter,
    Covers (counter.ofPool ledger) (payoutCredits counter ledger.payouts.values)

theorem Balanced.empty : Balanced empty := by
  refine ⟨Nat.zero_le _, Nat.zero_le _, Nat.zero_le _, ?_, ?_, ?_, fun counter => ?_⟩
  · intro session hsession
    cases hsession
  · intro session hsession
    cases hsession
  · intro counter payout record hrecord
    cases hrecord
  · exact .inl (Nat.zero_le _)

section Operations

variable {ledger : PoolLedger}

/-- Sessions may be removed. -/
theorem Balanced.withSessions (h : ledger.Balanced) {sessions : KeyMap UInt64 SessionRecord}
    (hsub : sessions.entries.Sublist ledger.sessions.entries) :
    Balanced { ledger with sessions } := by
  have hvalues : sessions.values.Sublist ledger.sessions.values := hsub.map _
  refine ⟨hsub.length_le.trans h.sessions, h.payouts,
    (hvalues.countP_le).trans h.connected,
    fun session hsession => h.workers session (hvalues.subset hsession),
    fun session hsession => h.known session (hvalues.subset hsession), ?_, ?_⟩
  · intro counter payout record hrecord
    exact (h.sessionCredits counter payout record hrecord).mono
      (sessionCredits_sublist counter payout hvalues)
  · intro counter
    rw [Counter.ofPool_sessions]
    exact h.payoutCredits counter

/-- A payout record without sessions may be removed. -/
theorem Balanced.erasePayout (h : ledger.Balanced) {key : Bytes32}
    (hunused : ∀ session ∈ ledger.sessions.values, session.payout ≠ key) :
    Balanced { ledger with payouts := ledger.payouts.erase key } := by
  refine ⟨h.sessions, (List.length_filter_le _ _).trans h.payouts, h.connected, h.workers, ?_, ?_,
    ?_⟩
  · intro session hsession
    obtain ⟨record, hrecord⟩ := h.known session hsession
    exact ⟨record, by rw [KeyMap.lookup_erase, if_neg (hunused session hsession).symm, hrecord]⟩
  · intro counter payout record hrecord
    rw [KeyMap.lookup_erase] at hrecord
    obtain ⟨_, hrecord⟩ := Option.ite_none_left_eq_some.mp hrecord
    exact h.sessionCredits counter payout record hrecord
  · intro counter
    rw [Counter.ofPool_payouts]
    exact (h.payoutCredits counter).mono
      (payoutCredits_sublist counter (KeyMap.values_erase_sublist _ _))

/-- An insertion adds at most one entry, and none under a key that is there. -/
theorem length_insert {K V : Type} [LinearOrder K] {m : KeyMap K V} {limit : Nat} (key : K)
    (value : V) (hle : m.length ≤ limit)
    (hroom : (∃ old, m.lookup key = some old) ∨ m.length < limit) :
    (m.insert key value).length ≤ limit := by
  have hlength : (m.insert key value).length = (m.erase key).length + 1 :=
    (m.insert_perm key value).length_eq
  rw [hlength]
  rcases hroom with ⟨old, hold⟩ | hroom
  · have hperm : m.length = (m.erase key).length + 1 :=
      (KeyMap.entries_perm (KeyMap.mem_of_lookup hold)).length_eq
    omega
  · have hsub : (m.erase key).length ≤ m.length := List.length_filter_le _ _
    omega

/-- What all records count after one is replaced, or a new one counts. -/
theorem payoutCredits_insert {counter : Counter} {payout : Bytes32} {record : PayoutRecord}
    {amount : UInt64}
    (hrecord : (counter.ofPayout record).toNat ≤
      (counter.ofPayout (ledger.payoutOrDefault payout)).toNat + amount.toNat) :
    payoutCredits counter (ledger.payouts.insert payout record).values ≤
      payoutCredits counter ledger.payouts.values + amount.toNat := by
  rw [payoutCredits_perm (KeyMap.values_insert_perm _ _ _), payoutCredits_cons]
  rw [payoutOrDefault] at hrecord
  cases hold : ledger.payouts.lookup payout with
  | none =>
      have hdefault : (counter.ofPayout .default).toNat = 0 := by cases counter <;> rfl
      have hsub := payoutCredits_sublist counter
        (KeyMap.values_erase_sublist ledger.payouts payout)
      rw [hold, Option.getD_none, hdefault] at hrecord
      omega
  | some old =>
      rw [hold, Option.getD_some] at hrecord
      rw [payoutCredits_perm (KeyMap.values_perm hold), payoutCredits_cons]
      omega

/-- A record is replaced that has counted as much, or a new one is made. -/
theorem Balanced.insertPayout (h : ledger.Balanced) (payout : Bytes32) {record : PayoutRecord}
    (hrecord : ∀ counter : Counter,
      counter.ofPayout record = counter.ofPayout (ledger.payoutOrDefault payout))
    (hroom : (∃ old, ledger.payouts.lookup payout = some old) ∨
      ledger.payouts.length < poolMaxLedgerPayouts) :
    Balanced { ledger with payouts := ledger.payouts.insert payout record } := by
  refine ⟨h.sessions, length_insert payout record h.payouts hroom, h.connected, h.workers, ?_, ?_,
    ?_⟩
  · intro session hsession
    dsimp only
    rw [KeyMap.lookup_insert]
    split
    · exact ⟨record, rfl⟩
    · exact h.known session hsession
  · intro counter other found hfound
    dsimp only at hfound ⊢
    rw [KeyMap.lookup_insert] at hfound
    split at hfound
    · next heq =>
        subst heq
        obtain rfl := Option.some.inj hfound
        rw [hrecord counter, payoutOrDefault]
        cases hold : ledger.payouts.lookup payout with
        | some old => exact h.sessionCredits counter payout old hold
        | none =>
            -- no session refers to a record that is not there
            refine .inl ?_
            rw [sessionCredits_eq_zero fun session hsession heq => ?_]
            · exact Nat.zero_le _
            · obtain ⟨old, hfound⟩ := h.known session hsession
              rw [heq, hold] at hfound
              cases hfound
    · exact h.sessionCredits counter other found hfound
  · intro counter
    rw [Counter.ofPool_payouts]
    have hle : (counter.ofPayout record).toNat ≤
        (counter.ofPayout (ledger.payoutOrDefault payout)).toNat + (0 : UInt64).toNat := by
      rw [hrecord counter]
      exact Nat.le_add_right _ _
    exact (h.payoutCredits counter).mono (payoutCredits_insert hle)

/-- A session that has counted nothing, in place of one that is not connected or of none. -/
theorem Balanced.addSession (h : ledger.Balanced) {sessionId : UInt64} (session : SessionRecord)
    (hworker : (validateWorker session.worker).isOk = true)
    (hzero : ∀ counter : Counter, (counter.ofSession session).toNat = 0)
    (hknown : ∃ record, ledger.payouts.lookup session.payout = some record)
    (hconnected : ledger.connectedSessions < poolMaxConnections)
    (hroom : ledger.sessions.length < poolMaxLedgerSessions) :
    Balanced { ledger with sessions := ledger.sessions.insert sessionId session } := by
  have hperm := ledger.sessions.values_insert_perm sessionId session
  have hsub := ledger.sessions.values_erase_sublist sessionId
  have hmem : ∀ other ∈ (ledger.sessions.insert sessionId session).values,
      other = session ∨ other ∈ ledger.sessions.values := fun other hother =>
    (List.mem_cons.mp (hperm.mem_iff.mp hother)).imp_right fun h => hsub.subset h
  refine ⟨length_insert sessionId session h.sessions (.inr hroom), h.payouts, ?_, ?_, ?_, ?_, ?_⟩
  · rw [connectedSessions, hperm.countP_eq, List.countP_cons]
    have hle : (ledger.sessions.erase sessionId).values.countP (·.connected) ≤
        ledger.connectedSessions := hsub.countP_le
    split <;> omega
  · intro other hother
    rcases hmem other hother with rfl | hother
    · exact hworker
    · exact h.workers other hother
  · intro other hother
    rcases hmem other hother with rfl | hother
    · exact hknown
    · exact h.known other hother
  · intro counter payout record hrecord
    refine (h.sessionCredits counter payout record hrecord).mono ?_
    rw [sessionCredits_perm hperm, sessionCredits_cons, hzero counter]
    have hle := sessionCredits_sublist counter payout hsub
    split <;> omega
  · intro counter
    rw [Counter.ofPool_sessions]
    exact h.payoutCredits counter

/-! ## Credits -/

/-- A session, its payout record and the pool count the same more. -/
structure Credited (ledger : PoolLedger) (sessionId : UInt64) (session : SessionRecord)
    (amount : Counter → UInt64) (ledger' : PoolLedger) : Prop where
  sessions : ∃ session', ledger'.sessions = ledger.sessions.insert sessionId session' ∧
    session'.payout = session.payout ∧ session'.worker = session.worker ∧
    session'.connected = session.connected ∧
    ∀ counter : Counter,
      counter.ofSession session' = saturatingAdd (counter.ofSession session) (amount counter)
  payouts : ∃ record, ledger'.payouts = ledger.payouts.insert session.payout record ∧
    ∀ counter : Counter, counter.ofPayout record =
      saturatingAdd (counter.ofPayout (ledger.payoutOrDefault session.payout)) (amount counter)
  pool : ∀ counter : Counter,
    counter.ofPool ledger' = saturatingAdd (counter.ofPool ledger) (amount counter)

theorem credited_accepted (ledger : PoolLedger) (sessionId : UInt64) (session : SessionRecord)
    (block : Bool) (atoms : UInt64) :
    Credited ledger sessionId session (LedgerEvent.creditAccepted sessionId block atoms).amount
      (ledger.creditSession sessionId session block atoms).2 := by
  refine ⟨⟨_, rfl, rfl, rfl, rfl, fun counter => ?_⟩, ⟨_, rfl, fun counter => ?_⟩, fun counter => ?_⟩
  all_goals cases counter with
  | acceptedShares => rfl
  | rejectedShares => exact (saturatingAdd_zero _).symm
  | poolBlocks => exact countIf_eq _ _
  | creditedDevnetAtoms => rfl

theorem credited_rejected {sessionId : UInt64} {session : SessionRecord}
    (h : ledger.sessions.lookup sessionId = some session) :
    Credited ledger sessionId session (LedgerEvent.creditRejected sessionId).amount
      (ledger.creditRejectedShare sessionId).2 := by
  rw [creditRejectedShare, h]
  refine ⟨⟨_, rfl, rfl, rfl, rfl, fun counter => ?_⟩, ⟨_, rfl, fun counter => ?_⟩, fun counter => ?_⟩
  all_goals cases counter with
  | acceptedShares => exact (saturatingAdd_zero _).symm
  | rejectedShares => rfl
  | poolBlocks => exact (saturatingAdd_zero _).symm
  | creditedDevnetAtoms => exact (saturatingAdd_zero _).symm

/-- What the sessions of a key count after one of them counts more. -/
theorem sessionCredits_insert (counter : Counter) (payout : Bytes32) {sessionId : UInt64}
    (amount : UInt64) {session : SessionRecord} (session' : SessionRecord)
    (hsession : ledger.sessions.lookup sessionId = some session)
    (hpayout : session'.payout = session.payout)
    (hle : (counter.ofSession session').toNat ≤
      (counter.ofSession session).toNat + amount.toNat) :
    sessionCredits counter payout (ledger.sessions.insert sessionId session').values ≤
      sessionCredits counter payout ledger.sessions.values +
        if session.payout = payout then amount.toNat else 0 := by
  rw [sessionCredits_perm (KeyMap.values_insert_perm _ _ _), sessionCredits_cons, hpayout,
    sessionCredits_perm (KeyMap.values_perm hsession), sessionCredits_cons]
  split <;> omega

theorem mem_values_insert {sessionId : UInt64} {session' other : SessionRecord}
    (h : other ∈ (ledger.sessions.insert sessionId session').values) :
    other = session' ∨ other ∈ ledger.sessions.values := by
  rcases List.mem_cons.mp ((KeyMap.values_insert_perm _ _ _).mem_iff.mp h) with h | h
  · exact .inl h
  · exact .inr ((KeyMap.values_erase_sublist _ _).subset h)

/-- One session is replaced by another that is no more connected. -/
theorem connectedSessions_insert_le {sessionId : UInt64} {session session' : SessionRecord}
    (hsession : ledger.sessions.lookup sessionId = some session)
    (hle : session'.connected → session.connected) :
    (ledger.sessions.insert sessionId session').values.countP (·.connected) ≤
      ledger.connectedSessions := by
  rw [connectedSessions, (KeyMap.values_insert_perm _ _ _).countP_eq,
    (KeyMap.values_perm hsession).countP_eq, List.countP_cons, List.countP_cons]
  split
  · next h =>
      rw [if_pos (hle h)]
  · split <;> omega

theorem Balanced.credited (h : ledger.Balanced) {ledger' : PoolLedger} {sessionId : UInt64}
    {session : SessionRecord} {amount : Counter → UInt64}
    (hsession : ledger.sessions.lookup sessionId = some session)
    (hcredited : Credited ledger sessionId session amount ledger') : ledger'.Balanced := by
  obtain ⟨⟨session', hsessions, hpayout, hworker, hconnected, hcount⟩, ⟨record, hpayouts, hrecord⟩,
    hpool⟩ := hcredited
  obtain ⟨old, hold⟩ := h.known session (KeyMap.mem_values_of_lookup hsession)
  have hdefault : ledger.payoutOrDefault session.payout = old := by
    rw [payoutOrDefault, hold, Option.getD_some]
  refine ⟨?_, ?_, ?_, ?_, ?_, ?_, ?_⟩
  · rw [hsessions]
    exact length_insert sessionId session' h.sessions (.inl ⟨session, hsession⟩)
  · rw [hpayouts]
    exact length_insert session.payout record h.payouts (.inl ⟨old, hold⟩)
  · rw [connectedSessions, hsessions]
    exact (connectedSessions_insert_le hsession fun h => hconnected ▸ h).trans h.connected
  · intro other hother
    rw [hsessions] at hother
    rcases mem_values_insert hother with rfl | hother
    · rw [hworker]
      exact h.workers session (KeyMap.mem_values_of_lookup hsession)
    · exact h.workers other hother
  · intro other hother
    rw [hpayouts, KeyMap.lookup_insert]
    split
    · exact ⟨record, rfl⟩
    · next hne =>
        rw [hsessions] at hother
        rcases mem_values_insert hother with rfl | hother
        · exact absurd hpayout.symm hne
        · exact h.known other hother
  · intro counter payout found hfound
    have hle := sessionCredits_insert counter payout (amount counter) _ hsession hpayout (by
        rw [hcount counter, toNat_saturatingAdd_min]
        omega)
    rw [hpayouts, KeyMap.lookup_insert] at hfound
    rw [hsessions]
    split at hfound
    · next heq =>
        rw [if_pos heq] at hle
        obtain rfl := Option.some.inj hfound
        rw [hrecord counter, hdefault]
        exact (h.sessionCredits counter payout old (heq ▸ hold)).add hle
    · next hne =>
        rw [if_neg hne] at hle
        exact (h.sessionCredits counter payout found hfound).mono hle
  · intro counter
    rw [hpool counter, hpayouts]
    refine (h.payoutCredits counter).add (payoutCredits_insert ?_)
    rw [hrecord counter, toNat_saturatingAdd_min]
    omega

/-- A session that ends keeps what it has counted. -/
theorem Balanced.disconnect (h : ledger.Balanced) (sessionId : UInt64) :
    (ledger.disconnect sessionId).Balanced := by
  rw [PoolLedger.disconnect]
  split
  · exact h
  · next session hsession =>
      refine ⟨length_insert _ _ h.sessions (.inl ⟨session, hsession⟩), h.payouts,
        (connectedSessions_insert_le hsession fun h => by cases h).trans h.connected, ?_, ?_, ?_, ?_⟩
      · intro other hother
        rcases mem_values_insert hother with rfl | hother
        · exact h.workers session (KeyMap.mem_values_of_lookup hsession)
        · exact h.workers other hother
      · intro other hother
        rcases mem_values_insert hother with rfl | hother
        · exact h.known session (KeyMap.mem_values_of_lookup hsession)
        · exact h.known other hother
      · intro counter payout record hrecord
        refine (h.sessionCredits counter payout record hrecord).mono ?_
        have hle := sessionCredits_insert counter payout 0 { session with connected := false } hsession rfl
          (by cases counter <;> exact Nat.le_add_right _ _)
        rw [UInt64.toNat_zero, ite_self, Nat.add_zero] at hle
        exact hle
      · intro counter
        rw [Counter.ofPool_sessions]
        exact h.payoutCredits counter

/-! ## Making room -/

/-- With few sessions connected the loop makes room, and removes none of these. -/
theorem pruneSessions_spec (fuel : Nat) {sessions : KeyMap UInt64 SessionRecord}
    (hconnected : sessions.values.countP (·.connected) < poolMaxLedgerSessions) :
    (pruneSessions fuel sessions).1 = .ok () ∧
      (pruneSessions fuel sessions).2.entries.Sublist sessions.entries ∧
      ∀ entry ∈ sessions.entries, entry.2.connected →
        entry ∈ (pruneSessions fuel sessions).2.entries := by
  induction fuel generalizing sessions with
  | zero => exact ⟨rfl, .refl _, fun _ hentry _ => hentry⟩
  | succ fuel ih =>
      rw [pruneSessions]
      split
      · next hfull =>
          split
          · next inactive hfind =>
              have hinactive : ¬inactive.2.connected = true :=
                of_decide_eq_true (List.find?_some hfind :)
              obtain ⟨hok, hsub, hkeep⟩ := ih
                ((sessions.values_erase_sublist inactive.1).countP_le.trans_lt hconnected)
              refine ⟨hok, hsub.trans List.filter_sublist, fun entry hentry hactive => ?_⟩
              have hne : entry.1 ≠ inactive.1 := by
                -- one entry under each key
                intro heq
                have hsame := KeyMap.lookup_of_mem (m := sessions) hentry
                rw [heq, KeyMap.lookup_of_mem (List.mem_of_find?_eq_some hfind)] at hsame
                exact hinactive (Option.some.inj hsame ▸ hactive)
              exact hkeep entry (List.mem_filter.mpr ⟨hentry, by simpa using hne⟩) hactive
          · next hfind =>
              -- all of them are connected
              have hall : sessions.values.countP (·.connected) = sessions.values.length := by
                refine List.countP_eq_length.mpr fun session hsession => ?_
                obtain ⟨entry, hentry, rfl⟩ := List.mem_map.mp hsession
                exact not_not.mp fun hne =>
                  (List.find?_eq_none.mp hfind entry hentry) (decide_eq_true hne)
              have hlength : sessions.values.length = sessions.length := List.length_map _
              omega
      · exact ⟨rfl, .refl _, fun _ hentry _ => hentry⟩

theorem removablePayout_eq_some {key : Bytes32} (h : ledger.removablePayout = some key) :
    (∃ record, ledger.payouts.lookup key = some record) ∧
      ∀ session ∈ ledger.sessions.values, session.payout ≠ key := by
  obtain ⟨entry, hmin, rfl⟩ := Option.map_eq_some_iff.mp h
  obtain ⟨hentry, hunused⟩ := List.mem_filter.mp (List.argmin_mem hmin)
  refine ⟨⟨entry.2, KeyMap.lookup_of_mem hentry⟩, fun session hsession heq => ?_⟩
  exact of_decide_eq_true hunused
    (List.any_eq_true.mpr ⟨session, hsession, decide_eq_true heq⟩)

/-- Fewer sessions than payout records: some record has none. -/
theorem exists_removablePayout (h : ledger.sessions.length < ledger.payouts.length) :
    ∃ key, ledger.removablePayout = some key := by
  rw [← Option.isSome_iff_exists, removablePayout, Option.isSome_map, Option.isSome_iff_ne_none]
  intro hnone
  rw [List.argmin_eq_none, List.filter_eq_nil_iff] at hnone
  have hsub : ledger.payouts.entries.map (·.1) ⊆ ledger.sessions.values.map (·.payout) := by
    intro key hkey
    obtain ⟨entry, hentry, rfl⟩ := List.mem_map.mp hkey
    obtain ⟨session, hsession, hpayout⟩ :=
      List.any_eq_true.mp (not_not.mp fun hne => hnone entry hentry (decide_eq_true hne))
    exact List.mem_map.mpr ⟨session, hsession, of_decide_eq_true hpayout⟩
  have hle := (ledger.payouts.nodup_keys.subperm hsub).length_le
  rw [List.length_map, List.length_map, KeyMap.values, List.length_map] at hle
  exact absurd h (not_lt.mpr hle)

/-- With room for a session there is room for a payout record, and the records of sessions
stay. -/
theorem prunePayouts_spec (hsessions : ledger.sessions.length < poolMaxLedgerSessions)
    (payout : Bytes32) :
    (ledger.prunePayouts payout = (.ok (), ledger) ∧
        ((∃ record, ledger.payouts.lookup payout = some record) ∨
          ledger.payouts.length < poolMaxLedgerPayouts)) ∨
      ∃ key, ledger.prunePayouts payout =
          (.ok (), { ledger with payouts := ledger.payouts.erase key }) ∧
        (∃ record, ledger.payouts.lookup key = some record) ∧
        (∀ session ∈ ledger.sessions.values, session.payout ≠ key) ∧
        ledger.payouts.lookup payout = none := by
  have hlookup : ledger.payouts.contains payout = false ↔ ledger.payouts.lookup payout = none := by
    rw [KeyMap.contains, KeyMap.lookup, Option.map_eq_none_iff, List.find?_eq_none,
      List.any_eq_false]
  rw [prunePayouts]
  split
  · next hfull =>
      obtain ⟨key, hkey⟩ := exists_removablePayout (hsessions.trans_le hfull.2)
      obtain ⟨hrecord, hunused⟩ := removablePayout_eq_some hkey
      rw [hkey]
      exact .inr ⟨key, rfl, hrecord, hunused,
        hlookup.mp (Bool.eq_false_of_not_eq_true hfull.1)⟩
  · next hroom =>
      refine .inl ⟨rfl, ?_⟩
      cases hrecord : ledger.payouts.lookup payout with
      | some record => exact .inl ⟨record, rfl⟩
      | none =>
          refine .inr (not_le.mp fun hfull => hroom ⟨?_, hfull⟩)
          rw [hlookup.mpr hrecord]
          exact Bool.false_ne_true

/-- The session that `register_session` inserts. -/
def newSession (worker : List UInt8) (payout : Bytes32) : SessionRecord where
  connected := true
  worker
  payout
  acceptedShares := 0
  rejectedShares := 0
  poolBlocks := 0
  creditedDevnetAtoms := 0

/-- A registration makes room, with the records of connected sessions as they were, and
inserts a session and its payout record. -/
theorem registerSession_spec (h : ledger.Balanced)
    (hconnected : ledger.connectedSessions < poolMaxConnections) (sessionId : UInt64)
    (worker : List UInt8) (payout : Bytes32) :
    ∃ sessions payouts record,
      ledger.registerSession sessionId worker payout = (.ok (), { ledger with
        sessions := sessions.insert sessionId (newSession worker payout)
        payouts := payouts.insert payout record }) ∧
      Balanced { ledger with sessions, payouts } ∧
      sessions.entries.Sublist ledger.sessions.entries ∧
      (∀ entry ∈ ledger.sessions.entries, entry.2.connected → entry ∈ sessions.entries) ∧
      sessions.length < poolMaxLedgerSessions ∧
      (∀ session ∈ sessions.values,
        payouts.lookup session.payout = ledger.payouts.lookup session.payout) ∧
      ((∃ old, payouts.lookup payout = some old) ∨ payouts.length < poolMaxLedgerPayouts) ∧
      ∀ counter : Counter, counter.ofPayout record =
        counter.ofPayout (({ ledger with payouts } : PoolLedger).payoutOrDefault payout) := by
  have hfew : ledger.sessions.values.countP (·.connected) < poolMaxLedgerSessions :=
    hconnected.trans (by decide)
  have hfuel : ledger.sessions.length ≤ ledger.sessions.length := le_refl _
  obtain ⟨hok, hsub, hkeep⟩ := pruneSessions_spec ledger.sessions.length hfew
  have hroom := pruneSessions_room hfuel hok
  rw [registerSession]
  cases hprune : pruneSessions ledger.sessions.length ledger.sessions with
  | mk result sessions =>
      rw [hprune] at hok hsub hkeep hroom
      dsimp only at hok hsub hkeep hroom
      subst hok
      have hbalanced := h.withSessions hsub
      dsimp only
      rcases prunePayouts_spec (show ({ ledger with sessions } : PoolLedger).sessions.length < _ from hroom)
          payout with
        ⟨hpruned, hpayouts⟩ | ⟨key, hpruned, hrecord, hunused, hnew⟩
      · rw [hpruned]
        exact ⟨sessions, ledger.payouts, _, rfl, hbalanced, hsub, hkeep, hroom, fun _ _ => rfl,
          hpayouts, fun counter => by cases counter <;> rfl⟩
      · rw [hpruned]
        refine ⟨sessions, ledger.payouts.erase key, _, rfl, hbalanced.erasePayout hunused, hsub,
          hkeep, hroom, fun session hsession => ?_, .inr ?_, fun counter => by cases counter <;> rfl⟩
        · rw [KeyMap.lookup_erase, if_neg (hunused session hsession).symm]
        · obtain ⟨record, hrecord⟩ := hrecord
          have hlength : ledger.payouts.length = (ledger.payouts.erase key).length + 1 :=
            (KeyMap.entries_perm (KeyMap.mem_of_lookup hrecord)).length_eq
          have hle := h.payouts
          omega

/-! ## Steps -/

theorem step_eq_some {event : LedgerEvent} {ledger' : PoolLedger}
    (h : step event ledger = some ledger') : ledger.Admits event ∧ ledger' = ledger.after event := by
  obtain ⟨hadmits, heq⟩ := Option.ite_none_right_eq_some.mp h
  exact ⟨hadmits, (Option.some.inj heq).symm⟩

/-- A credit of a session that is there. -/
theorem after_creditAccepted {sessionId : UInt64} {session : SessionRecord}
    (h : ledger.sessions.lookup sessionId = some session) (block : Bool) (atoms : UInt64) :
    Credited ledger sessionId session (LedgerEvent.creditAccepted sessionId block atoms).amount
      (ledger.creditAcceptedShare sessionId block atoms).2 := by
  rw [creditAcceptedShare, h]
  exact credited_accepted ledger sessionId session block atoms

theorem Balanced.step {event : LedgerEvent} {ledger' : PoolLedger} (h : ledger.Balanced)
    (hstep : step event ledger = some ledger') : ledger'.Balanced := by
  obtain ⟨hadmits, rfl⟩ := step_eq_some hstep
  cases event with
  | register sessionId worker payout =>
      obtain ⟨hworker, _, hconnected⟩ := hadmits
      obtain ⟨sessions, payouts, record, heq, hpruned, hsub, _, hroom, _, hpayouts, hrecord⟩ :=
        registerSession_spec h hconnected sessionId worker payout
      have hinserted := hpruned.insertPayout payout hrecord hpayouts
      rw [after, heq]
      refine hinserted.addSession (newSession worker payout) hworker
        (fun counter => by cases counter <;> rfl)
        ⟨record, by rw [KeyMap.lookup_insert]; exact if_pos rfl⟩ ?_ hroom
      exact ((hsub.map _).countP_le).trans_lt hconnected
  | creditAccepted sessionId block atoms =>
      rw [after]
      cases hsession : ledger.sessions.lookup sessionId with
      | none =>
          rw [creditAcceptedShare_unknown hsession]
          exact h
      | some session => exact h.credited hsession (after_creditAccepted hsession block atoms)
  | creditRejected sessionId =>
      rw [after]
      cases hsession : ledger.sessions.lookup sessionId with
      | none =>
          rw [creditRejectedShare, hsession]
          exact h
      | some session => exact h.credited hsession (credited_rejected hsession)
  | disconnect sessionId => exact h.disconnect sessionId

/-- A connected session and its payout record are there, and have counted no less. -/
structure Retains (before after : PoolLedger) (sessionId : UInt64) : Prop where
  session : ∀ session, before.sessions.lookup sessionId = some session →
    ∃ session', after.sessions.lookup sessionId = some session' ∧ session'.connected = true ∧
      session'.payout = session.payout ∧
      ∀ counter : Counter, counter.ofSession session ≤ counter.ofSession session'
  payout : ∀ session record, before.sessions.lookup sessionId = some session →
    before.payouts.lookup session.payout = some record →
    ∃ record', after.payouts.lookup session.payout = some record' ∧
      ∀ counter : Counter, counter.ofPayout record ≤ counter.ofPayout record'

theorem Retains.refl {sessionId : UInt64} (h : ledger.IsConnected sessionId = true) :
    Retains ledger ledger sessionId := by
  constructor
  · intro session hsession
    rw [IsConnected, hsession] at h
    exact ⟨session, hsession, h, rfl, fun _ => le_refl _⟩
  · intro session record _ hrecord
    exact ⟨record, hrecord, fun _ => le_refl _⟩

/-- A credit, of this session or of another. -/
theorem Retains.credited {ledger' : PoolLedger} {sessionId other : UInt64}
    {session : SessionRecord} {amount : Counter → UInt64}
    (h : ledger.IsConnected sessionId = true)
    (hother : ledger.sessions.lookup other = some session)
    (hcredited : Credited ledger other session amount ledger') :
    Retains ledger ledger' sessionId := by
  obtain ⟨⟨session', hsessions, hpayout, _, hconnected, hcount⟩, ⟨record, hpayouts, hrecord⟩, _⟩ :=
    hcredited
  constructor
  · intro found hfound
    rw [IsConnected, hfound] at h
    rw [hsessions, KeyMap.lookup_insert]
    split
    · next heq =>
        subst heq
        obtain rfl := Option.some.inj (hother.symm.trans hfound)
        refine ⟨session', rfl, hconnected.trans h, hpayout, fun counter => ?_⟩
        rw [hcount counter]
        exact le_saturatingAdd _ _
    · exact ⟨found, hfound, h, rfl, fun _ => le_refl _⟩
  · intro found old _ hold
    rw [hpayouts, KeyMap.lookup_insert]
    split
    · next heq =>
        refine ⟨record, rfl, fun counter => ?_⟩
        rw [hrecord counter, payoutOrDefault, heq, hold]
        exact le_saturatingAdd _ _
    · exact ⟨old, hold, fun _ => le_refl _⟩

/-- Only the end of a session ends it. -/
theorem Balanced.retains {event : LedgerEvent} {ledger' : PoolLedger} {sessionId : UInt64}
    (h : ledger.Balanced) (hstep : PoolLedger.step event ledger = some ledger')
    (hconnected : ledger.IsConnected sessionId = true) (hne : event ≠ .disconnect sessionId) :
    Retains ledger ledger' sessionId := by
  obtain ⟨hadmits, rfl⟩ := step_eq_some hstep
  cases event with
  | register other worker payout =>
      obtain ⟨_, hnew, hroom⟩ := hadmits
      have hids : other ≠ sessionId := fun heq => by
        rw [heq, hconnected] at hnew
        cases hnew
      obtain ⟨sessions, payouts, record, heq, _, _, hkeep, _, hsame, _, hrecord⟩ :=
        registerSession_spec h hroom other worker payout
      rw [after, heq]
      have hkept : ∀ session, ledger.sessions.lookup sessionId = some session →
          session.connected = true ∧ (sessionId, session) ∈ sessions.entries := by
        intro session hsession
        rw [IsConnected, hsession] at hconnected
        exact ⟨hconnected, hkeep _ (KeyMap.mem_of_lookup hsession) hconnected⟩
      constructor
      · intro session hsession
        obtain ⟨hactive, hmem⟩ := hkept session hsession
        refine ⟨session, ?_, hactive, rfl, fun _ => le_refl _⟩
        dsimp only
        rw [KeyMap.lookup_insert, if_neg hids, KeyMap.lookup_of_mem hmem]
      · intro session old hsession hold
        obtain ⟨_, hmem⟩ := hkept session hsession
        rw [← hsame session (List.mem_map.mpr ⟨_, hmem, rfl⟩)] at hold
        dsimp only
        rw [KeyMap.lookup_insert]
        split
        · next heq =>
            refine ⟨record, rfl, fun counter => ?_⟩
            rw [hrecord counter, payoutOrDefault, heq, hold]
            exact le_refl _
        · exact ⟨old, hold, fun _ => le_refl _⟩
  | creditAccepted other block atoms =>
      rw [after]
      cases hother : ledger.sessions.lookup other with
      | none =>
          rw [creditAcceptedShare_unknown hother]
          exact .refl hconnected
      | some session => exact .credited hconnected hother (after_creditAccepted hother block atoms)
  | creditRejected other =>
      rw [after]
      cases hother : ledger.sessions.lookup other with
      | none =>
          rw [creditRejectedShare, hother]
          exact .refl hconnected
      | some session => exact .credited hconnected hother (credited_rejected hother)
  | disconnect other =>
      have hids : other ≠ sessionId := fun heq => hne (heq ▸ rfl)
      rw [after, PoolLedger.disconnect]
      split
      · exact .refl hconnected
      · obtain ⟨hsession, hpayout⟩ := Retains.refl hconnected
        refine ⟨fun session hfound => ?_, hpayout⟩
        obtain ⟨session', hlookup, hrest⟩ := hsession session hfound
        exact ⟨session', by rw [KeyMap.lookup_insert, if_neg hids, hlookup], hrest⟩

/-! ## What threads get -/

/-- Registrations and the credits of connected sessions go through, and these sessions and
their payout records stay. -/
structure Serves (ledger : PoolLedger) : Prop where
  registers : ∀ sessionId worker payout, ledger.Admits (.register sessionId worker payout) →
    (ledger.registerSession sessionId worker payout).1 = .ok ()
  credits : ∀ sessionId, ledger.IsConnected sessionId = true →
    (∀ block atoms, ∃ stats, (ledger.creditAcceptedShare sessionId block atoms).1 = .ok stats) ∧
      ∃ stats, (ledger.creditRejectedShare sessionId).1 = .ok stats
  retains : ∀ event ledger' sessionId, step event ledger = some ledger' →
    ledger.IsConnected sessionId = true → event ≠ .disconnect sessionId →
      Retains ledger ledger' sessionId

theorem exists_sessionSnapshot {session : SessionRecord} (sessionId : UInt64)
    (h : (validateWorker session.worker).isOk = true) :
    ∃ stats, sessionSnapshot sessionId session = .ok stats := by
  rw [sessionSnapshot]
  cases hworker : validateWorker session.worker with
  | ok result => exact ⟨_, rfl⟩
  | error fault =>
      rw [hworker] at h
      cases h

theorem Balanced.serves (h : ledger.Balanced) : ledger.Serves := by
  refine ⟨?_, fun sessionId hconnected => ?_, fun event ledger' sessionId => h.retains⟩
  · intro sessionId worker payout hadmits
    obtain ⟨_, _, _, heq, _⟩ := registerSession_spec h hadmits.2.2 sessionId worker payout
    rw [heq]
  · cases hsession : ledger.sessions.lookup sessionId with
    | none =>
        rw [IsConnected, hsession] at hconnected
        cases hconnected
    | some session =>
        have hworker := h.workers session (KeyMap.mem_values_of_lookup hsession)
        constructor
        · intro block atoms
          rw [creditAcceptedShare, hsession]
          exact exists_sessionSnapshot sessionId hworker
        · rw [creditRejectedShare, hsession]
          exact exists_sessionSnapshot sessionId hworker

end Operations

end PoolLedger

/-- In every run of the ledger, by any interleaving of the threads of connections, of which
at most so many are connected at a time. -/
theorem pool_ledger_serves {events : List LedgerEvent} {ledger : PoolLedger}
    (hrun : runEvents PoolLedger.step events PoolLedger.empty = some ledger) :
    ledger.Balanced ∧ ledger.Serves :=
  have hbalanced : ledger.Balanced := runEvents_inv _ (fun h hstep => h.step hstep) .empty hrun
  ⟨hbalanced, hbalanced.serves⟩

def sampleLedgerEvents : List LedgerEvent :=
  [.register 1 [0x61] (toBytes 6), .register 2 [0x62] (toBytes 6), .creditAccepted 1 true 5,
    .creditRejected 2, .disconnect 1, .creditAccepted 1 false 5, .creditAccepted 7 false 5]

theorem pool_ledger_serves_sample :
    ∃ ledger, runEvents PoolLedger.step sampleLedgerEvents .empty = some ledger ∧
      (ledger.connectedSessions, ledger.acceptedShares, ledger.rejectedShares) = (1, 2, 1) ∧
      ledger.Balanced ∧ ledger.Serves := by
  have hcounts : (runEvents PoolLedger.step sampleLedgerEvents .empty).map
      (fun ledger => (ledger.connectedSessions, ledger.acceptedShares, ledger.rejectedShares)) =
        some (1, 2, 1) := by
    decide +kernel
  obtain ⟨ledger, hrun, hcounts⟩ := Option.map_eq_some_iff.mp hcounts
  exact ⟨ledger, hrun, hcounts, pool_ledger_serves hrun⟩

/-! ## The ledger of a server -/

namespace PoolServer

variable {P : Platform} {E : PowEvaluation} {server server' : PoolServer}

/-- A registration is one that the ledger admits. -/
def Admits (server : PoolServer) : PoolAction → Prop
  | .register sessionId worker payout => server.ledger.Admits (.register sessionId worker payout)
  | _ => True

/-- A step of the server is an event of its ledger, or leaves it. -/
theorem step_ledger {action : PoolAction} (hadmits : server.Admits action)
    (hstep : server.step P E action = some server') :
    server'.ledger = server.ledger ∨
      ∃ event, PoolLedger.step event server.ledger = some server'.ledger := by
  cases action with
  | processShare t share =>
      obtain ⟨_, hstep⟩ := Option.ite_none_right_eq_some.mp hstep
      obtain rfl := Option.some.inj hstep
      exact .inl rfl
  | rotateIfTipChanged t =>
      obtain ⟨_, hstep⟩ := Option.ite_none_right_eq_some.mp hstep
      obtain rfl := Option.some.inj hstep
      exact .inl rfl
  | run t env =>
      rcases runSection_ledger hstep with heq | ⟨share, code, rfl⟩ |
        ⟨share, active, blockAccepted, _, rfl⟩
      · exact .inl heq
      · exact .inr ⟨.creditRejected share.sessionId, if_pos trivial⟩
      · refine .inr ⟨.creditAccepted share.sessionId blockAccepted
          server.config.testCreditAtomsPerShare, ?_⟩
        rw [credit_ledger]
        exact if_pos trivial
  | register sessionId worker payout =>
      obtain rfl := Option.some.inj hstep
      exact .inr ⟨.register sessionId worker payout, if_pos hadmits⟩
  | disconnect sessionId =>
      obtain rfl := Option.some.inj hstep
      exact .inr ⟨.disconnect sessionId, if_pos trivial⟩
  | submitBlock append block acceptedAt =>
      obtain ⟨_, hstep⟩ := Option.ite_none_right_eq_some.mp hstep
      obtain rfl := Option.some.inj hstep
      exact .inl rfl
  | submitTransaction transaction =>
      obtain ⟨_, hstep⟩ := Option.ite_none_right_eq_some.mp hstep
      obtain rfl := Option.some.inj hstep
      exact .inl rfl

instance (server : PoolServer) (action : PoolAction) : Decidable (server.Admits action) := by
  cases action <;> unfold Admits <;> infer_instance

def stepAdmitted (P : Platform) (E : PowEvaluation) (action : PoolAction) (server : PoolServer) :
    Option PoolServer :=
  if server.Admits action then server.step P E action else none

/-- Whatever else the threads of a server do, and whatever becomes of its node. -/
theorem ledger_serves {config : PoolServerConfig} {node : Node} {now : UInt64}
    {startupNonce firstJobNonce : Bytes32} {actions : List PoolAction}
    (hspawn : spawnPoolServer P config node now startupNonce firstJobNonce = .ok server)
    (hrun : runEvents (stepAdmitted P E) actions server = some server') :
    server'.ledger.Balanced ∧ server'.ledger.Serves := by
  have hempty : server.ledger.Balanced := by
    simp only [spawnPoolServer, bind_eq_ok, mapErr_eq_ok, pure_eq_ok] at hspawn
    obtain ⟨_, _, _, _, rfl⟩ := hspawn
    exact .empty
  have hbalanced : server'.ledger.Balanced := by
    refine runEvents_inv (fun server : PoolServer => server.ledger.Balanced) ?_ hempty hrun
    intro action before after h hstep
    obtain ⟨hadmits, hstep⟩ := Option.ite_none_right_eq_some.mp hstep
    rcases step_ledger hadmits hstep with heq | ⟨event, hevent⟩
    · rw [heq]
      exact h
    · exact h.step hevent
  exact ⟨hbalanced, hbalanced.serves⟩

end PoolServer

end CommonFoundry
