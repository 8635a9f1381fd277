/-
# `CommonFoundry.Node.Pool` — jobs, shares and the ledger of the mining pool

What the functions of `pool.rs` do to the data they lock: a job is made from a template
of the node, a nonce is evaluated for a job, the set of nonces of a job reserves it, and
the ledger of the sessions is credited.  Threads and locks come in `PoolRun`.

`ConsensusPowVerifier` is known by the calls of block validation; the two others that a
pool makes are the `PowEvaluation`.  The nonces of a job are a set behind a lock of its
own; here they are a field of the job.
-/
import CommonFoundry.Lib.KeyMap
import CommonFoundry.Node.Template
import Mathlib.Data.List.MinMax

namespace CommonFoundry

open Lib Lib.Outcome

def poolMaxWorkerBytes : Nat := 32
def poolMaxSharesPerJob : Nat := 65536
def poolMaxLedgerSessions : Nat := 1024
def poolMaxLedgerPayouts : Nat := 1024

def poolJobDomain : String := "CMFD/DEVNET-POOL/JOB/V1"

/-! ## Errors -/

/-- The variants of `NodeError` that only mining and the clock return. -/
inductive MiningError where
  | invalidMiningShareTarget
  | pow (error : PowError)
  | invalidSystemTime

/-- The variants of `PoolError` that shares and rotations return. -/
inductive PoolError where
  | invalidWorker
  | invalidMessage (message : String)
  | sharedStatePoisoned
  | ledgerCapacity
  | random (error : String)
  | node (error : NodeError)
  | mining (error : MiningError)

/-! ## Evaluating a share -/

/-- `evaluate` and `verify_evaluation` of a verifier: the proof of a nonce, and the check
of a proof, both without the target. -/
structure PowEvaluation where
  evaluate : ConsensusPowVerifier → BlockChallenge → UInt64 → Outcome PowError BlockProof
  verifyEvaluation : ConsensusPowVerifier → BlockChallenge → BlockProof → Outcome PowError Unit

structure MiningJob where
  template : BlockTemplate
  verifier : ConsensusPowVerifier

structure MiningShareEvaluation where
  proof : BlockProof
  workDigest : Bytes32
  meetsShareTarget : Bool
  meetsChainTarget : Bool

namespace MiningJob

variable (E : PowEvaluation)

def challenge (job : MiningJob) : BlockChallenge := job.template.challenge

def validateShareTarget (job : MiningJob) (shareTarget : Bytes32) : Outcome MiningError Unit :=
  require (¬shareTarget < job.template.challenge.target) .invalidMiningShareTarget

def evaluateShareUnchecked (job : MiningJob) (nonce : UInt64) (shareTarget : Bytes32) :
    Outcome MiningError MiningShareEvaluation := do
  let proof ← mapErr .pow (E.evaluate job.verifier job.template.challenge nonce)
  let workDigest := proof.workDigest
  pure {
    proof, workDigest
    meetsShareTarget := workDigest ≤ shareTarget
    meetsChainTarget := workDigest ≤ job.template.challenge.target }

def evaluateShare (job : MiningJob) (nonce : UInt64) (shareTarget : Bytes32) :
    Outcome MiningError MiningShareEvaluation := do
  job.validateShareTarget shareTarget
  job.evaluateShareUnchecked E nonce shareTarget

def buildBlockIfChainValid (job : MiningJob) (proof : BlockProof) :
    Outcome MiningError (Option Block) := do
  mapErr .pow (E.verifyEvaluation job.verifier job.template.challenge proof)
  if proof.workDigest > job.template.challenge.target then pure none
  else pure (some (job.template.block proof))

end MiningJob

def Node.buildMiningJob (P : Platform) (node : Node) (minerDestination : Bytes32)
    (nowUnixSeconds : UInt64) : Outcome NodeError MiningJob := do
  let template ← node.buildTemplate P minerDestination nowUnixSeconds
  pure { template, verifier := node.verifier }

/-- A job is made on the tip. -/
theorem buildMiningJob_parent {P : Platform} {node : Node} {miner : Bytes32} {now : UInt64}
    {job : MiningJob} (h : node.buildMiningJob P miner now = .ok job) :
    job.challenge.previousBlock = node.state.tip := by
  simp only [Node.buildMiningJob, Node.buildTemplate, bind_eq_ok, pure_eq_ok] at h
  obtain ⟨_, ⟨_, _, _, _, _, _, _, _, _, _, _, _, _, _, _, _, rfl⟩, rfl⟩ := h
  rfl

/-! ## Jobs -/

structure PoolJob where
  jobId : Bytes32
  challenge : BlockChallenge
  shareTarget : Bytes32

structure ActiveJob where
  wire : PoolJob
  mining : MiningJob
  seenNonces : Finset UInt64

/-- What `make_job_id` hashes. -/
def jobIdBytes (startupNonce jobNonce : Bytes32) (sequence : UInt64) (challenge : BlockChallenge)
    (shareTarget : Bytes32) : List UInt8 :=
  startupNonce.1 ++ jobNonce.1 ++ leBytes64 sequence ++ challenge.networkId.1 ++
    challenge.previousBlock.1 ++ challenge.transactionRoot.1 ++ leBytes64 challenge.height ++
    leBytes64 challenge.timestamp ++ challenge.target.1 ++ shareTarget.1

def makeJobId (P : Platform) (startupNonce jobNonce : Bytes32) (sequence : UInt64)
    (challenge : BlockChallenge) (shareTarget : Bytes32) : Bytes32 :=
  P.deriveKey poolJobDomain (jobIdBytes startupNonce jobNonce sequence challenge shareTarget)

def easierTarget (configured chain : Bytes32) : Bytes32 := max configured chain

/-- The job that `spawn_pool_server` and `rotate_if_tip_changed` make. -/
def ActiveJob.new (P : Platform) (configuredShareTarget startupNonce jobNonce : Bytes32)
    (sequence : UInt64) (mining : MiningJob) : ActiveJob :=
  let shareTarget := easierTarget configuredShareTarget mining.challenge.target
  { wire := {
      jobId := makeJobId P startupNonce jobNonce sequence mining.challenge shareTarget
      challenge := mining.challenge
      shareTarget }
    mining
    seenNonces := ∅ }

inductive NonceReservation where
  | reserved
  | duplicate
  | full
  deriving DecidableEq

def reserveValidShare (active : ActiveJob) (nonce : UInt64) : NonceReservation × ActiveJob :=
  if nonce ∈ active.seenNonces then (.duplicate, active)
  else if active.seenNonces.card ≥ poolMaxSharesPerJob then (.full, active)
  else (.reserved, { active with seenNonces := insert nonce active.seenNonces })

/-- A reservation adds the nonce, if it was not there and there is room. -/
theorem reserveValidShare_eq {active job : ActiveJob} {nonce : UInt64} {answer : NonceReservation}
    (h : reserveValidShare active nonce = (answer, job)) :
    job.wire = active.wire ∧ job.mining = active.mining ∧ active.seenNonces ⊆ job.seenNonces ∧
      (answer = .duplicate ↔ nonce ∈ active.seenNonces) ∧
      (answer = .reserved → job.seenNonces = insert nonce active.seenNonces) ∧
      (answer ≠ .reserved → job = active) := by
  rw [reserveValidShare] at h
  split at h
  · next hmem =>
      obtain ⟨rfl, rfl⟩ := Prod.mk.inj h
      exact ⟨rfl, rfl, subset_rfl, ⟨fun _ => hmem, fun _ => rfl⟩, nofun, fun _ => rfl⟩
  · next hmem =>
      split at h
      · obtain ⟨rfl, rfl⟩ := Prod.mk.inj h
        exact ⟨rfl, rfl, subset_rfl, ⟨nofun, fun hin => absurd hin hmem⟩, nofun, fun _ => rfl⟩
      · obtain ⟨rfl, rfl⟩ := Prod.mk.inj h
        exact ⟨rfl, rfl, Finset.subset_insert _ _, ⟨nofun, fun hin => absurd hin hmem⟩,
          fun _ => rfl, fun hne => absurd rfl hne⟩

/-! ## The ledger -/

/-- Session numbers are in order. -/
instance instLinearOrderUInt64 : LinearOrder UInt64 where
  le_refl := UInt64.le_refl
  le_trans _ _ _ := UInt64.le_trans
  le_antisymm _ _ := UInt64.le_antisymm
  le_total := UInt64.le_total
  lt_iff_le_not_ge a b := by
    rw [UInt64.not_le]
    exact ⟨fun h => ⟨UInt64.le_of_lt h, h⟩, fun h => h.2⟩
  toDecidableLE := inferInstance
  toDecidableLT := inferInstance

/-- `worker` holds the bytes of the name. -/
structure SessionRecord where
  connected : Bool
  worker : List UInt8
  payout : Bytes32
  acceptedShares : UInt64
  rejectedShares : UInt64
  poolBlocks : UInt64
  creditedDevnetAtoms : UInt64

structure PayoutRecord where
  acceptedShares : UInt64
  rejectedShares : UInt64
  poolBlocks : UInt64
  creditedDevnetAtoms : UInt64
  lastSessionId : UInt64

def PayoutRecord.default : PayoutRecord where
  acceptedShares := 0
  rejectedShares := 0
  poolBlocks := 0
  creditedDevnetAtoms := 0
  lastSessionId := 0

/-- `Ledger`. -/
structure PoolLedger where
  acceptedShares : UInt64
  rejectedShares : UInt64
  poolBlocks : UInt64
  creditedDevnetAtoms : UInt64
  sessions : KeyMap UInt64 SessionRecord
  payouts : KeyMap Bytes32 PayoutRecord

/-- `payout` is the hexadecimal text of the key. -/
structure PoolSessionStats where
  sessionId : UInt64
  connected : Bool
  worker : List UInt8
  payout : String
  acceptedShares : UInt64
  rejectedShares : UInt64
  poolBlocks : UInt64
  creditedDevnetAtoms : UInt64

/-- `hex::encode`. -/
def hexEncode (bytes : List UInt8) : String :=
  .ofList (bytes.flatMap fun byte => [byte.toNat / 16, byte.toNat % 16].map Nat.digitChar)

/-- `byte.is_ascii_alphanumeric()`. -/
def isAsciiAlphanumeric (byte : UInt8) : Bool :=
  (0x30 ≤ byte ∧ byte ≤ 0x39) ∨ (0x41 ≤ byte ∧ byte ≤ 0x5a) ∨ (0x61 ≤ byte ∧ byte ≤ 0x7a)

def validateWorker (worker : List UInt8) : Outcome PoolError Unit :=
  require (¬(worker = [] ∨ worker.length > poolMaxWorkerBytes ∨
    ¬worker.all fun byte => isAsciiAlphanumeric byte ∨ byte ∈ [0x2e, 0x5f, 0x2d])) .invalidWorker

def sessionSnapshot (sessionId : UInt64) (record : SessionRecord) :
    Outcome PoolError PoolSessionStats := do
  validateWorker record.worker
  pure {
    sessionId
    connected := record.connected
    worker := record.worker
    payout := hexEncode record.payout.1
    acceptedShares := record.acceptedShares
    rejectedShares := record.rejectedShares
    poolBlocks := record.poolBlocks
    creditedDevnetAtoms := record.creditedDevnetAtoms }

/-- One more, if there is something to count. -/
def countIf (counter : UInt64) (counts : Bool) : UInt64 :=
  if counts then saturatingAdd counter 1 else counter

namespace PoolLedger

def empty : PoolLedger where
  acceptedShares := 0
  rejectedShares := 0
  poolBlocks := 0
  creditedDevnetAtoms := 0
  sessions := .empty
  payouts := .empty

/-- `payouts.entry(payout).or_default()`. -/
def payoutOrDefault (ledger : PoolLedger) (payout : Bytes32) : PayoutRecord :=
  (ledger.payouts.lookup payout).getD .default

/-- The loop of `register_session` that makes room for a session. -/
def pruneSessions : Nat → KeyMap UInt64 SessionRecord →
    Outcome PoolError Unit × KeyMap UInt64 SessionRecord
  | 0, sessions => (.ok (), sessions)
  | fuel + 1, sessions =>
      if sessions.length ≥ poolMaxLedgerSessions then
        match sessions.entries.find? fun entry => ¬entry.2.connected with
        | some inactive => pruneSessions fuel (sessions.erase inactive.1)
        | none => (fail .ledgerCapacity, sessions)
      else (.ok (), sessions)

/-- The payout record that `register_session` would remove: of those without a session,
the first with the oldest last session. -/
def removablePayout (ledger : PoolLedger) : Option Bytes32 :=
  let unused := ledger.payouts.entries.filter fun entry =>
    ¬ledger.sessions.values.any fun session => session.payout = entry.1
  (unused.argmin fun entry => entry.2.lastSessionId.toNat).map (·.1)

/-- The loop ends with room for a session, or with the error. -/
theorem pruneSessions_room {fuel : Nat} {sessions : KeyMap UInt64 SessionRecord} {u : Unit}
    (hfuel : sessions.length ≤ fuel) (hok : (pruneSessions fuel sessions).1 = .ok u) :
    (pruneSessions fuel sessions).2.length < poolMaxLedgerSessions := by
  induction fuel generalizing sessions with
  | zero =>
      have hmax : 0 < poolMaxLedgerSessions := by decide
      rw [pruneSessions]
      show sessions.length < poolMaxLedgerSessions
      omega
  | succ fuel ih =>
      rw [pruneSessions] at hok ⊢
      split at hok
      · next hfull =>
          rw [if_pos hfull]
          split at hok
          · next inactive hfind =>
              have hlt : (sessions.erase inactive.1).length < sessions.length := by
                refine List.length_filter_lt_length_iff_exists.mpr ⟨inactive, ?_, ?_⟩
                · exact List.mem_of_find?_eq_some hfind
                · simp
              exact ih (by omega) hok
          · cases hok
      · next hroom =>
          rw [if_neg hroom]
          exact not_le.mp hroom

/-- The step of `register_session` that makes room for a payout record. -/
def prunePayouts (ledger : PoolLedger) (payout : Bytes32) : Outcome PoolError Unit × PoolLedger :=
  if ¬ledger.payouts.contains payout ∧ ledger.payouts.length ≥ poolMaxLedgerPayouts then
    match ledger.removablePayout with
    | some removable => (.ok (), { ledger with payouts := ledger.payouts.erase removable })
    | none => (fail .ledgerCapacity, ledger)
  else (.ok (), ledger)

def registerSession (ledger : PoolLedger) (sessionId : UInt64) (worker : List UInt8)
    (payout : Bytes32) : Outcome PoolError Unit × PoolLedger :=
  match pruneSessions ledger.sessions.length ledger.sessions with
  | (.error fault, sessions) => (.error fault, { ledger with sessions })
  | (.ok _, sessions) =>
      match prunePayouts { ledger with sessions } payout with
      | (.error fault, ledger) => (.error fault, ledger)
      | (.ok _, ledger) =>
          let session : SessionRecord := {
            connected := true, worker, payout, acceptedShares := 0, rejectedShares := 0
            poolBlocks := 0, creditedDevnetAtoms := 0 }
          let record := { ledger.payoutOrDefault payout with lastSessionId := sessionId }
          (.ok (), { ledger with
            sessions := ledger.sessions.insert sessionId session
            payouts := ledger.payouts.insert payout record })

/-- What the `SessionGuard` does when its connection ends. -/
def disconnect (ledger : PoolLedger) (sessionId : UInt64) : PoolLedger :=
  match ledger.sessions.lookup sessionId with
  | none => ledger
  | some session => { ledger with
      sessions := ledger.sessions.insert sessionId { session with connected := false } }

/-- `credit_accepted_share` of a session that is there. -/
def creditSession (ledger : PoolLedger) (sessionId : UInt64) (session : SessionRecord)
    (block : Bool) (atoms : UInt64) : SessionRecord × PoolLedger :=
  let payout := ledger.payoutOrDefault session.payout
  let session := { session with
    acceptedShares := saturatingAdd session.acceptedShares 1
    creditedDevnetAtoms := saturatingAdd session.creditedDevnetAtoms atoms
    poolBlocks := countIf session.poolBlocks block }
  let payout := { payout with
    lastSessionId := sessionId
    acceptedShares := saturatingAdd payout.acceptedShares 1
    creditedDevnetAtoms := saturatingAdd payout.creditedDevnetAtoms atoms
    poolBlocks := countIf payout.poolBlocks block }
  (session, { ledger with
    acceptedShares := saturatingAdd ledger.acceptedShares 1
    creditedDevnetAtoms := saturatingAdd ledger.creditedDevnetAtoms atoms
    poolBlocks := countIf ledger.poolBlocks block
    sessions := ledger.sessions.insert sessionId session
    payouts := ledger.payouts.insert session.payout payout })

def creditAcceptedShare (ledger : PoolLedger) (sessionId : UInt64) (block : Bool)
    (atoms : UInt64) : Outcome PoolError PoolSessionStats × PoolLedger :=
  match ledger.sessions.lookup sessionId with
  | none => (fail (.invalidMessage "unknown session"), ledger)
  | some session =>
      let (session, ledger) := ledger.creditSession sessionId session block atoms
      (sessionSnapshot sessionId session, ledger)

def creditRejectedShare (ledger : PoolLedger) (sessionId : UInt64) :
    Outcome PoolError PoolSessionStats × PoolLedger :=
  match ledger.sessions.lookup sessionId with
  | none => (fail (.invalidMessage "unknown session"), ledger)
  | some session =>
      let payout := ledger.payoutOrDefault session.payout
      let session := { session with rejectedShares := saturatingAdd session.rejectedShares 1 }
      let payout := { payout with
        lastSessionId := sessionId
        rejectedShares := saturatingAdd payout.rejectedShares 1 }
      (sessionSnapshot sessionId session, { ledger with
        rejectedShares := saturatingAdd ledger.rejectedShares 1
        sessions := ledger.sessions.insert sessionId session
        payouts := ledger.payouts.insert session.payout payout })

/-! ## The counters of blocks -/

/-- The count of blocks in the record under a key, none if there is no record. -/
def blocksAt {K V : Type} [LinearOrder K] (blocks : V → UInt64) (records : KeyMap K V) (key : K) :
    UInt64 :=
  ((records.lookup key).map blocks).getD 0

section BlocksAt

variable {K V : Type} [LinearOrder K] {blocks : V → UInt64} {records : KeyMap K V} {value : V}

theorem blocksAt_erase_le (key other : K) :
    blocksAt blocks (records.erase key) other ≤ blocksAt blocks records other := by
  rw [blocksAt, KeyMap.lookup_erase]
  split
  · exact UInt64.zero_le
  · exact le_refl _

/-- A record that counts no more than the one it replaces. -/
theorem blocksAt_insert_le {key : K} (hle : blocks value ≤ blocksAt blocks records key)
    (other : K) : blocksAt blocks (records.insert key value) other ≤ blocksAt blocks records other := by
  rw [blocksAt, KeyMap.lookup_insert]
  split
  · next heq =>
      subst heq
      exact hle
  · exact le_refl _

theorem blocksAt_of_lookup {key : K} (h : records.lookup key = some value) :
    blocksAt blocks records key = blocks value := by
  rw [blocksAt, h]
  rfl

end BlocksAt

/-- No counter of blocks is larger, neither the pool's nor that of a session or payout. -/
structure NoMoreBlocks (before after : PoolLedger) : Prop where
  pool : after.poolBlocks ≤ before.poolBlocks
  session : ∀ sessionId, blocksAt SessionRecord.poolBlocks after.sessions sessionId ≤
    blocksAt SessionRecord.poolBlocks before.sessions sessionId
  payout : ∀ payout, blocksAt PayoutRecord.poolBlocks after.payouts payout ≤
    blocksAt PayoutRecord.poolBlocks before.payouts payout

theorem NoMoreBlocks.refl (ledger : PoolLedger) : NoMoreBlocks ledger ledger :=
  ⟨le_refl _, fun _ => le_refl _, fun _ => le_refl _⟩

theorem payoutOrDefault_blocks (ledger : PoolLedger) (payout : Bytes32) :
    (ledger.payoutOrDefault payout).poolBlocks =
      blocksAt PayoutRecord.poolBlocks ledger.payouts payout := by
  rw [payoutOrDefault, blocksAt]
  cases ledger.payouts.lookup payout with
  | none => rfl
  | some record => rfl

/-- A session and a payout are updated, and count no further blocks. -/
theorem NoMoreBlocks.of_insert {ledger ledger' : PoolLedger} {sessionId : UInt64}
    {session session' : SessionRecord} {payout : Bytes32} {record : PayoutRecord}
    (hsession : ledger.sessions.lookup sessionId = some session)
    (hpool : ledger'.poolBlocks = ledger.poolBlocks)
    (hsessions : ledger'.sessions = ledger.sessions.insert sessionId session')
    (hpayouts : ledger'.payouts = ledger.payouts.insert payout record)
    (hsame : session'.poolBlocks = session.poolBlocks)
    (hsame' : record.poolBlocks = (ledger.payoutOrDefault payout).poolBlocks) :
    NoMoreBlocks ledger ledger' := by
  refine ⟨le_of_eq hpool, fun id => ?_, fun other => ?_⟩
  · rw [hsessions]
    refine blocksAt_insert_le (le_of_eq ?_) id
    rw [hsame, blocksAt_of_lookup hsession]
  · rw [hpayouts]
    refine blocksAt_insert_le (le_of_eq ?_) other
    rw [hsame', payoutOrDefault_blocks]

theorem pruneSessions_blocks (fuel : Nat) (sessions : KeyMap UInt64 SessionRecord)
    (sessionId : UInt64) :
    blocksAt SessionRecord.poolBlocks (pruneSessions fuel sessions).2 sessionId ≤
      blocksAt SessionRecord.poolBlocks sessions sessionId := by
  induction fuel generalizing sessions with
  | zero => exact le_refl _
  | succ fuel ih =>
      rw [pruneSessions]
      split
      · split
        · exact le_trans (ih _) (blocksAt_erase_le _ _)
        · exact le_refl _
      · exact le_refl _

theorem prunePayouts_ledger (ledger : PoolLedger) (payout : Bytes32) :
    ∃ payouts, (ledger.prunePayouts payout).2 = { ledger with payouts } ∧
      ∀ other, blocksAt PayoutRecord.poolBlocks payouts other ≤
        blocksAt PayoutRecord.poolBlocks ledger.payouts other := by
  rw [prunePayouts]
  split
  · split
    · exact ⟨_, rfl, blocksAt_erase_le _⟩
    · exact ⟨_, rfl, fun _ => le_refl _⟩
  · exact ⟨_, rfl, fun _ => le_refl _⟩

/-- Registering a session counts nothing. -/
theorem registerSession_counts (ledger : PoolLedger) (sessionId : UInt64) (worker : List UInt8)
    (payout : Bytes32) :
    (ledger.registerSession sessionId worker payout).2.acceptedShares = ledger.acceptedShares ∧
      (ledger.registerSession sessionId worker payout).2.poolBlocks = ledger.poolBlocks ∧
      NoMoreBlocks ledger (ledger.registerSession sessionId worker payout).2 := by
  have hsessions := pruneSessions_blocks ledger.sessions.length ledger.sessions
  rw [registerSession]
  split
  · next fault sessions hprune =>
      rw [hprune] at hsessions
      exact ⟨rfl, rfl, le_refl _, hsessions, fun _ => le_refl _⟩
  · next sessions hprune =>
      rw [hprune] at hsessions
      obtain ⟨payouts, hledger, hpayouts⟩ := prunePayouts_ledger { ledger with sessions } payout
      split
      · next fault pruned hpruned =>
          obtain rfl : pruned = _ := (congrArg Prod.snd hpruned).symm.trans hledger
          exact ⟨rfl, rfl, le_refl _, hsessions, hpayouts⟩
      · next pruned hpruned =>
          obtain rfl : pruned = _ := (congrArg Prod.snd hpruned).symm.trans hledger
          refine ⟨rfl, rfl, le_refl _, fun id => ?_, fun other => ?_⟩
          · refine le_trans (blocksAt_insert_le ?_ id) (hsessions id)
            exact UInt64.zero_le
          · refine le_trans (blocksAt_insert_le ?_ other) (hpayouts other)
            exact le_of_eq (payoutOrDefault_blocks _ payout)

theorem disconnect_counts (ledger : PoolLedger) (sessionId : UInt64) :
    (ledger.disconnect sessionId).acceptedShares = ledger.acceptedShares ∧
      (ledger.disconnect sessionId).poolBlocks = ledger.poolBlocks ∧
      NoMoreBlocks ledger (ledger.disconnect sessionId) := by
  rw [disconnect]
  split
  · exact ⟨rfl, rfl, .refl ledger⟩
  · next session hsession =>
      refine ⟨rfl, rfl, le_refl _, fun id => ?_, fun _ => le_refl _⟩
      refine blocksAt_insert_le (le_of_eq ?_) id
      rw [blocksAt_of_lookup hsession]

theorem creditRejectedShare_counts (ledger : PoolLedger) (sessionId : UInt64) :
    (ledger.creditRejectedShare sessionId).2.acceptedShares = ledger.acceptedShares ∧
      (ledger.creditRejectedShare sessionId).2.poolBlocks = ledger.poolBlocks ∧
      NoMoreBlocks ledger (ledger.creditRejectedShare sessionId).2 := by
  rw [creditRejectedShare]
  split
  · exact ⟨rfl, rfl, .refl ledger⟩
  · next session hsession => exact ⟨rfl, rfl, .of_insert hsession rfl rfl rfl rfl rfl⟩

/-- A share of an unknown session changes nothing. -/
theorem creditAcceptedShare_unknown {ledger : PoolLedger} {sessionId : UInt64}
    (h : ledger.sessions.lookup sessionId = none) (block : Bool) (atoms : UInt64) :
    ledger.creditAcceptedShare sessionId block atoms =
      (fail (.invalidMessage "unknown session"), ledger) := by
  rw [creditAcceptedShare, h]

theorem creditAcceptedShare_counts {ledger : PoolLedger} {sessionId : UInt64}
    {session : SessionRecord} (h : ledger.sessions.lookup sessionId = some session) (block : Bool)
    (atoms : UInt64) :
    (ledger.creditAcceptedShare sessionId block atoms).2.acceptedShares =
        saturatingAdd ledger.acceptedShares 1 ∧
      (ledger.creditAcceptedShare sessionId block atoms).2.poolBlocks =
        countIf ledger.poolBlocks block := by
  rw [creditAcceptedShare, h]
  exact ⟨rfl, rfl⟩

/-- A share that is not a block adds to no counter of blocks. -/
theorem creditAcceptedShare_noMoreBlocks (ledger : PoolLedger) (sessionId atoms : UInt64) :
    NoMoreBlocks ledger (ledger.creditAcceptedShare sessionId false atoms).2 := by
  rw [creditAcceptedShare]
  split
  · exact .refl ledger
  · next session hsession => exact .of_insert hsession rfl rfl rfl rfl rfl

end PoolLedger

end CommonFoundry
