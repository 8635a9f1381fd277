/-
# `CommonFoundry.Node.PoolMoves` — what a section of a session does

A session is outside of the ledger, has a number, is in the ledger under a guard, or is closed.
Most of its sections stay in one such stage (`Stays`); the four others are those of `Moves`: it
takes its number, registers, disconnects, or ends its connection.
-/
import CommonFoundry.Node.PoolSession

namespace CommonFoundry

open Lib Lib.Outcome

/-! ## Stages of a session -/

inductive SessionStage where
  | outside
  | numbered
  | guarded
  | closed
  deriving DecidableEq

def SessionPlace.stage : SessionPlace → SessionStage
  | .hello | .numbering .. | .rejecting .. | .closing => .outside
  | .registering .. => .numbered
  | .closed => .closed
  | _ => .guarded

/-- The name of the worker was checked. -/
def SessionPlace.Names : SessionPlace → Prop
  | .numbering worker _ => (validateWorker worker).isOk = true
  | .registering worker _ => (validateWorker worker).isOk = true
  | _ => True

/-- The call of its thread is the one that its place says: a rotation, a share of its own
session, or none. -/
def PoolConnection.Fits (connection : PoolConnection) (call : Call) : Prop :=
  match connection.place with
  | .rotating | .checking .. => call.Rotates
  | .processing jobId nonce _ =>
      call.Processes { sessionId := connection.sessionId, jobId, nonce }
  | _ => call.atRest = true

/-- The action is of this thread, or of no thread of the pool. -/
def PoolServer.OfThread (t : Nat) : PoolAction → Prop
  | .processShare u _ => u = t
  | .rotateIfTipChanged u => u = t
  | .run u _ => u = t
  | .register .. => False
  | .disconnect _ => False
  | .submitBlock .. => True
  | .submitTransaction _ => True

/-! ## Sections of a session -/

variable {P : Platform} {E : PowEvaluation} {network network' : PoolNetwork} {server : PoolServer}
  {k : Nat} {connection : PoolConnection}

/-- A thread that stands here is in no call. -/
def SessionPlace.Rests : SessionPlace → Prop
  | .rotating | .checking .. | .processing .. => False
  | _ => True

theorem PoolConnection.fits_iff_atRest (h : connection.place.Rests) (call : Call) :
    connection.Fits call ↔ call.atRest = true := by
  rw [PoolConnection.Fits]
  split
  · next hplace =>
      rw [hplace] at h
      exact h.elim
  · next hplace =>
      rw [hplace] at h
      exact h.elim
  · next hplace =>
      rw [hplace] at h
      exact h.elim
  · rfl

/-- From one place to another of the same stage. -/
structure SessionPlace.Next (place next : SessionPlace) : Prop where
  stage : next.stage = place.stage
  names : next.Names
  rests : next.Rests

/-- A step that the thread can begin a call with, or go on with its call. -/
inductive PoolServer.Due (server : PoolServer) (t : Nat) : PoolAction → Prop
  | rotation (hrest : (server.calls t).atRest = true) : Due server t (.rotateIfTipChanged t)
  | share (hrest : (server.calls t).atRest = true) {share : PoolShare} :
      Due server t (.processShare t share)
  | onward (hbusy : (server.calls t).atRest = false) {env : Environment} :
      Due server t (.run t env)

theorem PoolServer.Due.ofThread {t : Nat} {action : PoolAction} (h : server.Due t action) :
    OfThread t action := by
  cases h <;> rfl

theorem busy_of_rotates {call : Call} (h : call.Rotates) (hne : ∀ result, call ≠ .rotated result) :
    call.atRest = false := by
  cases call with
  | rotated result => exact absurd rfl (hne result)
  | rotating next => rfl
  | installing next => rfl
  | _ => cases h

theorem busy_of_processes {call : Call} {share : PoolShare} (h : call.Processes share)
    (hne : ∀ result, call ≠ .returned result) : call.atRest = false := by
  cases call with
  | returned result => exact absurd rfl (hne result)
  | idle => cases h
  | rotated result => cases h
  | _ => rfl

/-- A thread that goes on with its rotation. -/
theorem PoolServer.runs_rotation {server' : PoolServer} {t : Nat} {env : Environment}
    (hcall : (server.calls t).Rotates) (hstep : server.step P E (.run t env) = some server') :
    (server'.calls t).Rotates := by
  obtain ⟨call, credits, hrule, hframe⟩ := runSection_step hstep
  rw [hframe.calls, Function.update_self]
  exact (hrule.rotates hcall).1

/-- A thread that goes on with the share of its session. -/
theorem PoolServer.runs_share {share : PoolShare} {server' : PoolServer} {t : Nat}
    {env : Environment} (hcall : (server.calls t).Processes share)
    (hstep : server.step P E (.run t env) = some server') : (server'.calls t).Processes share := by
  obtain ⟨call, credits, hrule, hframe⟩ := runSection_step hstep
  rw [hframe.calls, Function.update_self]
  exact (hrule.processes hcall).processes

namespace PoolNetwork

/-- The step of the server that a section takes, if any. -/
def Acts (P : Platform) (E : PowEvaluation) (server server' : PoolServer) :
    Option PoolAction → Prop
  | none => server' = server
  | some action => server.step P E action = some server'

theorem act_some {action : Option PoolAction} (h : network.act P E action = some network') :
    ∃ server, Acts P E network.server server action ∧ network' = { network with server } := by
  obtain ⟨server, hserver, rfl⟩ := Option.map_eq_some_iff.mp h
  refine ⟨server, ?_, rfl⟩
  cases action with
  | none => exact (Option.some.inj hserver).symm
  | some action => exact hserver

/-- A section that keeps its stage. -/
structure Stays (P : Platform) (E : PowEvaluation) (network : PoolNetwork) (k : Nat)
    (connection : PoolConnection) (move : SessionMove) : Prop where
  stage : move.connection.place.stage = connection.place.stage
  number : move.connection.number = connection.number
  names : move.connection.place.Names
  counters : move.takesNumber = false ∧ move.endsConnection = false
  action : ∀ action, move.action = some action → network.server.Due (k + 1) action
  fits : ∀ server, Acts P E network.server server move.action →
    move.connection.Fits (server.calls (k + 1))

theorem Stays.quiet {moved : PoolConnection}
    (hrest : (network.server.calls (k + 1)).atRest = true)
    (hnext : connection.place.Next moved.place) (hnumber : moved.number = connection.number) :
    Stays P E network k connection { connection := moved } := by
  refine ⟨hnext.stage, hnumber, hnext.names, ⟨rfl, rfl⟩, fun _ h => (by cases h),
    fun server hacts => (moved.fits_iff_atRest hnext.rests _).mpr ?_⟩
  obtain rfl : server = network.server := hacts
  exact hrest

theorem Stays.goto {place : SessionPlace} (hrest : (network.server.calls (k + 1)).atRest = true)
    (hnext : connection.place.Next place) :
    Stays P E network k connection { connection := connection.goto place } :=
  .quiet hrest hnext rfl

theorem Stays.writes {io : SessionIo} {message : ServerMessage} {next failed : SessionPlace}
    (hrest : (network.server.calls (k + 1)).atRest = true)
    (hnext : connection.place.Next next) (hfailed : connection.place.Next failed) :
    Stays P E network k connection (writes io connection message next failed) := by
  rw [PoolNetwork.writes, PoolConnection.write]
  split
  · exact .quiet hrest hnext rfl
  · exact .quiet hrest hfailed rfl

/-- A rotation begins. -/
theorem Stays.rotates {moved : PoolConnection}
    (hrest : (network.server.calls (k + 1)).atRest = true)
    (hstage : moved.place.stage = connection.place.stage)
    (hnumber : moved.number = connection.number) (hnames : moved.place.Names)
    (hfits : ∀ call : Call, call.Rotates → moved.Fits call) :
    Stays P E network k connection {
      connection := moved, action := some (.rotateIfTipChanged (k + 1)) } := by
  refine ⟨hstage, hnumber, hnames, ⟨rfl, rfl⟩, fun action haction => ?_, fun server hacts => ?_⟩
  · obtain rfl := Option.some.inj haction
    exact .rotation hrest
  · obtain ⟨_, hstep⟩ := Option.ite_none_right_eq_some.mp hacts
    obtain rfl := Option.some.inj hstep
    rw [PoolServer.goto_calls_self]
    exact hfits _ trivial

theorem next_afterHello (message : ClientMessage) :
    SessionPlace.hello.Next (network.afterHello P message) := by
  cases message with
  | submitShare jobId nonce => exact ⟨rfl, trivial, trivial⟩
  | hello protocolVersion networkId consensusFingerprint worker payout =>
      rw [afterHello]
      split
      · exact ⟨rfl, trivial, trivial⟩
      split
      · exact ⟨rfl, trivial, trivial⟩
      split
      · exact ⟨rfl, trivial, trivial⟩
      split
      · next hworker => exact ⟨rfl, hworker.1, trivial⟩
      · exact ⟨rfl, trivial, trivial⟩

variable {io : SessionIo} {move : SessionMove}

theorem stays_readHello (hplace : connection.place = .hello)
    (hrest : (network.server.calls (k + 1)).atRest = true)
    (h : network.readHello P io connection = some move) :
    Stays P E network k connection move := by
  rw [readHello] at h
  split at h
  · split at h
    · cases h
    · obtain rfl := Option.some.inj h
      exact .quiet hrest (hplace ▸ next_afterHello _) rfl
  · obtain rfl := Option.some.inj h
    exact .goto hrest (hplace ▸ ⟨rfl, trivial, trivial⟩)

/-- A section that begins with the current job. -/
theorem stays_currentJob {next : PoolJob → SessionMove}
    (hrest : (network.server.calls (k + 1)).atRest = true)
    (hguarded : connection.place.stage = .guarded)
    (hnext : ∀ job, Stays P E network k connection (next job))
    (h : network.withCurrentJob connection next = some move) :
    Stays P E network k connection move := by
  obtain ⟨outcome, _, rfl⟩ := Option.map_eq_some_iff.mp h
  cases outcome with
  | ok job => exact hnext job
  | error fault => exact .goto hrest ⟨hguarded.symm, trivial, trivial⟩

theorem stays_rotate (hguarded : connection.place.stage = .guarded)
    (hnames : connection.place.Names)
    (hself : ∀ call, connection.Fits call ↔ call.Rotates)
    (hfits : connection.Fits (network.server.calls (k + 1))) {next : SessionPlace}
    (hnext : connection.place.Next next) :
    Stays P E network k connection (network.rotate io k connection next) := by
  rw [rotate]
  split
  · next hcall => exact .goto (hcall ▸ rfl) hnext
  · next hcall => exact .goto (hcall ▸ rfl) ⟨hguarded.symm, trivial, trivial⟩
  · next hok herror =>
    have hrotates := (hself _).mp hfits
    refine ⟨rfl, rfl, hnames, ⟨rfl, rfl⟩, fun action haction => ?_, fun server hacts => ?_⟩
    · obtain rfl := Option.some.inj haction
      refine .onward (busy_of_rotates hrotates fun result hcall => ?_)
      cases result with
      | ok rotated => exact hok rotated hcall
      | error fault => exact herror fault hcall
    · exact (hself _).mpr (PoolServer.runs_rotation hrotates hacts)

/-- The message was read from the connection, which is as it was otherwise. -/
theorem stays_takeMessage (hrest : (network.server.calls (k + 1)).atRest = true)
    (hguarded : connection.place.stage = .guarded) {read : PoolConnection}
    (hnumber : read.number = connection.number) (message : ClientMessage) :
    Stays P E network k connection (takeMessage k read message) := by
  unfold PoolNetwork.takeMessage
  split
  · exact .quiet hrest ⟨hguarded.symm, trivial, trivial⟩ hnumber
  · cases message with
    | hello protocolVersion networkId consensusFingerprint worker payout =>
        exact .quiet hrest ⟨hguarded.symm, trivial, trivial⟩ hnumber
    | submitShare jobId nonce => exact .rotates hrest hguarded.symm hnumber trivial fun _ => id

theorem stays_readMessage (hrest : (network.server.calls (k + 1)).atRest = true)
    (hguarded : connection.place.stage = .guarded)
    (h : network.readMessage io k connection = some move) :
    Stays P E network k connection move := by
  rw [readMessage] at h
  split at h
  · obtain rfl := Option.some.inj h
    exact .goto hrest ⟨hguarded.symm, trivial, trivial⟩
  · split at h
    · cases h
    · obtain rfl := Option.some.inj h
      refine stays_takeMessage hrest hguarded ?_ _
      rfl

theorem stays_noteJob {jobId : Bytes32} {nonce : UInt64}
    (hrest : (network.server.calls (k + 1)).atRest = true)
    (hguarded : connection.place.stage = .guarded)
    (h : network.noteJob k connection jobId nonce = some move) :
    Stays P E network k connection move := by
  refine stays_currentJob hrest hguarded (fun job => ?_) h
  refine ⟨hguarded.symm, rfl, trivial, ⟨rfl, rfl⟩, fun action haction => ?_, fun server hacts => ?_⟩
  · obtain rfl := Option.some.inj haction
    exact .share hrest
  · obtain ⟨_, hstep⟩ := Option.ite_none_right_eq_some.mp hacts
    obtain rfl := Option.some.inj hstep
    rw [PoolServer.goto_calls_self]
    rfl

theorem stays_process {jobId before : Bytes32} {nonce : UInt64}
    (hplace : connection.place = .processing jobId nonce before)
    (hfits : connection.Fits (network.server.calls (k + 1))) :
    Stays P E network k connection (network.process io k connection jobId before) := by
  have hguarded : connection.place.stage = .guarded := by rw [hplace]; rfl
  rw [process]
  split
  · next hcall => exact .goto (hcall ▸ rfl) ⟨hguarded.symm, trivial, trivial⟩
  · next hcall => exact .goto (hcall ▸ rfl) ⟨hguarded.symm, trivial, trivial⟩
  · next hok herror =>
    refine ⟨rfl, rfl, ?_, ⟨rfl, rfl⟩, fun action haction => ?_, fun server hacts => ?_⟩
    · show connection.place.Names
      rw [hplace]
      trivial
    · obtain rfl := Option.some.inj haction
      rw [PoolConnection.Fits, hplace] at hfits
      refine .onward (busy_of_processes hfits fun result hcall => ?_)
      cases result with
      | ok answer => exact hok answer hcall
      | error fault => exact herror fault hcall
    · rw [PoolConnection.Fits, hplace] at hfits ⊢
      exact PoolServer.runs_share hfits hacts

theorem stays_answer {jobId before : Bytes32} {result : PoolShareResult}
    (hrest : (network.server.calls (k + 1)).atRest = true)
    (hguarded : connection.place.stage = .guarded)
    (h : network.answer connection jobId before result = some move) :
    Stays P E network k connection move := by
  refine stays_currentJob hrest hguarded (fun job => ?_) h
  split
  · exact .goto hrest ⟨hguarded.symm, trivial, trivial⟩
  · exact .goto hrest ⟨hguarded.symm, trivial, trivial⟩

/-- What a section of a session does. -/
inductive Moves (P : Platform) (E : PowEvaluation) (network : PoolNetwork) (k : Nat)
    (connection : PoolConnection) : SessionMove → Prop
  | stays {move : SessionMove} (h : Stays P E network k connection move) :
      Moves P E network k connection move
  | takesNumber {worker : List UInt8} {payout : Bytes32}
      (hplace : connection.place = .numbering worker payout) :
      Moves P E network k connection (network.takeNumber connection worker payout)
  | registers {worker : List UInt8} {payout : Bytes32}
      (hplace : connection.place = .registering worker payout) :
      Moves P E network k connection (network.register connection worker payout)
  | disconnects (hplace : connection.place = .leaving) :
      Moves P E network k connection {
        connection := connection.goto .closing
        action := some (.disconnect connection.sessionId) }
  | ends (hplace : connection.place = .closing) :
      Moves P E network k connection {
        connection := connection.goto .closed, endsConnection := true }

theorem nextSection_moves (hfits : connection.Fits (network.server.calls (k + 1)))
    (h : network.nextSection P io k connection = some move) :
    Moves P E network k connection move := by
  have hrest : connection.place.Rests → (network.server.calls (k + 1)).atRest = true :=
    fun hrests => (connection.fits_iff_atRest hrests _).mp hfits
  rw [nextSection] at h
  cases hplace : connection.place with
  | hello =>
      rw [hplace] at h
      exact .stays (stays_readHello hplace (hrest (hplace ▸ trivial)) h)
  | numbering worker payout =>
      rw [hplace] at h
      obtain rfl := Option.some.inj h
      exact .takesNumber hplace
  | registering worker payout =>
      rw [hplace] at h
      obtain rfl := Option.some.inj h
      exact .registers hplace
  | acking =>
      rw [hplace] at h
      obtain rfl := Option.some.inj h
      exact .stays (.writes (hrest (hplace ▸ trivial)) (hplace ▸ ⟨rfl, trivial, trivial⟩)
        (hplace ▸ ⟨rfl, trivial, trivial⟩))
  | greeting =>
      rw [hplace] at h
      refine .stays (stays_currentJob (hrest (hplace ▸ trivial)) (hplace ▸ rfl) (fun job => ?_) h)
      exact .goto (hrest (hplace ▸ trivial)) (hplace ▸ ⟨rfl, trivial, trivial⟩)
  | opening job =>
      rw [hplace] at h
      obtain rfl := Option.some.inj h
      exact .stays (.writes (hrest (hplace ▸ trivial)) (hplace ▸ ⟨rfl, trivial, trivial⟩)
        (hplace ▸ ⟨rfl, trivial, trivial⟩))
  | turning =>
      rw [hplace] at h
      obtain rfl := Option.some.inj h
      rw [turn]
      split
      · exact .stays (.goto (hrest (hplace ▸ trivial)) (hplace ▸ ⟨rfl, trivial, trivial⟩))
      · exact .stays (.rotates (hrest (hplace ▸ trivial)) (hplace ▸ rfl) rfl trivial fun _ => id)
  | rotating =>
      rw [hplace] at h
      obtain rfl := Option.some.inj h
      have hself : ∀ call, connection.Fits call ↔ call.Rotates := by
        intro call
        rw [PoolConnection.Fits, hplace]
      exact .stays (stays_rotate (hplace ▸ rfl) (hplace ▸ trivial) hself hfits
        (hplace ▸ ⟨rfl, trivial, trivial⟩))
  | reading =>
      rw [hplace] at h
      exact .stays (stays_readMessage (hrest (hplace ▸ trivial)) (hplace ▸ rfl) h)
  | checking jobId nonce =>
      rw [hplace] at h
      obtain rfl := Option.some.inj h
      have hself : ∀ call, connection.Fits call ↔ call.Rotates := by
        intro call
        rw [PoolConnection.Fits, hplace]
      exact .stays (stays_rotate (hplace ▸ rfl) (hplace ▸ trivial) hself hfits
        (hplace ▸ ⟨rfl, trivial, trivial⟩))
  | noting jobId nonce =>
      rw [hplace] at h
      exact .stays (stays_noteJob (hrest (hplace ▸ trivial)) (hplace ▸ rfl) h)
  | processing jobId nonce before =>
      rw [hplace] at h
      obtain rfl := Option.some.inj h
      exact .stays (stays_process hplace hfits)
  | answering jobId before result =>
      rw [hplace] at h
      exact .stays (stays_answer (hrest (hplace ▸ trivial)) (hplace ▸ rfl) h)
  | renewing job result =>
      rw [hplace] at h
      obtain rfl := Option.some.inj h
      exact .stays (.writes (hrest (hplace ▸ trivial)) (hplace ▸ ⟨rfl, trivial, trivial⟩)
        (hplace ▸ ⟨rfl, trivial, trivial⟩))
  | replying result =>
      rw [hplace] at h
      obtain rfl := Option.some.inj h
      exact .stays (.writes (hrest (hplace ▸ trivial)) (hplace ▸ ⟨rfl, trivial, trivial⟩)
        (hplace ▸ ⟨rfl, trivial, trivial⟩))
  | rejecting code message =>
      rw [hplace] at h
      obtain rfl := Option.some.inj h
      exact .stays (.writes (hrest (hplace ▸ trivial)) (hplace ▸ ⟨rfl, trivial, trivial⟩)
        (hplace ▸ ⟨rfl, trivial, trivial⟩))
  | refusing code message =>
      rw [hplace] at h
      obtain rfl := Option.some.inj h
      exact .stays (.writes (hrest (hplace ▸ trivial)) (hplace ▸ ⟨rfl, trivial, trivial⟩)
        (hplace ▸ ⟨rfl, trivial, trivial⟩))
  | leaving =>
      rw [hplace] at h
      obtain rfl := Option.some.inj h
      exact .disconnects hplace
  | closing =>
      rw [hplace] at h
      obtain rfl := Option.some.inj h
      exact .ends hplace
  | closed =>
      rw [hplace] at h
      cases h

end PoolNetwork

end CommonFoundry
