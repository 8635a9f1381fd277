/-
# `CommonFoundry.Node.PoolSections` — what one section of a pool's thread can do

`CallStep` has one rule for each way on from a place: which place comes next, and what the
ledger's history gets.  Everything that is said of a thread over many sections follows from
these rules (`runSection_step`).

Two things are said here.  The credits of a call are those its result tells of, and a call
that fails has made one at most (`Call.Owes`).  A share that is refused as stale was submitted
for a job that is not the current one any more, and will not be again (`Overtaken`).
-/
import CommonFoundry.Node.PoolShares

namespace CommonFoundry

open Lib Lib.Outcome

/-! ## The credits of a thread -/

/-- A credit, as a result tells of it: the job, the nonce, and whether it was a block. -/
def creditEntry (credit : Nat × PoolShare × Bool) : Bytes32 × UInt64 × Bool :=
  (credit.2.1.jobId, credit.2.1.nonce, credit.2.2)

/-- A credit in the history, with the thread that made it. -/
def PoolEvent.creditMade : PoolEvent → Option (Nat × Bytes32 × UInt64 × Bool)
  | .credited t active share block => some (t, creditEntry (active, share, block))
  | _ => none

def creditsMade (history : List PoolEvent) : List (Nat × Bytes32 × UInt64 × Bool) :=
  history.filterMap PoolEvent.creditMade

/-- The credits that a thread has made, newest first. -/
def creditsBy (t : Nat) (history : List PoolEvent) : List (Bytes32 × UInt64 × Bool) :=
  ((creditsMade history).filter (·.1 = t)).map (·.2)

namespace PoolServer

variable {P : Platform} {E : PowEvaluation} {params : NetworkParams}
  {verifier : ConsensusPowVerifier} {server server' : PoolServer} {t : Nat} {env : Environment}

/-! ## The rules -/

/-- What the result of a share says about it. -/
structure Answers (share : PoolShare) (result : PoolShareResult) : Prop where
  jobId : result.jobId = share.jobId
  nonce : result.nonce = share.nonce
  sessionId : result.session.sessionId = share.sessionId

/-- The result of a share that is credited. -/
structure Accepts (share : PoolShare) (block : Bool) (result : PoolShareResult) : Prop where
  answers : Answers share result
  accepted : result.accepted = true
  block : result.blockAccepted = block
  code : result.code ≠ "stale_job"

/-- One section takes a thread from a place to the next, with these credits. -/
inductive CallStep (server server' : PoolServer) :
    Call → Call → List (Nat × PoolShare × Bool) → Prop
  | readStale {share : PoolShare}
      (h : ∀ job, server.jobs[server.state.current]? = some job → share.jobId ≠ job.wire.jobId) :
      CallStep server server' (.reading share) (.rejecting share "stale_job") []
  | readCurrent {share : PoolShare} :
      CallStep server server' (.reading share) (.evaluating share server.state.current) []
  | readFails {share : PoolShare} {fault : Fault PoolError} :
      CallStep server server' (.reading share) (.returned (.error fault)) []
  | evaluated {share : PoolShare} {active : Nat} {block : Option Block} :
      CallStep server server' (.evaluating share active) (.locking share active block) []
  | refused {share : PoolShare} {active : Nat} {code : String} (h : code ≠ "stale_job") :
      CallStep server server' (.evaluating share active) (.rejecting share code) []
  | evaluationFails {share : PoolShare} {active : Nat} {fault : Fault PoolError} :
      CallStep server server' (.evaluating share active) (.returned (.error fault)) []
  | overtaken {share : PoolShare} {active : Nat} {block : Option Block} {job : ActiveJob}
      (hjob : server.jobs[active]? = some job) (h : server.node.state.tip ≠ job.parent) :
      CallStep server server' (.locking share active block) (.rotating (.reject share)) []
  | locked {share : PoolShare} {active : Nat} {block : Option Block} :
      CallStep server server' (.locking share active block) (.reserving share active block) []
  | lockFails {share : PoolShare} {active : Nat} {block : Option Block}
      {fault : Fault PoolError} :
      CallStep server server' (.locking share active block) (.returned (.error fault)) []
  | unreserved {share : PoolShare} {active : Nat} {block : Option Block} {code : String}
      (h : code ≠ "stale_job") :
      CallStep server server' (.reserving share active block) (.rejecting share code) []
  | reserved {share : PoolShare} {active : Nat} {block : Option Block} :
      CallStep server server' (.reserving share active block) (.crediting share active false) []
  | reservedBlock {share : PoolShare} {active : Nat} {block : Option Block} {found : Block} :
      CallStep server server' (.reserving share active block) (.submitting share active found) []
  | submitted {share : PoolShare} {active : Nat} {block : Block} :
      CallStep server server' (.submitting share active block) (.crediting share active true) []
  | submissionFails {share : PoolShare} {active : Nat} {block : Block} {fault : Fault PoolError} :
      CallStep server server' (.submitting share active block) (.returned (.error fault)) []
  | credited {share : PoolShare} {active : Nat} {result : PoolShareResult}
      (h : Accepts share false result) :
      CallStep server server' (.crediting share active false) (.returned (.ok result))
        [(active, share, false)]
  | creditedBlock {share : PoolShare} {active : Nat} {result : PoolShareResult}
      (h : Accepts share true result) :
      CallStep server server' (.crediting share active true) (.rotating (.accept result))
        [(active, share, true)]
  | creditFails {share : PoolShare} {active : Nat} {block : Bool} {fault : Fault PoolError}
      {credits : List (Nat × PoolShare × Bool)}
      (h : credits = [] ∨ credits = [(active, share, block)]) :
      CallStep server server' (.crediting share active block) (.returned (.error fault)) credits
  | rejected {share : PoolShare} {code : String} {result : PoolShareResult}
      (hanswers : Answers share result) (haccepted : result.accepted = false)
      (hcode : result.code = code) :
      CallStep server server' (.rejecting share code) (.returned (.ok result)) []
  | rejectionFails {share : PoolShare} {code : String} {fault : Fault PoolError} :
      CallStep server server' (.rejecting share code) (.returned (.error fault)) []
  | rotating {next : AfterRotate} :
      CallStep server server' (.rotating next) (.installing next) []
  | rotationFails {next : AfterRotate} {fault : Fault PoolError} :
      CallStep server server' (.rotating next) (next.call (.error fault)) []
  | installed {next : AfterRotate} {changed : Bool}
      (h : ∀ job, server'.jobs[server'.state.current]? = some job →
        job.parent = server.node.state.tip) :
      CallStep server server' (.installing next) (next.call (.ok changed)) []
  | installationFails {next : AfterRotate} {fault : Fault PoolError} :
      CallStep server server' (.installing next) (next.call (.error fault)) []

/-- What a section leaves to the others. -/
structure SectionFrame (P : Platform) (server server' : PoolServer) (t : Nat) (call : Call)
    (credits : List (Nat × PoolShare × Bool)) : Prop where
  calls : server'.calls = Function.update server.calls t call
  credits : creditsMade server'.history =
    (credits.map fun c => (t, creditEntry c)) ++ creditsMade server.history
  history : server.history <:+ server'.history
  jobs : SameJobs server.jobs server'.jobs
  node : server'.node = server.node ∨
    ∃ append block now, server'.node = (server.node.submitBlock P append block now).2

/-- A section is one of the rules. -/
def SectionStep (P : Platform) (server server' : PoolServer) (t : Nat) : Prop :=
  ∃ call credits, CallStep server server' (server.calls t) call credits ∧
    SectionFrame P server server' t call credits

theorem SectionFrame.creditsBy_self {call : Call} {credits : List (Nat × PoolShare × Bool)}
    (h : SectionFrame P server server' t call credits) :
    creditsBy t server'.history = credits.map creditEntry ++ creditsBy t server.history := by
  have hown : (credits.map fun c => (t, creditEntry c)).filter (·.1 = t) =
      credits.map fun c => (t, creditEntry c) := by
    refine List.filter_eq_self.mpr fun entry hentry => ?_
    obtain ⟨c, _, rfl⟩ := List.mem_map.mp hentry
    exact decide_eq_true rfl
  rw [creditsBy, h.credits, List.filter_append, hown, List.map_append, List.map_map]
  rfl

theorem SectionFrame.creditsBy_of_ne {call : Call} {credits : List (Nat × PoolShare × Bool)}
    (h : SectionFrame P server server' t call credits) {u : Nat} (hne : u ≠ t) :
    creditsBy u server'.history = creditsBy u server.history := by
  have hothers : (credits.map fun c => (t, creditEntry c)).filter (·.1 = u) = [] := by
    refine List.filter_eq_nil_iff.mpr fun entry hentry hsame => ?_
    obtain ⟨c, _, rfl⟩ := List.mem_map.mp hentry
    exact hne (of_decide_eq_true hsame).symm
  rw [creditsBy, h.credits, List.filter_append, hothers, List.nil_append, creditsBy]

/-! ## Sections -/

theorem SectionFrame.goto (server : PoolServer) (t : Nat) (call : Call) :
    SectionFrame P server (server.goto t call) t call [] :=
  ⟨rfl, rfl, List.suffix_refl _, .refl _, .inl rfl⟩

theorem readCurrent_step {share : PoolShare} (hcall : server.calls t = .reading share)
    (hnext : server.readCurrent t share = some server') : SectionStep P server server' t := by
  rw [SectionStep, hcall]
  rw [readCurrent] at hnext
  split at hnext
  · obtain rfl := Option.some.inj hnext
    exact ⟨_, _, .readFails, .goto ..⟩
  · obtain ⟨active, hactive, rfl⟩ := Option.map_eq_some_iff.mp hnext
    split
    · next hstale =>
        refine ⟨_, _, .readStale fun job hjob => ?_, .goto ..⟩
        obtain rfl := Option.some.inj (hactive.symm.trans hjob)
        exact hstale
    · exact ⟨_, _, .readCurrent, .goto ..⟩

/-- The codes of an evaluation. -/
theorem evaluate_code {job : ActiveJob} {nonce : UInt64} {code : String}
    (h : job.evaluate E nonce = .ok (.error code)) : code ≠ "stale_job" := by
  simp only [ActiveJob.evaluate, bind_eq_ok] at h
  obtain ⟨evaluation, -, h⟩ := h
  split at h
  · obtain rfl := Except.error.inj (Except.ok.inj h)
    decide
  · split at h
    · obtain ⟨built, -, h⟩ := bind_eq_ok.mp h
      split at h
      · cases h
      · obtain rfl := Except.error.inj (Except.ok.inj h)
        decide
    · cases h

theorem evaluate_step {share : PoolShare} {active : Nat}
    (hcall : server.calls t = .evaluating share active)
    (hnext : server.evaluate E t share active = some server') : SectionStep P server server' t := by
  rw [SectionStep, hcall]
  obtain ⟨job, hjob, rfl⟩ := Option.map_eq_some_iff.mp hnext
  split
  · exact ⟨_, _, .evaluationFails, .goto ..⟩
  · next code hcode => exact ⟨_, _, .refused (evaluate_code hcode), .goto ..⟩
  · exact ⟨_, _, .evaluated, .goto ..⟩

theorem lockForShare_step {share : PoolShare} {active : Nat} {block : Option Block}
    (hcall : server.calls t = .locking share active block)
    (hnext : server.lockForShare t share active block = some server') :
    SectionStep P server server' t := by
  rw [SectionStep, hcall]
  rw [lockForShare] at hnext
  split at hnext
  · cases hnext
  · split at hnext
    · obtain rfl := Option.some.inj hnext
      exact ⟨_, _, .lockFails, .goto ..⟩
    · obtain ⟨job, hjob, rfl⟩ := Option.map_eq_some_iff.mp hnext
      split
      · next htip => exact ⟨_, _, .overtaken hjob htip, .goto ..⟩
      · exact ⟨_, _, .locked, .goto ..⟩

theorem reserve_step {share : PoolShare} {active : Nat} {block : Option Block}
    (hcall : server.calls t = .reserving share active block)
    (hnext : server.reserve t share active block = some server') :
    SectionStep P server server' t := by
  rw [SectionStep, hcall]
  obtain ⟨job, hjob, rfl⟩ := Option.map_eq_some_iff.mp hnext
  cases hanswer : reserveValidShare job share.nonce with
  | mk answer job' =>
      obtain ⟨hwire, hmining, _⟩ := reserveValidShare_eq hanswer
      have hframe : ∀ call : Call, SectionFrame P server
          (({ server with jobs := server.jobs.set active job' }.record
            (.reservation t active share.nonce server.node.state.tip answer)).goto t call)
          t call [] :=
        fun _ => ⟨rfl, rfl, List.suffix_cons _ _, .set hjob hwire hmining, .inl rfl⟩
      dsimp only
      split
      · exact ⟨_, _, .unreserved (by decide), hframe ..⟩
      · exact ⟨_, _, .unreserved (by decide), hframe ..⟩
      · exact ⟨_, _, .reserved, hframe ..⟩
      · exact ⟨_, _, .reservedBlock, hframe ..⟩

theorem submit_step {share : PoolShare} {active : Nat} {block : Block}
    (hcall : server.calls t = .submitting share active block) :
    SectionStep P server (server.submit P env t share active block) t := by
  rw [SectionStep, hcall, submit]
  split
  · exact ⟨_, _, .submissionFails, .goto ..⟩
  · next now hnow =>
      dsimp only
      split
      · exact ⟨_, _, .submissionFails, rfl, rfl, List.suffix_cons _ _, .refl _, .inr ⟨_, _, _, rfl⟩⟩
      · exact ⟨_, _, .submitted, rfl, rfl, List.suffix_cons _ _, .refl _, .inr ⟨_, _, _, rfl⟩⟩

/-- A snapshot of a session carries its number. -/
theorem sessionSnapshot_sessionId {sessionId : UInt64} {record : SessionRecord}
    {session : PoolSessionStats} (h : sessionSnapshot sessionId record = .ok session) :
    session.sessionId = sessionId := by
  simp only [sessionSnapshot, bind_eq_ok, pure_eq_ok] at h
  obtain ⟨_, -, rfl⟩ := h
  rfl

theorem credit_step {share : PoolShare} {active : Nat} {block : Bool}
    (hcall : server.calls t = .crediting share active block) :
    SectionStep P server (server.credit t share active block) t := by
  rw [SectionStep, hcall, credit]
  cases hsession : server.ledger.sessions.lookup share.sessionId with
  | none =>
      rw [PoolLedger.creditAcceptedShare_unknown hsession]
      exact ⟨_, _, .creditFails (.inl rfl), rfl, rfl, List.suffix_refl _, .refl _, .inl rfl⟩
  | some session =>
      cases hcredit : server.ledger.creditAcceptedShare share.sessionId block
          server.config.testCreditAtomsPerShare with
      | mk result ledger =>
          dsimp only
          cases result with
          | error fault =>
              exact ⟨_, _, .creditFails (.inr rfl), rfl, rfl, List.suffix_cons _ _, .refl _, .inl rfl⟩
          | ok stats =>
              have hid : stats.sessionId = share.sessionId := by
                rw [PoolLedger.creditAcceptedShare, hsession] at hcredit
                exact sessionSnapshot_sessionId (congrArg Prod.fst hcredit)
              cases block with
              | false =>
                  have hcode : "share_accepted" ≠ "stale_job" := by decide
                  exact ⟨_, _, .credited ⟨⟨rfl, rfl, hid⟩, rfl, rfl, hcode⟩, rfl, rfl,
                    List.suffix_cons _ _, .refl _, .inl rfl⟩
              | true =>
                  have hcode : "block_accepted" ≠ "stale_job" := by decide
                  exact ⟨_, _, .creditedBlock ⟨⟨rfl, rfl, hid⟩, rfl, rfl, hcode⟩, rfl, rfl,
                    List.suffix_cons _ _, .refl _, .inl rfl⟩

theorem reject_step {share : PoolShare} {code : String}
    (hcall : server.calls t = .rejecting share code) :
    SectionStep P server (server.reject t share code) t := by
  rw [SectionStep, hcall, reject]
  cases hcredit : server.ledger.creditRejectedShare share.sessionId with
  | mk result ledger =>
      dsimp only
      cases result with
      | error fault => exact ⟨_, _, .rejectionFails, rfl, rfl, List.suffix_refl _, .refl _, .inl rfl⟩
      | ok stats =>
          have hid : stats.sessionId = share.sessionId := by
            rw [PoolLedger.creditRejectedShare] at hcredit
            split at hcredit
            · cases hcredit
            · exact sessionSnapshot_sessionId (congrArg Prod.fst hcredit)
          exact ⟨_, _, .rejected ⟨rfl, rfl, hid⟩ rfl rfl, rfl, rfl, List.suffix_refl _, .refl _,
            .inl rfl⟩

theorem lockForRotation_step {next : AfterRotate} (hcall : server.calls t = .rotating next)
    (hnext : server.lockForRotation t next = some server') : SectionStep P server server' t := by
  rw [SectionStep, hcall]
  rw [lockForRotation] at hnext
  split at hnext
  · cases hnext
  · split at hnext
    · obtain rfl := Option.some.inj hnext
      exact ⟨_, _, .rotationFails, .goto ..⟩
    · obtain rfl := Option.some.inj hnext
      exact ⟨_, _, .rotating, .goto ..⟩

theorem install_step {next : AfterRotate} (hcall : server.calls t = .installing next)
    (hnext : server.install P env t next = some server') : SectionStep P server server' t := by
  rw [SectionStep, hcall]
  rw [install] at hnext
  split at hnext
  · obtain rfl := Option.some.inj hnext
    exact ⟨_, _, .installationFails, .goto ..⟩
  · obtain ⟨current, hcurrent, rfl⟩ := Option.map_eq_some_iff.mp hnext
    split
    · next htip =>
        refine ⟨_, _, .installed fun job hjob => ?_, .goto ..⟩
        obtain rfl := Option.some.inj (hcurrent.symm.trans hjob)
        exact htip
    · split
      · exact ⟨_, _, .installationFails, .goto ..⟩
      · next now hnow =>
          dsimp only
          split
          · exact ⟨_, _, .installationFails, rfl, rfl, List.suffix_refl _, .refl _, .inl rfl⟩
          · next mining hbuilt =>
              split
              · exact ⟨_, _, .installationFails, rfl, rfl, List.suffix_refl _, .refl _, .inl rfl⟩
              · refine ⟨_, _, .installed fun job hjob => ?_, rfl, rfl, List.suffix_cons _ _,
                  .append _ _, .inl rfl⟩
                obtain rfl := Option.some.inj (List.getElem?_concat_length.symm.trans hjob)
                exact buildMiningJob_parent (mapErr_eq_ok.mp hbuilt)

/-- Every section is one of the rules. -/
theorem runSection_step (hnext : server.runSection P E env t = some server') :
    SectionStep P server server' t := by
  rw [runSection] at hnext
  split at hnext
  · cases hnext
  · cases hnext
  · cases hnext
  · next hcall => exact readCurrent_step hcall hnext
  · next hcall => exact evaluate_step hcall hnext
  · next hcall => exact lockForShare_step hcall hnext
  · next hcall => exact reserve_step hcall hnext
  · next hcall =>
      obtain rfl := Option.some.inj hnext
      exact submit_step hcall
  · next hcall =>
      obtain rfl := Option.some.inj hnext
      exact credit_step hcall
  · next hcall =>
      obtain rfl := Option.some.inj hnext
      exact reject_step hcall
  · next hcall => exact lockForRotation_step hcall hnext
  · next hcall => exact install_step hcall hnext

end PoolServer

/-! ## What a call is about -/

/-- What a result tells of a credit: the job, the nonce, and whether it was a block. -/
def PoolShareResult.owed (result : PoolShareResult) : List (Bytes32 × UInt64 × Bool) :=
  if result.accepted then [(result.jobId, result.nonce, result.blockAccepted)] else []

/-- The call is a rotation, or has the result of one. -/
def Call.Rotates : Call → Prop
  | .rotating .done | .installing .done | .rotated _ => True
  | _ => False

/-- The call processes this share, or has its result. -/
def Call.Processes (share : PoolShare) : Call → Prop
  | .reading found => found = share
  | .evaluating found _ => found = share
  | .locking found _ _ => found = share
  | .reserving found _ _ => found = share
  | .submitting found _ _ => found = share
  | .crediting found _ _ => found = share
  | .rejecting found _ => found = share
  | .rotating (.reject found) => found = share
  | .installing (.reject found) => found = share
  | .rotating (.accept result) => PoolServer.Answers share result
  | .installing (.accept result) => PoolServer.Answers share result
  | .returned (.ok result) => PoolServer.Answers share result
  | .returned (.error _) => True
  | _ => False

/-- What was credited since the call of this share began. -/
def Call.Owes (share : PoolShare) : Call → List (Bytes32 × UInt64 × Bool) → Prop
  | .rotating (.accept result), credits => credits = result.owed
  | .installing (.accept result), credits => credits = result.owed
  | .returned (.ok result), credits => credits = result.owed
  | .returned (.error _), credits =>
      credits = [] ∨ ∃ block, credits = [(share.jobId, share.nonce, block)]
  | _, credits => credits = []

namespace PoolServer

variable {share : PoolShare} {call call' : Call} {credits : List (Nat × PoolShare × Bool)}

theorem eq_done_of_rotates {next : AfterRotate}
    (h : (Call.rotating next).Rotates ∨ (Call.installing next).Rotates) : next = .done := by
  cases next with
  | done => rfl
  | reject share => rcases h with h | h <;> cases h
  | accept result => rcases h with h | h <;> cases h

theorem CallStep.rotates (h : CallStep server server' call call' credits)
    (hcall : call.Rotates) : call'.Rotates ∧ credits = [] := by
  cases h with
  | rotating =>
      obtain rfl := eq_done_of_rotates (.inl hcall)
      exact ⟨trivial, rfl⟩
  | rotationFails =>
      obtain rfl := eq_done_of_rotates (.inl hcall)
      exact ⟨trivial, rfl⟩
  | installed =>
      obtain rfl := eq_done_of_rotates (.inr hcall)
      exact ⟨trivial, rfl⟩
  | installationFails =>
      obtain rfl := eq_done_of_rotates (.inr hcall)
      exact ⟨trivial, rfl⟩
  | _ => cases hcall

theorem Accepts.owed {block : Bool} {result : PoolShareResult}
    (h : Accepts share block result) : result.owed = [(share.jobId, share.nonce, block)] := by
  rw [PoolShareResult.owed, if_pos h.accepted, h.answers.jobId, h.answers.nonce, h.block]

/-- A result tells of the credit of its share, or of none. -/
theorem Answers.owed {result : PoolShareResult} (h : Answers share result) :
    result.owed = [] ∨ ∃ block, result.owed = [(share.jobId, share.nonce, block)] := by
  rw [PoolShareResult.owed]
  split
  · exact .inr ⟨result.blockAccepted, by rw [h.jobId, h.nonce]⟩
  · exact .inl rfl

/-- How a call goes on that processes a share. -/
structure ProcessesOn (share : PoolShare) (call call' : Call)
    (credits : List (Nat × PoolShare × Bool)) : Prop where
  processes : call'.Processes share
  own : ∀ c ∈ credits, c.2.1 = share
  owes : ∀ paid, call.Owes share paid → call'.Owes share (credits.map creditEntry ++ paid)

/-- Nothing is credited on the way, and nothing was before. -/
theorem ProcessesOn.quiet (hprocesses : call'.Processes share)
    (howes : ∀ paid, call.Owes share paid → call'.Owes share paid) :
    ProcessesOn share call call' [] :=
  ⟨hprocesses, fun _ hc => (by cases hc), howes⟩

theorem ProcessesOn.fails {next : AfterRotate} (fault : Fault PoolError)
    (hcall : (Call.rotating next).Processes share)
    (hsame : ∀ paid, call.Owes share paid → (Call.rotating next).Owes share paid) :
    ProcessesOn share call (next.call (.error fault)) [] := by
  cases next with
  | done => cases hcall
  | reject found => exact .quiet trivial fun paid hpaid => .inl (hsame paid hpaid)
  | accept result =>
      refine .quiet trivial fun paid hpaid => ?_
      obtain rfl : paid = result.owed := hsame paid hpaid
      exact Answers.owed hcall

theorem CallStep.processes (h : CallStep server server' call call' credits)
    (hcall : call.Processes share) : ProcessesOn share call call' credits := by
  cases h with
  | readStale _ => exact .quiet hcall fun _ hpaid => hpaid
  | readCurrent => exact .quiet hcall fun _ hpaid => hpaid
  | readFails => exact .quiet trivial fun _ hpaid => .inl hpaid
  | evaluated => exact .quiet hcall fun _ hpaid => hpaid
  | refused _ => exact .quiet hcall fun _ hpaid => hpaid
  | evaluationFails => exact .quiet trivial fun _ hpaid => .inl hpaid
  | overtaken _ _ => exact .quiet hcall fun _ hpaid => hpaid
  | locked => exact .quiet hcall fun _ hpaid => hpaid
  | lockFails => exact .quiet trivial fun _ hpaid => .inl hpaid
  | unreserved _ => exact .quiet hcall fun _ hpaid => hpaid
  | reserved => exact .quiet hcall fun _ hpaid => hpaid
  | reservedBlock => exact .quiet hcall fun _ hpaid => hpaid
  | submitted => exact .quiet hcall fun _ hpaid => hpaid
  | submissionFails => exact .quiet trivial fun _ hpaid => .inl hpaid
  | @credited found active result haccepts =>
      obtain rfl : found = share := hcall
      refine ⟨haccepts.answers, fun c hc => ?_, fun paid hpaid => ?_⟩
      · rw [List.mem_singleton.mp hc]
      · obtain rfl : paid = [] := hpaid
        exact haccepts.owed.symm
  | @creditedBlock found active result haccepts =>
      obtain rfl : found = share := hcall
      refine ⟨haccepts.answers, fun c hc => ?_, fun paid hpaid => ?_⟩
      · rw [List.mem_singleton.mp hc]
      · obtain rfl : paid = [] := hpaid
        exact haccepts.owed.symm
  | @creditFails found active block fault credits hcredits =>
      obtain rfl : found = share := hcall
      rcases hcredits with rfl | rfl
      · exact .quiet trivial fun _ hpaid => .inl hpaid
      · refine ⟨trivial, fun c hc => ?_, fun paid hpaid => ?_⟩
        · rw [List.mem_singleton.mp hc]
        · obtain rfl : paid = [] := hpaid
          exact .inr ⟨block, rfl⟩
  | @rejected found code result hanswers haccepted hcode =>
      obtain rfl : found = share := hcall
      refine .quiet hanswers fun paid hpaid => ?_
      show paid = result.owed
      rw [PoolShareResult.owed, haccepted]
      exact hpaid
  | rejectionFails => exact .quiet trivial fun _ hpaid => .inl hpaid
  | @rotating next =>
      cases next with
      | done => cases hcall
      | reject found => exact .quiet hcall fun _ hpaid => hpaid
      | accept result => exact .quiet hcall fun _ hpaid => hpaid
  | @rotationFails next fault => exact .fails fault hcall fun _ hpaid => hpaid
  | @installed next changed =>
      cases next with
      | done => cases hcall
      | reject found => exact .quiet hcall fun _ hpaid => hpaid
      | accept result => exact .quiet hcall fun _ hpaid => hpaid
  | @installationFails next fault =>
      cases next with
      | done => cases hcall
      | reject found => exact .fails fault hcall fun _ hpaid => hpaid
      | accept result => exact .fails fault hcall fun _ hpaid => hpaid

/-! ## Jobs that are past -/

/-- A job of this identifier was installed. -/
def Installed (server : PoolServer) (jobId : Bytes32) : Prop :=
  ∃ (i : Nat) (job : ActiveJob), server.jobs[i]? = some job ∧ jobId = job.wire.jobId

/-- The parent of a job of this identifier is not the tip any more. -/
def Abandoned (server : PoolServer) (jobId : Bytes32) : Prop :=
  ∃ (i : Nat) (job : ActiveJob), server.jobs[i]? = some job ∧ jobId = job.wire.jobId ∧
    server.node.Left job.parent

/-- A job of this identifier was installed before the current one. -/
def Overtaken (server : PoolServer) (jobId : Bytes32) : Prop :=
  ∃ (i : Nat) (job : ActiveJob), server.jobs[i]? = some job ∧ jobId = job.wire.jobId ∧
    i < server.state.current

/-- What is not undone by anything that happens later. -/
structure Advances (server server' : PoolServer) : Prop where
  jobs : SameJobs server.jobs server'.jobs
  left : ∀ id, server.node.Left id → server'.node.Left id
  history : server.history <:+ server'.history

theorem Advances.of_eq (hjobs : server'.jobs = server.jobs) (hnode : server'.node = server.node)
    (hhistory : server'.history = server.history) : Advances server server' :=
  ⟨hjobs ▸ .refl _, fun _ hleft => hnode ▸ hleft, hhistory ▸ List.suffix_refl _⟩

theorem Sound.advances (h : server.Sound P E params verifier) {action : PoolAction}
    (hstep : server.step P E action = some server') : Advances server server' := by
  obtain ⟨accepted, hrun⟩ := h.data.node
  cases action with
  | processShare t share =>
      obtain ⟨_, hstep⟩ := Option.ite_none_right_eq_some.mp hstep
      obtain rfl := Option.some.inj hstep
      exact .of_eq rfl rfl rfl
  | rotateIfTipChanged t =>
      obtain ⟨_, hstep⟩ := Option.ite_none_right_eq_some.mp hstep
      obtain rfl := Option.some.inj hstep
      exact .of_eq rfl rfl rfl
  | run t env =>
      obtain ⟨call, credits, _, hframe⟩ := runSection_step hstep
      refine ⟨hframe.jobs, ?_, hframe.history⟩
      rcases hframe.node with hnode | ⟨append, block, now, hnode⟩
      · exact fun _ hleft => hnode ▸ hleft
      · exact hnode ▸ (hrun.movesTo_submitBlock (Prod.mk.eta).symm).2.left
  | register sessionId worker payout =>
      obtain rfl := Option.some.inj hstep
      exact .of_eq rfl rfl rfl
  | disconnect sessionId =>
      obtain rfl := Option.some.inj hstep
      exact .of_eq rfl rfl rfl
  | submitBlock append block acceptedAt =>
      obtain ⟨_, hstep⟩ := Option.ite_none_right_eq_some.mp hstep
      obtain rfl := Option.some.inj hstep
      exact ⟨.refl _, (hrun.movesTo_submitBlock (Prod.mk.eta).symm).2.left, List.suffix_refl _⟩
  | submitTransaction transaction =>
      obtain ⟨_, hstep⟩ := Option.ite_none_right_eq_some.mp hstep
      obtain rfl := Option.some.inj hstep
      exact ⟨.refl _, (hrun.movesTo_submitTransaction (Prod.mk.eta).symm).2.left,
        List.suffix_refl _⟩

theorem Installed.advances {jobId : Bytes32} (h : server.Installed jobId)
    (hadvances : Advances server server') : server'.Installed jobId := by
  obtain ⟨i, job, hjob, hid⟩ := h
  obtain ⟨job', hjob', hwire, _⟩ := hadvances.jobs i job hjob
  exact ⟨i, job', hjob', hwire ▸ hid⟩

theorem Abandoned.advances {jobId : Bytes32} (h : server.Abandoned jobId)
    (hadvances : Advances server server') : server'.Abandoned jobId := by
  obtain ⟨i, job, hjob, hid, hleft⟩ := h
  obtain ⟨job', hjob', hwire, _⟩ := hadvances.jobs i job hjob
  refine ⟨i, job', hjob', hwire ▸ hid, hadvances.left _ ?_⟩
  rw [ActiveJob.parent, hwire]
  exact hleft

/-- The current job is the last one. -/
theorem Data.le_current (h : Data P E params verifier server) {i : Nat} {job : ActiveJob}
    (hjob : server.jobs[i]? = some job) : i ≤ server.state.current := by
  have hlt := (List.getElem?_eq_some_iff.mp hjob).1
  have hlast := h.current
  omega

theorem Data.current_le (h : Data P E params verifier server)
    (h' : Data P E params verifier server') (hadvances : Advances server server') :
    server.state.current ≤ server'.state.current := by
  have hlt : server.state.current < server.jobs.length := by
    have hlast := h.current
    omega
  obtain ⟨job', hjob', _⟩ := hadvances.jobs _ _ (List.getElem?_eq_getElem hlt)
  exact h'.le_current hjob'

theorem Overtaken.advances {jobId : Bytes32} (h : server.Overtaken jobId)
    (hdata : Data P E params verifier server) (hdata' : Data P E params verifier server')
    (hadvances : Advances server server') : server'.Overtaken jobId := by
  obtain ⟨i, job, hjob, hid, hlt⟩ := h
  obtain ⟨job', hjob', hwire, _⟩ := hadvances.jobs i job hjob
  exact ⟨i, job', hjob', hwire ▸ hid, hlt.trans_le (hdata.current_le hdata' hadvances)⟩

/-- Two jobs of one identifier are one, as long as no two hashes of identifiers collide. -/
theorem Data.eq_of_jobId (h : Data P E params verifier server)
    (hcollision : NoJobCollision P server.history) {i j : Nat} {job job' : ActiveJob}
    (hjob : server.jobs[i]? = some job) (hjob' : server.jobs[j]? = some job')
    (hid : job.wire.jobId = job'.wire.jobId) : i = j := by
  obtain ⟨startup, nonce, sequence, hmem, hhash⟩ := h.jobIds job (List.mem_of_getElem? hjob)
  obtain ⟨startup', nonce', sequence', hmem', hhash'⟩ :=
    h.jobIds job' (List.mem_of_getElem? hjob')
  rw [hhash, hhash'] at hid
  exact h.distinct i j job job' hjob hjob' (jobIdBytes_parent (hcollision _ _ hmem hmem' hid))

/-- The identifier of a job that was overtaken is not the current one's. -/
theorem Overtaken.ne_current {jobId : Bytes32} (h : server.Overtaken jobId)
    (hdata : Data P E params verifier server) (hcollision : NoJobCollision P server.history)
    {job : ActiveJob} (hjob : server.jobs[server.state.current]? = some job) :
    job.wire.jobId ≠ jobId := by
  intro heq
  obtain ⟨i, old, hold, hid, hlt⟩ := h
  exact hlt.ne (hdata.eq_of_jobId hcollision hold hjob (hid.symm.trans heq.symm))

end PoolServer

/-- What a call that refuses a share as stale has found. -/
def Call.FindsStale (server : PoolServer) : Call → Prop
  | .rejecting share code => code = "stale_job" → server.Overtaken share.jobId
  | .rotating (.reject share) => server.Abandoned share.jobId
  | .installing (.reject share) => server.Abandoned share.jobId
  | .rotating (.accept result) => result.code ≠ "stale_job"
  | .installing (.accept result) => result.code ≠ "stale_job"
  | .returned (.ok result) => result.code = "stale_job" → server.Overtaken result.jobId
  | _ => True

namespace PoolServer

variable {share : PoolShare} {call call' : Call} {credits : List (Nat × PoolShare × Bool)}

theorem findsStale_fails (next : AfterRotate) (fault : Fault PoolError) (server : PoolServer) :
    (next.call (.error fault)).FindsStale server := by
  cases next with
  | done => trivial
  | reject share => trivial
  | accept result => trivial

/-- What was found stays true. -/
theorem findsStale_advances (h : call.FindsStale server)
    (hdata : Data P E params verifier server) (hdata' : Data P E params verifier server')
    (hadvances : Advances server server') : call.FindsStale server' := by
  cases call with
  | rejecting share code => exact fun heq => Overtaken.advances (h heq) hdata hdata' hadvances
  | rotating next =>
      cases next with
      | done => trivial
      | reject share => exact Abandoned.advances h hadvances
      | accept result => exact h
  | installing next =>
      cases next with
      | done => trivial
      | reject share => exact Abandoned.advances h hadvances
      | accept result => exact h
  | returned result =>
      cases result with
      | ok result => exact fun heq => Overtaken.advances (h heq) hdata hdata' hadvances
      | error fault => trivial
  | _ => trivial

/-- A share is refused as stale only after another job has become the current one. -/
theorem CallStep.findsStale (h : CallStep server server' call call' credits)
    (hdata : Data P E params verifier server) (hdata' : Data P E params verifier server')
    (hadvances : Advances server server') (hknown : Known E server.jobs call)
    (hcall : call.Processes share) (hinstalled : server.Installed share.jobId)
    (hstale : call.FindsStale server) : call'.FindsStale server' := by
  cases h with
  | @readStale found hother =>
      obtain rfl : found = share := hcall
      intro _
      obtain ⟨i, job, hjob, hid⟩ := hinstalled
      have hne : i ≠ server.state.current := fun heq => hother job (heq ▸ hjob) hid
      have hlt : i < server.state.current := lt_of_le_of_ne (hdata.le_current hjob) hne
      exact Overtaken.advances ⟨i, job, hjob, hid, hlt⟩ hdata hdata' hadvances
  | refused hcode => exact fun heq => absurd heq hcode
  | @overtaken found active block job hjob htip =>
      obtain ⟨known, hknownJob, hid, _⟩ := hknown
      obtain rfl := Option.some.inj (hjob.symm.trans hknownJob)
      refine Abandoned.advances ⟨active, job, hjob, hid, ?_⟩ hadvances
      rcases hdata.parents active job hjob with hleft | ⟨_, hsame⟩
      · exact hleft
      · exact absurd hsame htip
  | unreserved hcode => exact fun heq => absurd heq hcode
  | credited haccepts => exact fun heq => absurd heq haccepts.code
  | creditedBlock haccepts => exact haccepts.code
  | @rejected found code result hanswers haccepted hcode =>
      intro heq
      rw [hanswers.jobId]
      exact Overtaken.advances (hstale (hcode.symm.trans heq)) hdata hdata' hadvances
  | @rotating next =>
      cases next with
      | done => trivial
      | reject found => exact Abandoned.advances hstale hadvances
      | accept result => exact hstale
  | rotationFails => exact findsStale_fails ..
  | @installed next changed hcurrent =>
      cases next with
      | done => trivial
      | accept result => exact fun heq => absurd heq hstale
      | reject found =>
          intro _
          obtain ⟨accepted, hrun⟩ := hdata.node
          obtain ⟨i, job, hjob, hid, hleft⟩ := hstale
          obtain ⟨job', hjob', hwire, _⟩ := hadvances.jobs i job hjob
          refine ⟨i, job', hjob', hwire ▸ hid, lt_of_le_of_ne (hdata'.le_current hjob') ?_⟩
          -- the current job is on the tip, which this one has left
          rintro rfl
          have hparent := hcurrent job' hjob'
          rw [ActiveJob.parent, hwire] at hparent
          exact hleft.ne_tip hrun hparent
  | installationFails => exact findsStale_fails ..
  | _ => trivial

end PoolServer

end CommonFoundry
