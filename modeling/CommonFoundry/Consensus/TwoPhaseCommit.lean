/-
# `CommonFoundry.Consensus.TwoPhaseCommit` — tokens, held and committed in any order

`validate_block` returns a token and leaves the chain state alone; the token is
committed later, by whoever holds it.  A session is any number of chain states of
any networks, and all the tokens that were ever returned on them: those of two
siblings on one tip, of forks of equal height, of a state that has moved on.

A token does not carry the state it was validated against, only eight facts of it.
Among these the tip and the height are enough (`ChainRun.agree`): a block
identifier commits to the identifier of the parent, so two states with one tip and
one height have accepted the same blocks.  Hence `two_phase_commit`: a commit
succeeds exactly on the state of the token, and does there what
`validate_and_apply` does.
-/
import CommonFoundry.Consensus.ChainRun
import CommonFoundry.Lib.Schedule

namespace CommonFoundry

open Lib Lib.Outcome

variable {P : Platform}

/-! ## Validation and the clock -/

/-- The timestamp of a block is not too far ahead of a clock. -/
def Timely (params : NetworkParams) (now : UInt64) (block : Block) : Prop :=
  ∃ maximum, checkedAdd now params.maxFutureOffsetSecs = some maximum ∧
    ¬block.challenge.timestamp > maximum

/-- A block that is not from the future is timely. -/
theorem timely_of_le {params : NetworkParams} {now : UInt64} {block : Block}
    (hfits : now.toNat + params.maxFutureOffsetSecs.toNat < 2 ^ 64)
    (hle : block.challenge.timestamp ≤ now) : Timely params now block := by
  have hsum : (now + params.maxFutureOffsetSecs).toNat =
      now.toNat + params.maxFutureOffsetSecs.toNat := toNat_add_of_lt hfits
  refine ⟨now + params.maxFutureOffsetSecs, checkedAdd_eq_some.mpr hsum, ?_⟩
  have hle := UInt64.le_iff_toNat_le.mp hle
  rw [gt_iff_lt, UInt64.lt_iff_toNat_lt]
  omega

/-- A valid block is valid at any time that its timestamp allows, with the same
token. -/
theorem validateBlock_timely {state : ChainState} {block : Block}
    {context context' : BlockValidationContext} {validated : ValidatedBlock}
    (h : state.validateBlock P block context = .ok validated)
    (htimely : Timely state.params context'.nowUnixSeconds block) :
    state.validateBlock P block context' = .ok validated := by
  obtain ⟨maximum, hmaximum, hle⟩ := htimely
  simp only [ChainState.validateBlock, bind_eq_ok, require_eq_ok, okOr_eq_ok, pure_eq_ok] at h ⊢
  obtain ⟨_, hversion, _, hnetwork, _, hheight, next, hnext, mature, hmature, _, hprevious, _,
    hmedian, _, _, _, _, target, htarget, _, htargetEq, fees, hdelta, rfl⟩ := h
  exact ⟨(), hversion, (), hnetwork, (), hheight, next, hnext, mature, hmature, (), hprevious, (),
    hmedian, maximum, hmaximum, (), hle, target, htarget, (), htargetEq, fees, hdelta, rfl⟩

theorem validateBlock_isTimely {state : ChainState} {block : Block}
    {context : BlockValidationContext} {validated : ValidatedBlock}
    (h : state.validateBlock P block context = .ok validated) :
    Timely state.params context.nowUnixSeconds block := by
  simp only [ChainState.validateBlock, bind_eq_ok, require_eq_ok, okOr_eq_ok] at h
  obtain ⟨_, _, _, _, _, _, _, _, _, _, _, _, _, _, maximum, hmaximum, _, hle, _⟩ := h
  exact ⟨maximum, hmaximum, hle⟩

/-- The token does not depend on the clock. -/
theorem validateBlock_unique {state : ChainState} {block : Block}
    {context context' : BlockValidationContext} {validated validated' : ValidatedBlock}
    (h : state.validateBlock P block context = .ok validated)
    (h' : state.validateBlock P block context' = .ok validated') : validated = validated' :=
  Except.ok.inj ((validateBlock_timely h (validateBlock_isTimely h')).symm.trans h')

/-! ## One tip, one state -/

section

variable {params : NetworkParams} {verifier : ConsensusPowVerifier}

/-- Two runs that end at the same tip and height end in the same state. -/
theorem ChainRun.agree {accepted accepted' : List AcceptedBlock} {state state' : ChainState}
    (h : ChainRun P params verifier accepted state)
    (h' : ChainRun P params verifier accepted' state')
    (hsame : ∀ a ∈ accepted, ∀ b ∈ accepted', a.block.blockId P = b.block.blockId P →
      a.block = b.block)
    (htip : state.tip = state'.tip) (hheight : state.nextHeight = state'.nextHeight) :
    state = state' := by
  have hlength : accepted.length = accepted'.length := by
    have hlast := h.nextHeight
    rw [hheight, h'.nextHeight] at hlast
    omega
  clear hheight
  induction h generalizing accepted' state' with
  | new hnew =>
      cases h' with
      | new hnew' => exact Except.ok.inj (hnew.symm.trans hnew')
      | step _ _ =>
          rw [List.length_append, List.length_singleton] at hlength
          exact absurd hlength.symm (Nat.succ_ne_zero _)
  | @step accepted base _ block context fees _ happly ih =>
      cases h' with
      | new _ =>
          rw [List.length_append, List.length_singleton] at hlength
          exact absurd hlength (Nat.succ_ne_zero _)
      | @step accepted' base' _ block' context' fees' hrun' happly' =>
          obtain ⟨validated, hvalid, -, rfl⟩ := validateAndApply_eq_ok.mp happly
          obtain ⟨validated', hvalid', -, rfl⟩ := validateAndApply_eq_ok.mp happly'
          have hvalidated := validateBlock_validated hvalid
          have hvalidated' := validateBlock_validated hvalid'
          have hid : block.blockId P = block'.blockId P := by
            rw [← hvalidated.nextTip, ← hvalidated'.nextTip]
            exact htip
          have hblock : block = block' :=
            hsame _ (List.mem_append_right _ List.mem_cons_self) _
              (List.mem_append_right _ List.mem_cons_self) hid
          subst hblock
          have hbase : base = base' := by
            refine ih hrun' ?_ ?_ ?_
            · intro a ha b hb
              exact hsame a (List.mem_append_left _ ha) b (List.mem_append_left _ hb)
            · exact hvalidated.previousBlock.symm.trans hvalidated'.previousBlock
            · rw [List.length_append, List.length_append] at hlength
              exact Nat.add_right_cancel hlength
          subst hbase
          rw [validateBlock_unique hvalid hvalid']

end

/-! ## Sessions -/

/-- A token, with the call that returned it and the state it was called on. -/
structure Token where
  base : ChainState
  block : Block
  context : BlockValidationContext
  validated : ValidatedBlock

/-- Chain states, and every token that was returned on one of them. -/
structure Session where
  chains : Nat → ChainState
  tokens : List Token

inductive SessionEvent where
  | validate (chain : Nat) (block : Block) (context : BlockValidationContext)
  /-- any token, committed to any chain state -/
  | commit (chain token : Nat)

namespace Session

/-- A call of `commit_validated`: what it returns, and what it leaves. -/
def commit (session : Session) (chain : Nat) (validated : ValidatedBlock) :
    Outcome ChainError UInt64 × Session :=
  match (session.chains chain).commitValidated validated with
  | .ok (fees, state) =>
      (.ok fees, { session with chains := Function.update session.chains chain state })
  | .error fault => (.error fault, session)

def step (P : Platform) : SessionEvent → Session → Option Session
  | .validate chain block context, session =>
      match (session.chains chain).validateBlock P block context with
      | .ok validated =>
          some { session with
            tokens := session.tokens ++ [⟨session.chains chain, block, context, validated⟩] }
      | .error _ => some session
  | .commit chain token, session =>
      (session.tokens[token]?).map fun token => (session.commit chain token.validated).2

/-- The sessions that some interleaving leads to, from fresh chain states.  The
verifier of a network is the one for its proof-of-work parameters. -/
def Reachable (P : Platform) (networks : Nat → NetworkParams)
    (verifiers : PowParameters → ConsensusPowVerifier) (session : Session) : Prop :=
  ∃ fresh events, (∀ chain, ChainState.new P (networks chain) (verifiers (networks chain).pow) =
      .ok (fresh chain)) ∧
    runEvents (step P) events { chains := fresh, tokens := [] } = some session

/-- Among the blocks that were validated, an identifier names one block. -/
def SameBlocks (P : Platform) (session : Session) : Prop :=
  ∀ a ∈ session.tokens, ∀ b ∈ session.tokens, a.block.blockId P = b.block.blockId P →
    a.block = b.block

variable {networks : Nat → NetworkParams} {verifiers : PowParameters → ConsensusPowVerifier}
  {session : Session}

/-- A state that was reached by blocks of the session. -/
def Known (P : Platform) (verifiers : PowParameters → ConsensusPowVerifier) (session : Session)
    (state : ChainState) : Prop :=
  ∃ accepted, ChainRun P state.params (verifiers state.params.pow) accepted state ∧
    ∀ a ∈ accepted, ∃ token ∈ session.tokens, token.block = a.block

/-- The invariant of a session. -/
structure Sound (P : Platform) (verifiers : PowParameters → ConsensusPowVerifier)
    (session : Session) : Prop where
  chains : ∀ chain, session.Known P verifiers (session.chains chain)
  bases : ∀ token ∈ session.tokens, session.Known P verifiers token.base
  tokens : ∀ token ∈ session.tokens,
    token.base.validateBlock P token.block token.context = .ok token.validated

/-- A token is current on one state only. -/
theorem Sound.base_eq (h : session.Sound P verifiers) (hsame : session.SameBlocks P)
    {token : Token} (hmem : token ∈ session.tokens) {chain : Nat}
    (hcurrent : (session.chains chain).Current token.validated) :
    token.base = session.chains chain := by
  obtain ⟨hparams, htip, hheight, -⟩ := (validateBlock_validated (h.tokens token hmem)).current
  obtain ⟨hparams', htip', hheight', -⟩ := hcurrent
  obtain ⟨accepted, hrun, hknown⟩ := h.bases token hmem
  obtain ⟨accepted', hrun', hknown'⟩ := h.chains chain
  rw [hparams] at hrun
  rw [hparams'] at hrun'
  refine hrun.agree hrun' ?_ (htip.trans htip'.symm) (hheight.trans hheight'.symm)
  intro a ha b hb hid
  obtain ⟨first, hfirst, hblock⟩ := hknown a ha
  obtain ⟨second, hsecond, hblock'⟩ := hknown' b hb
  rw [← hblock, ← hblock'] at hid ⊢
  exact hsame first hfirst second hsecond hid

theorem Known.mono {tokens : List Token} {chains : Nat → ChainState} {state : ChainState}
    (h : session.Known P verifiers state) (hsub : session.tokens ⊆ tokens) :
    Known P verifiers { chains, tokens } state := by
  obtain ⟨accepted, hrun, hknown⟩ := h
  refine ⟨accepted, hrun, ?_⟩
  intro a ha
  obtain ⟨token, hmem, hblock⟩ := hknown a ha
  exact ⟨token, hsub hmem, hblock⟩

/-- A current token, committed, is its block applied. -/
theorem Sound.apply (h : session.Sound P verifiers) (hsame : session.SameBlocks P)
    {token : Token} (hmem : token ∈ session.tokens) {chain : Nat} {fees : UInt64}
    {state : ChainState}
    (hcommit : (session.chains chain).commitValidated token.validated = .ok (fees, state)) :
    token.base = session.chains chain ∧
      (session.chains chain).validateAndApply P token.block token.context = .ok (fees, state) := by
  have hcurrent : (session.chains chain).Current token.validated := by
    simp only [ChainState.commitValidated, bind_eq_ok, require_eq_ok] at hcommit
    obtain ⟨_, hcurrent, _⟩ := hcommit
    exact hcurrent
  have hbase := h.base_eq hsame hmem hcurrent
  refine ⟨hbase, ?_⟩
  rw [ChainState.validateAndApply, ← hbase, h.tokens token hmem, ok_bind, hbase]
  exact hcommit

/-- A known state with a token's block applied is known. -/
theorem Known.step {chains : Nat → ChainState} {state next : ChainState} {token : Token}
    {fees : UInt64} (h : session.Known P verifiers state) (hmem : token ∈ session.tokens)
    (happly : state.validateAndApply P token.block token.context = .ok (fees, next)) :
    Known P verifiers { session with chains } next := by
  obtain ⟨accepted, hrun, hknown⟩ := h
  have hnext := hrun.step happly
  have hparams : next.params = state.params := hnext.constant.1
  refine ⟨accepted ++ [⟨token.block, token.context, fees⟩], ?_, ?_⟩
  · rw [hparams]
    exact hnext
  · intro a ha
    rcases List.mem_append.mp ha with ha | ha
    · exact hknown a ha
    · rw [List.mem_singleton.mp ha]
      exact ⟨token, hmem, rfl⟩

/-- One more token, returned on a chain state of the session. -/
theorem Sound.validate (h : session.Sound P verifiers) {chain : Nat} {block : Block}
    {context : BlockValidationContext} {validated : ValidatedBlock}
    (hvalid : (session.chains chain).validateBlock P block context = .ok validated) :
    Sound P verifiers { session with
      tokens := session.tokens ++ [⟨session.chains chain, block, context, validated⟩] } := by
  have hsub : session.tokens ⊆
      session.tokens ++ [⟨session.chains chain, block, context, validated⟩] :=
    List.subset_append_left _ _
  refine ⟨fun other => (h.chains other).mono hsub, ?_, ?_⟩
  · intro token hmem
    rcases List.mem_append.mp hmem with hmem | hmem
    · exact (h.bases token hmem).mono hsub
    · rw [List.mem_singleton.mp hmem]
      exact (h.chains chain).mono hsub
  · intro token hmem
    rcases List.mem_append.mp hmem with hmem | hmem
    · exact h.tokens token hmem
    · rw [List.mem_singleton.mp hmem]
      exact hvalid

/-- One chain state, moved by a token that is committed to it. -/
theorem Sound.commit (h : session.Sound P verifiers) (hsame : session.SameBlocks P)
    {token : Token} (hmem : token ∈ session.tokens) {chain : Nat} {fees : UInt64}
    {state : ChainState}
    (hcommit : (session.chains chain).commitValidated token.validated = .ok (fees, state)) :
    Sound P verifiers { session with chains := Function.update session.chains chain state } := by
  obtain ⟨-, happly⟩ := h.apply hsame hmem hcommit
  refine ⟨?_, fun other hother => (h.bases other hother).mono (List.Subset.refl _), h.tokens⟩
  intro other
  by_cases heq : other = chain
  · subst heq
    simp only [Function.update_self]
    exact (h.chains other).step hmem happly
  · simp only [Function.update_of_ne heq]
    exact (h.chains other).mono (List.Subset.refl _)

/-- Every call keeps the invariant. -/
theorem Sound.step {event : SessionEvent} {after : Session} (h : session.Sound P verifiers)
    (hsame : after.SameBlocks P) (hstep : Session.step P event session = some after) :
    after.Sound P verifiers := by
  cases event with
  | validate chain block context =>
      simp only [Session.step] at hstep
      split at hstep
      · next hvalid =>
          cases hstep
          exact h.validate hvalid
      · cases hstep
        exact h
  | commit chain index =>
      obtain ⟨token, hindex, rfl⟩ := Option.map_eq_some_iff.mp hstep
      have hmem := List.mem_of_getElem? hindex
      simp only [Session.commit] at hsame ⊢
      cases hcommit : (session.chains chain).commitValidated token.validated with
      | error fault => exact h
      | ok result =>
          rw [hcommit] at hsame
          exact h.commit hsame hmem hcommit

theorem step_tokens {event : SessionEvent} {after : Session}
    (hstep : Session.step P event session = some after) : session.tokens ⊆ after.tokens := by
  cases event with
  | validate chain block context =>
      simp only [Session.step] at hstep
      split at hstep
      · cases hstep
        exact List.subset_append_left _ _
      · cases hstep
        exact List.Subset.refl _
  | commit chain index =>
      obtain ⟨token, -, rfl⟩ := Option.map_eq_some_iff.mp hstep
      simp only [Session.commit]
      split <;> exact List.Subset.refl _

theorem Reachable.sound (h : session.Reachable P networks verifiers)
    (hsame : session.SameBlocks P) : session.Sound P verifiers := by
  obtain ⟨fresh, events, hfresh, hrun⟩ := h
  -- tokens are never forgotten, so what holds of all of them held of fewer before
  have hstep : ∀ {event} {state after : Session}, (state.SameBlocks P → state.Sound P verifiers) →
      step P event state = some after → after.SameBlocks P → after.Sound P verifiers := by
    intro event state after hstate hstep hafter
    refine (hstate ?_).step hafter hstep
    intro a ha b hb
    exact hafter a (step_tokens hstep ha) b (step_tokens hstep hb)
  refine runEvents_inv _ hstep ?_ hrun hsame
  intro _
  refine ⟨?_, fun _ hmem => (by cases hmem), fun _ hmem => (by cases hmem)⟩
  intro chain
  have hnew := hfresh chain
  obtain ⟨-, -, hparams, -⟩ := new_eq_ok hnew
  refine ⟨[], ?_, fun _ hmem => (by cases hmem)⟩
  rw [hparams]
  exact .new hnew

/-! ## The theorem -/

/-- Any token, committed to any chain state of a session: it succeeds exactly on
the state it was validated against, with the result and the state of
`validate_and_apply`; otherwise it is stale, and nothing changes. -/
theorem two_phase_commit (h : session.Reachable P networks verifiers)
    (hsame : session.SameBlocks P) {token : Token} (hmem : token ∈ session.tokens)
    (chain : Nat) :
    (∀ fees after, session.commit chain token.validated = (.ok fees, after) →
      ∃ state, (session.chains chain).validateAndApply P token.block token.context =
          .ok (fees, state) ∧
        after = { session with chains := Function.update session.chains chain state }) ∧
    (∀ fault after, session.commit chain token.validated = (.error fault, after) →
      fault = .err .staleValidatedBlock ∧ after = session) ∧
    ((∃ fees after, session.commit chain token.validated = (.ok fees, after)) ↔
      token.base = session.chains chain) := by
  have hsound := h.sound hsame
  simp only [Session.commit]
  cases hcommit : (session.chains chain).commitValidated token.validated with
  | ok result =>
      obtain ⟨fees, state⟩ := result
      obtain ⟨hbase, happly⟩ := hsound.apply hsame hmem hcommit
      refine ⟨?_, nofun, fun _ => hbase, fun _ => ⟨_, _, rfl⟩⟩
      intro fees' after heq
      cases heq
      exact ⟨state, happly, rfl⟩
  | error fault =>
      refine ⟨nofun, ?_, nofun, ?_⟩
      · intro fault' after heq
        cases heq
        refine ⟨?_, rfl⟩
        simp only [ChainState.commitValidated, require] at hcommit
        split at hcommit
        · cases hcommit
        · cases hcommit
          rfl
      · intro hbase
        have hvalid := hsound.tokens token hmem
        rw [hbase] at hvalid
        rw [commitValidated_validated hvalid] at hcommit
        cases hcommit

/-- Two tokens for one block: the first is committed, and the second is stale. -/
theorem two_phase_commit_sample : ∃ (session : Session) (token : Token),
    session.Reachable samplePlatform (fun _ => sampleParams) (fun _ => sampleVerifier) ∧
      token ∈ session.tokens ∧ token.block = sampleBlock₁ ∧
      session.commit 0 token.validated = (.error (.err .staleValidatedBlock), session) := by
  obtain ⟨validated, hvalid, -, -⟩ := validateAndApply_eq_ok.mp sampleBlock₁_applied
  have hcommit := commitValidated_validated hvalid
  let token : Token := ⟨sampleGenesis, sampleBlock₁, ⟨1060⟩, validated⟩
  let session : Session := {
    chains := Function.update (fun _ => sampleGenesis) 0 (sampleGenesis.advance validated)
    tokens := [token, token] }
  have hreachable : session.Reachable samplePlatform (fun _ => sampleParams)
      (fun _ => sampleVerifier) := by
    refine ⟨fun _ => sampleGenesis, [.validate 0 sampleBlock₁ ⟨1060⟩,
      .validate 0 sampleBlock₁ ⟨1060⟩, .commit 0 0], fun _ => sampleGenesis_new, ?_⟩
    have hfirst : step samplePlatform (.validate 0 sampleBlock₁ ⟨1060⟩)
        { chains := fun _ => sampleGenesis, tokens := [] } =
          some { chains := fun _ => sampleGenesis, tokens := [token] } := by
      simp only [step, hvalid]
      rfl
    have hsecond : step samplePlatform (.validate 0 sampleBlock₁ ⟨1060⟩)
        { chains := fun _ => sampleGenesis, tokens := [token] } =
          some { chains := fun _ => sampleGenesis, tokens := [token, token] } := by
      simp only [step, hvalid]
      rfl
    have hthird : step samplePlatform (.commit 0 0)
        { chains := fun _ => sampleGenesis, tokens := [token, token] } = some session := by
      simp only [step, Session.commit, List.getElem?_cons_zero, Option.map_some, token, hcommit]
      rfl
    exact runEvents_cons.mpr ⟨_, hfirst, runEvents_cons.mpr ⟨_, hsecond,
      runEvents_cons.mpr ⟨_, hthird, rfl⟩⟩⟩
  have hsame : session.SameBlocks samplePlatform := by
    have hblock : ∀ a ∈ session.tokens, a.block = sampleBlock₁ := by
      intro a ha
      rcases List.mem_cons.mp ha with rfl | ha
      · rfl
      · rw [List.mem_singleton.mp ha]
    intro a ha b hb _
    rw [hblock a ha, hblock b hb]
  have hmem : token ∈ session.tokens := List.mem_cons_self
  obtain ⟨-, hstale, hbase⟩ := two_phase_commit hreachable hsame hmem 0
  refine ⟨session, token, hreachable, hmem, rfl, ?_⟩
  cases hresult : session.commit 0 token.validated with
  | mk result after =>
      cases result with
      | error fault =>
          obtain ⟨rfl, rfl⟩ := hstale fault after hresult
          rfl
      | ok fees =>
          -- the state has moved on to height 2
          have heq := hbase.mp ⟨fees, after, hresult⟩
          have hheight := congrArg (fun state => state.nextHeight.toNat) heq
          have hnext := (validateBlock_validated hvalid).nextHeight
          have hone : sampleGenesis.nextHeight.toNat = 1 := rfl
          have hleft : token.base.nextHeight.toNat = sampleGenesis.nextHeight.toNat := rfl
          have hright : (session.chains 0).nextHeight.toNat = validated.nextHeight.toNat := rfl
          simp only [hleft, hright] at hheight
          omega

end Session

end CommonFoundry
