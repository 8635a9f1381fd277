/-
# `CommonFoundry.Lib.Word` — arithmetic on 64-bit words

Three ways to add two words.  *Checked* addition answers `none` when the sum
does not fit, *saturating* addition answers the largest word, and the *plain*
operator of a systems language does one of two things: a build with overflow
checks aborts, a build without them wraps.  Each operation has one lemma that
states its answer in `Nat`; the proofs above this module use those and leave
the words alone.

128-bit intermediates are `Nat` with an explicit bound.
-/
import Mathlib.Algebra.GroupWithZero.Nat
import CommonFoundry.Lib.Outcome

namespace Lib

theorem toNat_lt (a : UInt64) : a.toNat < 2 ^ 64 := a.toNat_lt

theorem toNat_add_of_lt {a b : UInt64} (h : a.toNat + b.toNat < 2 ^ 64) :
    (a + b).toNat = a.toNat + b.toNat := by
  rw [UInt64.toNat_add, Nat.mod_eq_of_lt h]

theorem toNat_sub_of_le {a b : UInt64} (h : b.toNat ≤ a.toNat) :
    (a - b).toNat = a.toNat - b.toNat :=
  UInt64.toNat_sub_of_le _ _ (UInt64.le_iff_toNat_le.mpr h)

/-! ## Checked operations -/

/-- `a + b` when it fits in 64 bits. -/
def checkedAdd (a b : UInt64) : Option UInt64 :=
  if a.toNat + b.toNat < 2 ^ 64 then some (a + b) else none

/-- `a - b` when it is not negative. -/
def checkedSub (a b : UInt64) : Option UInt64 :=
  if b.toNat ≤ a.toNat then some (a - b) else none

/-- `a + b`, or the largest word when it does not fit. -/
def saturatingAdd (a b : UInt64) : UInt64 :=
  if a.toNat + b.toNat < 2 ^ 64 then a + b else UInt64.ofNat (2 ^ 64 - 1)

theorem checkedAdd_eq_some {a b c : UInt64} :
    checkedAdd a b = some c ↔ c.toNat = a.toNat + b.toNat := by
  unfold checkedAdd
  split
  · next h =>
      rw [Option.some.injEq, ← UInt64.toNat_inj, toNat_add_of_lt h]
      exact eq_comm
  · next h =>
      refine ⟨fun hc => (by cases hc), fun hc => absurd (toNat_lt c) ?_⟩
      rw [hc]
      exact h

theorem checkedSub_eq_some {a b c : UInt64} :
    checkedSub a b = some c ↔ a.toNat = b.toNat + c.toNat := by
  unfold checkedSub
  split
  · next h =>
      rw [Option.some.injEq, ← UInt64.toNat_inj, toNat_sub_of_le h]
      omega
  · next h => exact ⟨fun hc => (by cases hc), fun hc => (by omega)⟩

theorem toNat_saturatingAdd {a b : UInt64} (h : a.toNat + b.toNat < 2 ^ 64) :
    (saturatingAdd a b).toNat = a.toNat + b.toNat := by
  unfold saturatingAdd
  rw [if_pos h, toNat_add_of_lt h]

/-- A saturating counter stops at the largest word. -/
theorem toNat_saturatingAdd_min (a b : UInt64) :
    (saturatingAdd a b).toNat = min (a.toNat + b.toNat) (2 ^ 64 - 1) := by
  unfold saturatingAdd
  split
  · next h =>
      rw [toNat_add_of_lt h]
      omega
  · rw [UInt64.toNat_ofNat', Nat.mod_eq_of_lt (by decide)]
    omega

/-- A 128-bit intermediate: the number itself, when it fits. -/
def checked128 (n : Nat) : Option Nat :=
  if n < 2 ^ 128 then some n else none

/-- Narrow an intermediate to 64 bits, when it fits. -/
def tryWord64 (n : Nat) : Option UInt64 :=
  if n < 2 ^ 64 then some (UInt64.ofNat n) else none

theorem checked128_eq_some {n m : Nat} : checked128 n = some m ↔ n = m ∧ n < 2 ^ 128 := by
  unfold checked128
  split
  · next h => exact ⟨fun heq => ⟨Option.some.inj heq, h⟩, fun ⟨heq, _⟩ => congrArg some heq⟩
  · next h => exact ⟨fun heq => (by cases heq), fun ⟨_, hlt⟩ => absurd hlt h⟩

theorem tryWord64_eq_some {n : Nat} {w : UInt64} : tryWord64 n = some w ↔ w.toNat = n := by
  unfold tryWord64
  split
  · next h =>
      rw [Option.some.injEq, ← UInt64.toNat_inj, UInt64.toNat_ofNat', Nat.mod_eq_of_lt h]
      exact eq_comm
  · next h =>
      refine ⟨fun hw => (by cases hw), fun hw => absurd (toNat_lt w) ?_⟩
      rw [hw]
      exact h

/-! ## The plain operator -/

/-- `a + b` as the plain operator computes it, in a build with or without
overflow checks. -/
def plainAdd {ε : Type} (overflowChecks : Bool) (a b : UInt64) : Outcome ε UInt64 :=
  if a.toNat + b.toNat < 2 ^ 64 then .ok (a + b)
  else if overflowChecks then .error .panic else .ok (a + b)

theorem plainAdd_of_lt {ε : Type} {checks : Bool} {a b : UInt64}
    (h : a.toNat + b.toNat < 2 ^ 64) : (plainAdd checks a b : Outcome ε UInt64) = .ok (a + b) :=
  if_pos h

/-- In a build without overflow checks the sum is the wrapped one. -/
theorem plainAdd_unchecked {ε : Type} {a b : UInt64} :
    (plainAdd false a b : Outcome ε UInt64) = .ok (a + b) := by
  unfold plainAdd
  split <;> rfl

theorem plainAdd_eq_ok {ε : Type} {checks : Bool} {a b c : UInt64} :
    (plainAdd checks a b : Outcome ε UInt64) = .ok c ↔
      c = a + b ∧ (checks = true → a.toNat + b.toNat < 2 ^ 64) := by
  unfold plainAdd
  split
  · next h => exact ⟨fun hc => by cases hc; exact ⟨rfl, fun _ => h⟩, fun hc => by rw [hc.1]⟩
  · next h =>
      cases checks with
      | true => exact ⟨fun hc => (by cases hc), fun hc => absurd (hc.2 rfl) h⟩
      | false =>
          exact ⟨fun hc => by cases hc; exact ⟨rfl, fun hf => by cases hf⟩, fun hc => by
            rw [hc.1]; rfl⟩

/-- `a - b` as the plain operator computes it. -/
def plainSub {ε : Type} (overflowChecks : Bool) (a b : UInt64) : Outcome ε UInt64 :=
  if b.toNat ≤ a.toNat then .ok (a - b)
  else if overflowChecks then .error .panic else .ok (a - b)

theorem plainSub_of_le {ε : Type} {checks : Bool} {a b : UInt64} (h : b.toNat ≤ a.toNat) :
    (plainSub checks a b : Outcome ε UInt64) = .ok (a - b) :=
  if_pos h

/-- `a * b` as the plain operator computes it. -/
def plainMul {ε : Type} (overflowChecks : Bool) (a b : UInt64) : Outcome ε UInt64 :=
  if a.toNat * b.toNat < 2 ^ 64 then .ok (a * b)
  else if overflowChecks then .error .panic else .ok (a * b)

theorem plainMul_of_lt {ε : Type} {checks : Bool} {a b : UInt64}
    (h : a.toNat * b.toNat < 2 ^ 64) : (plainMul checks a b : Outcome ε UInt64) = .ok (a * b) :=
  if_pos h

theorem toNat_mul_of_lt {a b : UInt64} (h : a.toNat * b.toNat < 2 ^ 64) :
    (a * b).toNat = a.toNat * b.toNat := by
  rw [UInt64.toNat_mul, Nat.mod_eq_of_lt h]

end Lib
