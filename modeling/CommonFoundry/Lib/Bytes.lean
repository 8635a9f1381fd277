/-
# `CommonFoundry.Lib.Bytes` — byte strings of a fixed length, and words as bytes

`Bytes n` is an array of exactly `n` bytes: the length is in the type, so a
32-byte digest of 31 bytes cannot be built.

The little-endian byte string of a word and its inverse are both derived from
the one pair `toLe`/`ofLe` on `Nat`, whose two round trips are proved once;
big-endian values (`ofBe`/`toBe`) are the little-endian ones read backwards.
Byte strings are ordered lexicographically, as arrays of bytes are.
-/
import Mathlib.Algebra.GroupWithZero.Nat
import Mathlib.Data.List.Basic
import Mathlib.Data.List.Lex
import Mathlib.Order.Lattice
import Mathlib.Tactic.Common

namespace Lib

instance instLinearOrderUInt8 : LinearOrder UInt8 where
  le_refl := UInt8.le_refl
  le_trans _ _ _ := UInt8.le_trans
  le_antisymm _ _ := UInt8.le_antisymm
  le_total := UInt8.le_total
  lt_iff_le_not_ge a b := by
    rw [UInt8.not_le]
    exact ⟨fun h => ⟨UInt8.le_of_lt h, h⟩, fun h => h.2⟩
  toDecidableLE := inferInstance
  toDecidableLT := inferInstance

/-- A string of exactly `n` bytes. -/
abbrev Bytes (n : Nat) := { bs : List UInt8 // bs.length = n }

namespace Bytes

/-- The string of `n` copies of `b`. -/
def replicate (n : Nat) (b : UInt8) : Bytes n := ⟨List.replicate n b, List.length_replicate⟩

/-- The all-zero string. -/
def zero (n : Nat) : Bytes n := replicate n 0

end Bytes

/-! ## Little-endian strings -/

/-- The `w` low bytes of `n`, least significant first. -/
def toLe : Nat → Nat → List UInt8
  | 0, _ => []
  | w + 1, n => UInt8.ofNat n :: toLe w (n / 256)

/-- The number whose bytes, least significant first, are `bs`. -/
def ofLe : List UInt8 → Nat
  | [] => 0
  | b :: bs => b.toNat + 256 * ofLe bs

@[simp] theorem length_toLe : ∀ (w n : Nat), (toLe w n).length = w
  | 0, _ => rfl
  | w + 1, n => by rw [toLe, List.length_cons, length_toLe w]

theorem ofLe_toLe : ∀ (w n : Nat), ofLe (toLe w n) = n % 256 ^ w
  | 0, n => by rw [toLe, ofLe, Nat.pow_zero, Nat.mod_one]
  | w + 1, n => by
      have hpow : 256 ^ (w + 1) = 256 * 256 ^ w := by rw [Nat.pow_succ, Nat.mul_comm]
      rw [toLe, ofLe, ofLe_toLe w, UInt8.toNat_ofNat', hpow, Nat.mod_mul]

theorem ofLe_lt : ∀ bs : List UInt8, ofLe bs < 256 ^ bs.length
  | [] => by simp [ofLe]
  | b :: bs => by
      have hb : b.toNat < 256 := b.toNat_lt
      have hbs := ofLe_lt bs
      rw [ofLe, List.length_cons, Nat.pow_succ]
      omega

theorem toLe_ofLe : ∀ bs : List UInt8, toLe bs.length (ofLe bs) = bs
  | [] => rfl
  | b :: bs => by
      have hb : b.toNat < 256 := b.toNat_lt
      have hmod : (b.toNat + 256 * ofLe bs) % 256 = b.toNat := by omega
      have hdiv : (b.toNat + 256 * ofLe bs) / 256 = ofLe bs := by omega
      have hhead : UInt8.ofNat (b.toNat + 256 * ofLe bs) = b := by
        apply UInt8.toNat_inj.mp
        rw [UInt8.toNat_ofNat']
        exact hmod
      rw [List.length_cons, ofLe, toLe, hdiv, toLe_ofLe bs, hhead]

/-- `value.to_le_bytes()` of a 16-bit word. -/
def leBytes16 (v : UInt16) : List UInt8 := toLe 2 v.toNat

/-- `value.to_le_bytes()` of a 32-bit word. -/
def leBytes32 (v : UInt32) : List UInt8 := toLe 4 v.toNat

/-- `value.to_le_bytes()` of a 64-bit word. -/
def leBytes64 (v : UInt64) : List UInt8 := toLe 8 v.toNat

@[simp] theorem length_leBytes16 (v : UInt16) : (leBytes16 v).length = 2 := length_toLe 2 _

@[simp] theorem length_leBytes32 (v : UInt32) : (leBytes32 v).length = 4 := length_toLe 4 _

@[simp] theorem length_leBytes64 (v : UInt64) : (leBytes64 v).length = 8 := length_toLe 8 _

@[simp] theorem ofLe_leBytes16 (v : UInt16) : ofLe (leBytes16 v) = v.toNat := by
  rw [leBytes16, ofLe_toLe]
  exact Nat.mod_eq_of_lt v.toNat_lt

@[simp] theorem ofLe_leBytes32 (v : UInt32) : ofLe (leBytes32 v) = v.toNat := by
  rw [leBytes32, ofLe_toLe]
  exact Nat.mod_eq_of_lt v.toNat_lt

@[simp] theorem ofLe_leBytes64 (v : UInt64) : ofLe (leBytes64 v) = v.toNat := by
  rw [leBytes64, ofLe_toLe]
  exact Nat.mod_eq_of_lt v.toNat_lt

/-! ## Big-endian strings -/

/-- The number whose bytes, most significant first, are `bs`. -/
def ofBe (bs : List UInt8) : Nat := ofLe bs.reverse

/-- The `w` low bytes of `n`, most significant first. -/
def toBe (w n : Nat) : List UInt8 := (toLe w n).reverse

@[simp] theorem length_toBe (w n : Nat) : (toBe w n).length = w := by
  rw [toBe, List.length_reverse, length_toLe]

theorem ofBe_toBe (w n : Nat) : ofBe (toBe w n) = n % 256 ^ w := by
  rw [ofBe, toBe, List.reverse_reverse, ofLe_toLe]

theorem toBe_ofBe {w : Nat} {bs : List UInt8} (h : bs.length = w) : toBe w (ofBe bs) = bs := by
  rw [toBe, ofBe, ← h, ← List.length_reverse, toLe_ofLe, List.reverse_reverse]

theorem ofBe_lt (bs : List UInt8) : ofBe bs < 256 ^ bs.length := by
  have h := ofLe_lt bs.reverse
  rwa [List.length_reverse] at h

end Lib
