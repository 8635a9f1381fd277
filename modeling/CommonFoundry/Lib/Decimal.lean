/-
# `CommonFoundry.Lib.Decimal` — decimal digits as bytes, and words read from them

The value of a run of digits is folded from the front, as a parser does it.  `parseU64` is the
parser of unsigned words: each step multiplies and adds with a check, and what it gives is the
value whenever that fits (`parseU64_eq_some`), however many zeros stand in front.
-/
import CommonFoundry.Lib.Word
import Mathlib.Data.List.Induction

namespace Lib

/-- `byte.is_ascii_digit()`. -/
def isAsciiDigit (byte : UInt8) : Bool := 0x30 ≤ byte ∧ byte ≤ 0x39

/-- `a * b` when it fits in 64 bits. -/
def checkedMulU64 (a b : UInt64) : Option UInt64 :=
  if a.toNat * b.toNat < 2 ^ 64 then some (a * b) else none

theorem checkedMulU64_eq_some {a b c : UInt64} :
    checkedMulU64 a b = some c ↔ c.toNat = a.toNat * b.toNat := by
  unfold checkedMulU64
  split
  · next h => rw [Option.some.injEq, ← UInt64.toNat_inj, toNat_mul_of_lt h, eq_comm]
  · next h =>
      have hlt := c.toNat_lt
      exact ⟨fun heq => (by cases heq), fun heq => absurd (heq ▸ hlt) h⟩

/-! ## Values -/

/-- The number that digits spell, the highest first. -/
def decimalValue (digits : List Nat) : Nat :=
  digits.foldl (fun value digit => value * 10 + digit) 0

theorem foldl_decimal (digits : List Nat) (start : Nat) :
    digits.foldl (fun value digit => value * 10 + digit) start =
      start * 10 ^ digits.length + decimalValue digits := by
  induction digits using List.reverseRecOn with
  | nil => simp [decimalValue]
  | append_singleton digits digit ih =>
      rw [decimalValue, List.foldl_append, List.foldl_append, ih, ← decimalValue]
      simp only [List.foldl_cons, List.foldl_nil, List.length_append, List.length_singleton,
        Nat.pow_succ, Nat.add_mul, Nat.mul_assoc, Nat.add_assoc]

theorem decimalValue_append (a b : List Nat) :
    decimalValue (a ++ b) = decimalValue a * 10 ^ b.length + decimalValue b := by
  rw [decimalValue, List.foldl_append, foldl_decimal, ← decimalValue]

theorem decimalValue_zeros (count : Nat) : decimalValue (List.replicate count 0) = 0 := by
  induction count with
  | zero => rfl
  | succ count ih => rw [List.replicate_succ', decimalValue_append, ih]; rfl

theorem decimalValue_lt {digits : List Nat} (h : ∀ digit ∈ digits, digit < 10) :
    decimalValue digits < 10 ^ digits.length := by
  induction digits using List.reverseRecOn with
  | nil => exact Nat.one_pos
  | append_singleton digits digit ih =>
      have hlast := h digit (List.mem_append_right _ List.mem_cons_self)
      have hbefore := ih fun other hother => h other (List.mem_append_left _ hother)
      have hdigit : decimalValue [digit] = digit := Nat.zero_add _
      rw [decimalValue_append, hdigit, List.length_append, List.length_singleton, Nat.pow_one,
        Nat.pow_succ]
      omega

/-- The digit that a byte spells. -/
def digitOf (byte : UInt8) : Nat := byte.toNat - 0x30

theorem digitOf_lt {byte : UInt8} (h : isAsciiDigit byte) : digitOf byte < 10 := by
  have hle : byte ≤ 0x39 := (of_decide_eq_true h).2
  rw [UInt8.le_iff_toNat_le] at hle
  have hnine : (0x39 : UInt8).toNat = 57 := rfl
  rw [digitOf]
  omega

/-- The number that bytes spell. -/
def digitsValue (bytes : List UInt8) : Nat := decimalValue (bytes.map digitOf)

theorem digitsValue_lt {bytes : List UInt8} (h : ∀ byte ∈ bytes, isAsciiDigit byte) :
    digitsValue bytes < 10 ^ bytes.length := by
  have hdigits : ∀ digit ∈ bytes.map digitOf, digit < 10 := by
    intro digit hdigit
    obtain ⟨byte, hbyte, rfl⟩ := List.mem_map.mp hdigit
    exact digitOf_lt (h byte hbyte)
  have hlt := decimalValue_lt hdigits
  rwa [List.length_map] at hlt

/-! ## Words -/

/-- `value.checked_mul(10)?.checked_add(digit)`. -/
def parseStep (value : UInt64) (byte : UInt8) : Option UInt64 := do
  let product ← checkedMulU64 value 10
  checkedAdd product (UInt64.ofNat (digitOf byte))

/-- `parse::<u64>()` on a run of digits: `None` where the value leaves the word. -/
def parseU64 (bytes : List UInt8) : Option UInt64 := bytes.foldlM parseStep 0

theorem toNat_digitOf {byte : UInt8} : (UInt64.ofNat (digitOf byte)).toNat = digitOf byte := by
  have hlt := byte.toNat_lt
  rw [UInt64.toNat_ofNat', Nat.mod_eq_of_lt (by rw [digitOf]; omega)]

/-- One step is exact. -/
theorem parseStep_eq_some {value next : UInt64} {byte : UInt8} :
    parseStep value byte = some next ↔ next.toNat = value.toNat * 10 + digitOf byte := by
  have hten : (10 : UInt64).toNat = 10 := rfl
  simp only [parseStep, Option.bind_eq_bind, Option.bind_eq_some_iff, checkedMulU64_eq_some,
    checkedAdd_eq_some, toNat_digitOf, hten]
  constructor
  · rintro ⟨product, hproduct, hnext⟩
    rw [hnext, hproduct]
  · intro hnext
    have hlt := next.toNat_lt
    have hproduct : value.toNat * (10 : UInt64).toNat < 2 ^ 64 := by
      rw [hten]
      omega
    exact ⟨value * 10, toNat_mul_of_lt hproduct, by rw [toNat_mul_of_lt hproduct, hten, hnext]⟩

/-- A value only grows, so the loop fails only where the whole number does not fit. -/
theorem foldlM_parseStep {bytes : List UInt8} : ∀ {start value : UInt64},
    bytes.foldlM parseStep start = some value ↔
      value.toNat = start.toNat * 10 ^ bytes.length + digitsValue bytes := by
  induction bytes with
  | nil =>
      intro start value
      show some start = some value ↔ value.toNat = start.toNat * 10 ^ 0 + 0
      rw [Nat.pow_zero, Nat.mul_one, Nat.add_zero, UInt64.toNat_inj, Option.some.injEq, eq_comm]
  | cons byte bytes ih =>
      intro start value
      have hvalue : digitsValue (byte :: bytes) =
          digitOf byte * 10 ^ bytes.length + digitsValue bytes := by
        rw [digitsValue, List.map_cons, ← List.singleton_append, decimalValue_append,
          List.length_map]
        show decimalValue [digitOf byte] * _ + _ = _
        rw [decimalValue, List.foldl_cons, List.foldl_nil, Nat.zero_mul, Nat.zero_add]
        rfl
      have hstart : start.toNat * 10 ^ (bytes.length + 1) +
          (digitOf byte * 10 ^ bytes.length + digitsValue bytes) =
          (start.toNat * 10 + digitOf byte) * 10 ^ bytes.length + digitsValue bytes := by
        rw [Nat.pow_succ', Nat.add_mul, Nat.mul_assoc, Nat.add_assoc]
      rw [List.foldlM_cons, List.length_cons, hvalue, hstart, Option.bind_eq_bind,
        Option.bind_eq_some_iff]
      simp only [parseStep_eq_some, ih]
      constructor
      · rintro ⟨next, hnext, hfinal⟩
        rw [hfinal, hnext]
      · intro hfinal
        have hlt := value.toNat_lt
        have hpos : 0 < 10 ^ bytes.length := Nat.pow_pos (by decide)
        have hle := Nat.le_mul_of_pos_right (start.toNat * 10 + digitOf byte) hpos
        have hnext : (UInt64.ofNat (start.toNat * 10 + digitOf byte)).toNat =
            start.toNat * 10 + digitOf byte := by
          rw [UInt64.toNat_ofNat', Nat.mod_eq_of_lt (by omega)]
        exact ⟨_, hnext, by rw [hfinal, hnext]⟩

theorem parseU64_eq_some {bytes : List UInt8} {value : UInt64} :
    parseU64 bytes = some value ↔ value.toNat = digitsValue bytes := by
  rw [parseU64, foldlM_parseStep, UInt64.toNat_zero, Nat.zero_mul, Nat.zero_add]

end Lib
