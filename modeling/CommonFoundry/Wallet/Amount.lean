/-
# `CommonFoundry.Wallet.Amount` — an amount of coins, read by the node and by the wallet

The node reads an amount with `parse_cmfd_atoms`: one or more digits, and where there is a
point one to eight more (`IsAmount`).  It gives the number of atoms where that fits in a word
and an error for every other text (`parseCmfdAtoms_eq_ok`, `parseCmfdAtoms_total`).

The wallet reads what was typed with `parseCmfd`, a pattern over the trimmed text, and forwards
that text.  The two work on different strings: code units there, bytes here.
-/
import CommonFoundry.Lib.Decimal
import CommonFoundry.Lib.Pattern
import Mathlib.Data.List.DropRight

namespace CommonFoundry

open Lib Lib.Outcome

/-! ## The node -/

/-- `COIN`. -/
def coin : UInt64 := 100000000

/-- The two variants of `NodeError` that an amount can end in. -/
inductive AmountError where
  | invalidWalletAmount
  | walletAmountOverflow
  deriving DecidableEq

/-- The match on the part behind the point. -/
def parseFractional (overflowChecks : Bool) : Option (List UInt8) → Outcome AmountError UInt64
  | none => pure 0
  | some digits =>
      if digits ≠ [] ∧ digits.length ≤ 8 ∧ digits.all isAsciiDigit then do
        let value ← okOr (parseU64 digits) .invalidWalletAmount
        plainMul overflowChecks value (UInt64.ofNat (10 ^ (8 - digits.length)))
      else fail .invalidWalletAmount

/-- `parse_cmfd_atoms`, on the bytes of the text. -/
def parseCmfdAtoms (overflowChecks : Bool) (value : List UInt8) : Outcome AmountError UInt64 := do
  let parts := value.splitOn 0x2e
  let whole ← okOr parts.head? .invalidWalletAmount
  let fractional := parts.tail.head?
  require (¬(parts.tail.tail ≠ [] ∨ whole = [] ∨ ¬whole.all isAsciiDigit)) .invalidWalletAmount
  let wholeValue ← okOr (parseU64 whole) .walletAmountOverflow
  let wholeAtoms ← okOr (checkedMulU64 wholeValue coin) .walletAmountOverflow
  let fractionalAtoms ← parseFractional overflowChecks fractional
  okOr (checkedAdd wholeAtoms fractionalAtoms) .walletAmountOverflow

/-- One or more digits. -/
def AllDigits (bytes : List UInt8) : Prop := ∀ byte ∈ bytes, isAsciiDigit byte

/-- The texts of an amount, with what they are worth: digits, and where there is a point one
to eight digits behind it. -/
inductive IsAmount : List UInt8 → Nat → Prop
  | whole {digits : List UInt8} : digits ≠ [] → AllDigits digits →
      IsAmount digits (digitsValue digits * 10 ^ 8)
  | point {digits behind : List UInt8} : digits ≠ [] → AllDigits digits →
      behind ≠ [] → behind.length ≤ 8 → AllDigits behind →
      IsAmount (digits ++ 0x2e :: behind)
        (digitsValue digits * 10 ^ 8 + digitsValue behind * 10 ^ (8 - behind.length))

section Node

variable {overflowChecks : Bool}

theorem not_mem_point {digits : List UInt8} (h : AllDigits digits) : 0x2e ∉ digits := by
  intro hmem
  have hdigit := h _ hmem
  cases hdigit

theorem all_isAsciiDigit {digits : List UInt8} :
    digits.all isAsciiDigit = true ↔ AllDigits digits := List.all_eq_true

/-- The digits behind the point, in atoms: no product leaves its word. -/
theorem parseFractional_digits (overflowChecks : Bool) {digits : List UInt8} (hlength : digits.length ≤ 8)
    (hdigits : AllDigits digits) (hsome : digits ≠ []) :
    ∃ atoms, parseFractional overflowChecks (some digits) = .ok atoms ∧
      atoms.toNat = digitsValue digits * 10 ^ (8 - digits.length) := by
  have hvalue := digitsValue_lt hdigits
  have hpow : 10 ^ digits.length * 10 ^ (8 - digits.length) = 100000000 := by
    rw [← Nat.pow_add, Nat.add_sub_cancel' hlength]
  have hle : 10 ^ (8 - digits.length) ≤ 100000000 :=
    Nat.pow_le_pow_right (by decide) (Nat.sub_le 8 _)
  have hproduct : digitsValue digits * 10 ^ (8 - digits.length) < 100000000 := by
    rw [← hpow]
    exact Nat.mul_lt_mul_of_pos_right hvalue (Nat.pow_pos (by decide))
  have hpos : 0 < 10 ^ (8 - digits.length) := Nat.pow_pos (by decide)
  have hsmall : digitsValue digits < 100000000 :=
    Nat.lt_of_le_of_lt (Nat.le_mul_of_pos_right _ hpos) hproduct
  have hword : (UInt64.ofNat (digitsValue digits)).toNat = digitsValue digits := by
    rw [UInt64.toNat_ofNat', Nat.mod_eq_of_lt (by omega)]
  have hscale : (UInt64.ofNat (10 ^ (8 - digits.length))).toNat = 10 ^ (8 - digits.length) := by
    rw [UInt64.toNat_ofNat', Nat.mod_eq_of_lt (by omega)]
  have hparse : parseU64 digits = some (UInt64.ofNat (digitsValue digits)) :=
    parseU64_eq_some.mpr hword
  have hfits : (UInt64.ofNat (digitsValue digits)).toNat *
      (UInt64.ofNat (10 ^ (8 - digits.length))).toNat < 2 ^ 64 := by
    rw [hword, hscale]
    exact Nat.lt_trans hproduct (by decide)
  refine ⟨UInt64.ofNat (digitsValue digits) * UInt64.ofNat (10 ^ (8 - digits.length)), ?_, ?_⟩
  · rw [parseFractional, if_pos ⟨hsome, hlength, all_isAsciiDigit.mpr hdigits⟩, hparse, okOr_some,
      ok_bind, plainMul_of_lt hfits]
  · rw [toNat_mul_of_lt hfits, hword, hscale]

theorem parseFractional_eq_ok {fractional : Option (List UInt8)} {atoms : UInt64} :
    parseFractional overflowChecks fractional = .ok atoms ↔
      (fractional = none ∧ atoms = 0) ∨
        ∃ digits, fractional = some digits ∧ digits ≠ [] ∧ digits.length ≤ 8 ∧ AllDigits digits ∧
          atoms.toNat = digitsValue digits * 10 ^ (8 - digits.length) := by
  constructor
  · intro h
    cases fractional with
    | none =>
        rw [parseFractional, pure_eq_ok] at h
        exact .inl ⟨rfl, h.symm⟩
    | some digits =>
        by_cases hguard : digits ≠ [] ∧ digits.length ≤ 8 ∧ digits.all isAsciiDigit
        · obtain ⟨hsome, hlength, hall⟩ := hguard
          have hdigits := all_isAsciiDigit.mp hall
          obtain ⟨found, hfound, hvalue⟩ :=
            parseFractional_digits overflowChecks hlength hdigits hsome
          obtain rfl := Except.ok.inj (hfound.symm.trans h)
          exact .inr ⟨digits, rfl, hsome, hlength, hdigits, hvalue⟩
        · rw [parseFractional, if_neg hguard] at h
          exact absurd h fail_ne_ok
  · rintro (⟨rfl, rfl⟩ | ⟨digits, rfl, hsome, hlength, hdigits, hvalue⟩)
    · rfl
    · obtain ⟨found, hfound, hfoundValue⟩ :=
        parseFractional_digits overflowChecks hlength hdigits hsome
      rw [hfound, UInt64.toNat_inj.mp (hfoundValue.trans hvalue.symm)]

theorem noPanic_parseFractional (fractional : Option (List UInt8)) :
    NoPanic (parseFractional overflowChecks fractional) := by
  cases fractional with
  | none => exact .ok
  | some digits =>
      by_cases hguard : digits ≠ [] ∧ digits.length ≤ 8 ∧ digits.all isAsciiDigit
      · obtain ⟨hsome, hlength, hall⟩ := hguard
        obtain ⟨found, hfound, -⟩ := parseFractional_digits overflowChecks hlength
          (all_isAsciiDigit.mp hall) hsome
        rw [hfound]
        exact .ok
      · rw [parseFractional, if_neg hguard]
        exact .fail

/-- The parts of a text that is accepted, and the whole parse in numbers. -/
theorem parseCmfdAtoms_parts {value : List UInt8} {atoms : UInt64} :
    parseCmfdAtoms overflowChecks value = .ok atoms ↔
      ∃ digits fractional fractionalAtoms, value.splitOn 0x2e = digits :: fractional.toList ∧
        digits ≠ [] ∧ AllDigits digits ∧
        parseFractional overflowChecks fractional = .ok fractionalAtoms ∧
        atoms.toNat = digitsValue digits * 10 ^ 8 + fractionalAtoms.toNat := by
  have hcoin : coin.toNat = 10 ^ 8 := rfl
  obtain ⟨whole, rest, hparts⟩ := List.exists_cons_of_ne_nil (List.splitOn_ne_nil 0x2e value)
  simp only [parseCmfdAtoms, bind_eq_ok, okOr_eq_ok, require_eq_ok, parseU64_eq_some,
    checkedMulU64_eq_some, checkedAdd_eq_some, hcoin, hparts, List.head?_cons, List.tail_cons,
    Option.some.injEq, not_or, not_not, all_isAsciiDigit]
  constructor
  · rintro ⟨_, rfl, _, ⟨hlast, hsome, hdigits⟩, wholeValue, hwhole, wholeAtoms, hatoms, fractional,
      hfractional, hsum⟩
    refine ⟨whole, rest.head?, fractional, ?_, hsome, hdigits, hfractional, ?_⟩
    · cases rest with
      | nil => rfl
      | cons digits rest => rw [List.tail_cons.symm.trans hlast]; rfl
    · rw [hsum, hatoms, hwhole]
  · rintro ⟨digits, fractional, atoms', heq, hsome, hdigits, hfractional, hsum⟩
    obtain ⟨rfl, rfl⟩ := List.cons.inj heq
    have hlt := atoms.toNat_lt
    have hword : (UInt64.ofNat (digitsValue whole)).toNat = digitsValue whole := by
      rw [UInt64.toNat_ofNat', Nat.mod_eq_of_lt (by omega)]
    have hproduct : (UInt64.ofNat (digitsValue whole * 10 ^ 8)).toNat =
        digitsValue whole * 10 ^ 8 := by
      rw [UInt64.toNat_ofNat', Nat.mod_eq_of_lt (by omega)]
    have hhead : fractional.toList.head? = fractional := by cases fractional <;> rfl
    have htail : fractional.toList.tail = [] := by cases fractional <;> rfl
    exact ⟨whole, rfl, (), ⟨htail, hsome, hdigits⟩, _, hword, _, by rw [hproduct, hword], atoms',
      by rw [hhead]; exact hfractional, by rw [hproduct]; exact hsum⟩

theorem parseCmfdAtoms_eq_ok {value : List UInt8} {atoms : UInt64} :
    parseCmfdAtoms overflowChecks value = .ok atoms ↔ IsAmount value atoms.toNat := by
  rw [parseCmfdAtoms_parts]
  constructor
  · rintro ⟨digits, fractional, atoms', hparts, hsome, hdigits, hfractional, hsum⟩
    have hvalue : [0x2e].intercalate (value.splitOn 0x2e) = value := List.intercalate_splitOn _
    rw [hparts] at hvalue
    rw [hsum]
    rcases parseFractional_eq_ok.mp hfractional with
      ⟨rfl, rfl⟩ | ⟨behind, rfl, hsome', hlength, hdigits', hatoms⟩
    · obtain rfl : digits = value := by simpa using hvalue
      rw [UInt64.toNat_zero, Nat.add_zero]
      exact .whole hsome hdigits
    · obtain rfl : digits ++ 0x2e :: behind = value := by simpa [List.intercalate] using hvalue
      rw [hatoms]
      exact .point hsome hdigits hsome' hlength hdigits'
  · intro hamount
    generalize atoms.toNat = n at hamount ⊢
    cases hamount with
    | whole hsome hdigits =>
        refine ⟨value, none, 0, List.splitOn_eq_singleton (not_mem_point hdigits), hsome, hdigits,
          rfl, ?_⟩
        rw [UInt64.toNat_zero, Nat.add_zero]
    | @point digits behind hsome hdigits hsome' hlength hdigits' =>
        obtain ⟨atoms', hfractional, hatoms⟩ :=
          parseFractional_digits overflowChecks hlength hdigits' hsome'
        refine ⟨digits, some behind, atoms', ?_, hsome, hdigits, hfractional, by rw [hatoms]⟩
        rw [List.splitOn_append_cons_self_of_not_mem (not_mem_point hdigits),
          List.splitOn_eq_singleton (not_mem_point hdigits')]
        rfl

theorem noPanic_parseCmfdAtoms (value : List UInt8) :
    NoPanic (parseCmfdAtoms overflowChecks value) := by
  refine NoPanic.okOr.bind fun _ _ => NoPanic.require.bind fun _ _ => NoPanic.okOr.bind fun _ _ =>
    NoPanic.okOr.bind fun _ _ => (noPanic_parseFractional _).bind fun _ _ => NoPanic.okOr

end Node

/-! ## The wallet -/

/-- A text of the wallet, by its code units. -/
abbrev JsString := List UInt16

/-- The units that `trim` takes off: white space and line terminators. -/
def isJsSpace (unit : UInt16) : Bool :=
  unit ∈ [0x09, 0x0a, 0x0b, 0x0c, 0x0d, 0x20, 0xa0, 0x1680, 0x2028, 0x2029, 0x202f, 0x205f,
    0x3000, 0xfeff] ∨ (0x2000 ≤ unit ∧ unit ≤ 0x200a)

/-- `String.prototype.trim`. -/
def jsTrim (text : JsString) : JsString := (text.dropWhile isJsSpace).rdropWhile isJsSpace

/-- `padEnd(length, "0")`. -/
def padEndZero (length : Nat) (text : JsString) : JsString :=
  text ++ List.replicate (length - text.length) 0x30

def isJsDigit (unit : UInt16) : Bool := 0x30 ≤ unit ∧ unit ≤ 0x39

/-- `BigInt` of decimal digits, which is all that the pattern lets through; it throws here
for anything else. -/
def bigInt (text : JsString) : Option Nat :=
  if text.all isJsDigit then some (decimalValue (text.map fun unit => unit.toNat - 0x30)) else none

/-- `CMFD_PATTERN`: `^(?:0|[1-9]\d*)(?:\.(\d{1,8}))?$`. -/
def cmfdPattern : Pattern UInt16 :=
  .seq
    (.either (.units (· == 0x30) 1 (some 1))
      (.seq (.units (fun unit => 0x31 ≤ unit ∧ unit ≤ 0x39) 1 (some 1)) (.units isJsDigit 0 none)))
    (.maybe (.seq (.units (· == 0x2e) 1 (some 1)) (.group (.units isJsDigit 1 (some 8)))))

/-- `ATOMS_PER_CMFD`. -/
def atomsPerCmfd : Nat := 100000000

def parseCmfd (value : JsString) : Option Nat := do
  let normalized := jsTrim value
  let captured ← cmfdPattern.exec normalized
  let fraction := padEndZero 8 (captured.getD [])
  let whole ← bigInt ((normalized.splitOn 0x2e).headD [])
  let atoms ← bigInt (if fraction = [] then [0x30] else fraction)
  pure (whole * atomsPerCmfd + atoms)

/-- The characters that code units stand for; a surrogate without its other half stands for
none. -/
def utf16Decode : JsString → Option (List Char)
  | [] => some []
  | unit :: rest =>
      if 0xd800 ≤ unit ∧ unit ≤ 0xdbff then
        match rest with
        | low :: rest =>
            if 0xdc00 ≤ low ∧ low ≤ 0xdfff then
              (utf16Decode rest).map
                (Char.ofNat (0x10000 + (unit.toNat - 0xd800) * 0x400 + (low.toNat - 0xdc00)) :: ·)
            else none
        | [] => none
      else if 0xdc00 ≤ unit ∧ unit ≤ 0xdfff then none
      else (utf16Decode rest).map (Char.ofNat unit.toNat :: ·)

/-- The bytes of a text on its way to the node. -/
def forwarded (text : JsString) : Option (List UInt8) :=
  (utf16Decode text).map fun characters => characters.flatMap String.utf8EncodeChar

/-! ## What the wallet accepts -/

def AllJsDigits (text : JsString) : Prop := ∀ unit ∈ text, isJsDigit unit

/-- The number that digits spell, as `bigInt` reads it. -/
def jsDigitsValue (text : JsString) : Nat := decimalValue (text.map fun unit => unit.toNat - 0x30)

/-- The texts of the pattern: digits, and where there is a point one to eight digits behind it,
which are what is captured. -/
inductive IsJsAmount : JsString → Option JsString → Prop
  | whole {digits : JsString} : digits ≠ [] → AllJsDigits digits → IsJsAmount digits none
  | point {digits behind : JsString} : digits ≠ [] → AllJsDigits digits → behind ≠ [] →
      behind.length ≤ 8 → AllJsDigits behind → IsJsAmount (digits ++ 0x2e :: behind) (some behind)

theorem isJsDigit_iff {unit : UInt16} :
    isJsDigit unit = true ↔ 0x30 ≤ unit.toNat ∧ unit.toNat ≤ 0x39 := by
  rw [isJsDigit, decide_eq_true_iff, UInt16.le_iff_toNat_le, UInt16.le_iff_toNat_le]
  rfl

theorem eq_singleton_of_units {accepts : UInt16 → Bool} {text : JsString}
    {captured : Option JsString}
    (h : (Pattern.units accepts 1 (some 1)).Matches text captured) :
    ∃ unit, text = [unit] ∧ accepts unit ∧ captured = none := by
  cases h with
  | units hall hleast hmost =>
      obtain ⟨unit, rfl⟩ := List.length_eq_one_iff.mp (Nat.le_antisymm (hmost 1 rfl) hleast)
      exact ⟨unit, rfl, hall unit List.mem_cons_self, rfl⟩

/-- The part in front of the point. -/
theorem wholePattern_matches {text : JsString} {captured : Option JsString}
    (h : (Pattern.either (.units (· == 0x30) 1 (some 1))
      (.seq (.units (fun unit => 0x31 ≤ unit ∧ unit ≤ 0x39) 1 (some 1))
        (.units isJsDigit 0 none))).Matches text captured) :
    text ≠ [] ∧ AllJsDigits text ∧ captured = none := by
  cases h with
  | first hzero =>
      obtain ⟨unit, rfl, hunit, rfl⟩ := eq_singleton_of_units hzero
      obtain rfl : unit = 0x30 := beq_iff_eq.mp hunit
      refine ⟨List.cons_ne_nil _ _, fun other hother => ?_, rfl⟩
      rw [List.mem_singleton.mp hother]
      rfl
  | second hseq =>
      cases hseq with
      | seq hfirst hrest =>
          obtain ⟨unit, rfl, hunit, rfl⟩ := eq_singleton_of_units hfirst
          have hone := of_decide_eq_true hunit
          rw [UInt16.le_iff_toNat_le, UInt16.le_iff_toNat_le] at hone
          cases hrest with
          | units hall _ _ =>
              refine ⟨List.cons_ne_nil _ _, fun other hother => ?_, rfl⟩
              rcases List.mem_cons.mp hother with rfl | hother
              · exact isJsDigit_iff.mpr ⟨Nat.le_trans (by decide) hone.1, hone.2⟩
              · exact hall other hother

theorem isJsAmount_of_matches {text : JsString} {captured : Option JsString}
    (h : cmfdPattern.Matches text captured) : IsJsAmount text captured := by
  cases h with
  | seq hwhole hbehind =>
      obtain ⟨hsome, hdigits, rfl⟩ := wholePattern_matches hwhole
      cases hbehind with
      | absent =>
          rw [List.append_nil]
          exact .whole hsome hdigits
      | present hpoint =>
          cases hpoint with
          | seq hdot hgroup =>
              obtain ⟨unit, rfl, hunit, rfl⟩ := eq_singleton_of_units hdot
              obtain rfl : unit = 0x2e := beq_iff_eq.mp hunit
              cases hgroup with
              | group hunits =>
                  cases hunits with
                  | units hall hleast hmost =>
                      exact .point hsome hdigits (List.ne_nil_of_length_pos hleast)
                        (hmost 8 rfl) hall

/-! ## The bytes of an accepted text -/

/-- A code unit of the first 128, as its byte. -/
def asciiByte (unit : UInt16) : UInt8 := UInt8.ofNat unit.toNat

theorem toNat_asciiByte {unit : UInt16} (h : unit.toNat < 0x80) :
    (asciiByte unit).toNat = unit.toNat := by
  rw [asciiByte, UInt8.toNat_ofNat', Nat.mod_eq_of_lt (by omega)]

theorem utf8EncodeChar_ascii :
    ∀ n < 0x80, String.utf8EncodeChar (Char.ofNat n) = [UInt8.ofNat n] := by
  decide

/-- Of such units a text is forwarded as its bytes. -/
theorem forwarded_ascii {text : JsString} (h : ∀ unit ∈ text, unit.toNat < 0x80) :
    forwarded text = some (text.map asciiByte) := by
  have hdecode : utf16Decode text = some (text.map fun unit => Char.ofNat unit.toNat) := by
    induction text with
    | nil => rfl
    | cons unit text ih =>
        have hunit := h unit List.mem_cons_self
        have hlow : ¬(0xd800 ≤ unit ∧ unit ≤ 0xdbff) := by
          rw [UInt16.le_iff_toNat_le]
          exact fun hsurrogate => absurd hsurrogate.1 (Nat.not_le.mpr (Nat.lt_trans hunit (by decide)))
        have hhigh : ¬(0xdc00 ≤ unit ∧ unit ≤ 0xdfff) := by
          rw [UInt16.le_iff_toNat_le]
          exact fun hsurrogate => absurd hsurrogate.1 (Nat.not_le.mpr (Nat.lt_trans hunit (by decide)))
        unfold utf16Decode
        rw [if_neg hlow, if_neg hhigh,
          ih fun other hother => h other (List.mem_cons_of_mem _ hother)]
        rfl
  rw [forwarded, hdecode, Option.map_some, List.flatMap_map]
  congr 1
  rw [← List.flatMap_singleton' (text.map asciiByte), List.flatMap_map]
  exact List.flatMap_congr fun unit hunit => utf8EncodeChar_ascii _ (h unit hunit)

theorem allDigits_map {text : JsString} (h : AllJsDigits text) :
    AllDigits (text.map asciiByte) ∧ digitsValue (text.map asciiByte) = jsDigitsValue text := by
  have hunit : ∀ unit ∈ text, isAsciiDigit (asciiByte unit) = true ∧
      digitOf (asciiByte unit) = unit.toNat - 0x30 := by
    intro unit hmem
    obtain ⟨hleast, hmost⟩ := isJsDigit_iff.mp (h unit hmem)
    have hbyte : (asciiByte unit).toNat = unit.toNat := toNat_asciiByte (by omega)
    refine ⟨?_, by rw [digitOf, hbyte]⟩
    rw [isAsciiDigit, decide_eq_true_iff, UInt8.le_iff_toNat_le, UInt8.le_iff_toNat_le, hbyte]
    exact ⟨hleast, hmost⟩
  refine ⟨fun byte hbyte => ?_, ?_⟩
  · obtain ⟨unit, hmem, rfl⟩ := List.mem_map.mp hbyte
    exact (hunit unit hmem).1
  · rw [digitsValue, jsDigitsValue, List.map_map]
    congr 1
    exact List.map_congr_left fun unit hmem => (hunit unit hmem).2

/-! ## One amount on both sides -/

theorem bigInt_digits {text : JsString} (h : AllJsDigits text) :
    bigInt text = some (jsDigitsValue text) :=
  if_pos (List.all_eq_true.mpr h)

theorem not_mem_jsPoint {digits : JsString} (h : AllJsDigits digits) : 0x2e ∉ digits := by
  intro hmem
  have hdigit := h _ hmem
  cases hdigit

/-- Zeros behind digits are a power of ten. -/
theorem jsDigitsValue_padEndZero (behind : JsString) :
    jsDigitsValue (padEndZero 8 behind) = jsDigitsValue behind * 10 ^ (8 - behind.length) := by
  rw [jsDigitsValue, padEndZero, List.map_append, decimalValue_append, List.map_replicate,
    List.length_replicate]
  show _ + decimalValue (List.replicate _ 0) = _
  rw [decimalValue_zeros, Nat.add_zero, jsDigitsValue]

theorem allJsDigits_padEndZero {behind : JsString} (h : AllJsDigits behind) :
    AllJsDigits (padEndZero 8 behind) := by
  intro unit hunit
  rcases List.mem_append.mp hunit with hunit | hunit
  · exact h unit hunit
  · rw [List.eq_of_mem_replicate hunit]
    rfl

/-- What the wallet makes of a text that its pattern matches: the digits in front of the point,
and eight behind it. -/
theorem parseCmfd_of_exec {value : JsString} {captured : Option JsString}
    (h : cmfdPattern.exec (jsTrim value) = some captured) :
    IsJsAmount (jsTrim value) captured ∧
      ∃ digits, (jsTrim value).splitOn 0x2e = digits :: captured.toList ∧
        parseCmfd value = some (jsDigitsValue digits * 10 ^ 8 +
          jsDigitsValue (captured.getD []) * 10 ^ (8 - (captured.getD []).length)) := by
  have hamount := isJsAmount_of_matches (Pattern.matches_of_exec h)
  have hparts : ∃ digits, (jsTrim value).splitOn 0x2e = digits :: captured.toList ∧
      AllJsDigits digits ∧ AllJsDigits (captured.getD []) := by
    generalize jsTrim value = text at hamount
    cases hamount with
    | whole hsome hdigits =>
        exact ⟨text, List.splitOn_eq_singleton (not_mem_jsPoint hdigits), hdigits,
          fun unit hunit => absurd hunit List.not_mem_nil⟩
    | @point digits behind hsome hdigits _ _ hbehind =>
        refine ⟨digits, ?_, hdigits, hbehind⟩
        rw [List.splitOn_append_cons_self_of_not_mem (not_mem_jsPoint hdigits),
          List.splitOn_eq_singleton (not_mem_jsPoint hbehind)]
        rfl
  obtain ⟨digits, hsplit, hdigits, hbehind⟩ := hparts
  have hpadded : padEndZero 8 (captured.getD []) ≠ [] := by
    intro hnil
    have hlength := congrArg List.length hnil
    rw [padEndZero, List.length_append, List.length_replicate, List.length_nil] at hlength
    omega
  have hwhole : bigInt (((jsTrim value).splitOn 0x2e).headD []) = some (jsDigitsValue digits) := by
    rw [hsplit, List.headD_cons, bigInt_digits hdigits]
  have hfraction := bigInt_digits (allJsDigits_padEndZero hbehind)
  rw [jsDigitsValue_padEndZero] at hfraction
  refine ⟨hamount, digits, hsplit, ?_⟩
  simp only [parseCmfd, h, Option.bind_eq_bind, Option.bind_some, hwhole, if_neg hpadded,
    hfraction]
  rfl

/-- The wallet refuses a text only where its pattern does: the `catch` is never reached. -/
theorem parseCmfd_isSome_iff {value : JsString} :
    (parseCmfd value).isSome ↔ ∃ captured, cmfdPattern.Matches (jsTrim value) captured := by
  rw [← Pattern.exec_isSome_iff]
  cases hexec : cmfdPattern.exec (jsTrim value) with
  | none =>
      have hnone : parseCmfd value = none := by
        simp only [parseCmfd, hexec, Option.bind_eq_bind, Option.bind_none]
      rw [hnone]
      rfl
  | some captured =>
      obtain ⟨-, digits, -, hparse⟩ := parseCmfd_of_exec hexec
      rw [hparse]
      exact ⟨fun _ => rfl, fun _ => rfl⟩

theorem parseCmfd_eq_some {value : JsString} {atoms : Nat} (h : parseCmfd value = some atoms) :
    ∃ captured, IsJsAmount (jsTrim value) captured ∧
      ∃ digits, (jsTrim value).splitOn 0x2e = digits :: captured.toList ∧
        atoms = jsDigitsValue digits * 10 ^ 8 +
          jsDigitsValue (captured.getD []) * 10 ^ (8 - (captured.getD []).length) := by
  have hmatches := parseCmfd_isSome_iff.mp (Option.isSome_of_eq_some h)
  obtain ⟨captured, hexec⟩ := Option.isSome_iff_exists.mp (Pattern.exec_isSome_iff.mpr hmatches)
  obtain ⟨hamount, digits, hsplit, hparse⟩ := parseCmfd_of_exec hexec
  exact ⟨captured, hamount, digits, hsplit, Option.some.inj (h.symm.trans hparse)⟩

/-- The units of an amount are among the first 128. -/
theorem IsJsAmount.ascii {text : JsString} {captured : Option JsString}
    (h : IsJsAmount text captured) : ∀ unit ∈ text, unit.toNat < 0x80 := by
  have hdigits : ∀ {digits : JsString}, AllJsDigits digits → ∀ unit ∈ digits, unit.toNat < 0x80 :=
    fun hdigits unit hunit =>
      Nat.lt_of_le_of_lt (isJsDigit_iff.mp (hdigits unit hunit)).2 (by decide)
  cases h with
  | whole _ hwhole => exact hdigits hwhole
  | point _ hwhole _ _ hbehind =>
      intro unit hunit
      rcases List.mem_append.mp hunit with hunit | hunit
      · exact hdigits hwhole unit hunit
      · rcases List.mem_cons.mp hunit with rfl | hunit
        · decide
        · exact hdigits hbehind unit hunit

/-- The bytes of what the wallet accepts are an amount, of the same value. -/
theorem isAmount_of_parseCmfd {value : JsString} {atoms : Nat} (h : parseCmfd value = some atoms) :
    forwarded (jsTrim value) = some ((jsTrim value).map asciiByte) ∧
      IsAmount ((jsTrim value).map asciiByte) atoms := by
  obtain ⟨captured, hamount, digits, hsplit, rfl⟩ := parseCmfd_eq_some h
  refine ⟨forwarded_ascii hamount.ascii, ?_⟩
  generalize jsTrim value = text at hamount hsplit
  cases hamount with
  | whole hsome hall =>
      rw [List.splitOn_eq_singleton (not_mem_jsPoint hall)] at hsplit
      obtain ⟨rfl, -⟩ := List.cons.inj hsplit
      obtain ⟨hbytes, hvalue⟩ := allDigits_map hall
      have hzero : jsDigitsValue ((none : Option JsString).getD []) = 0 := rfl
      rw [hzero, Nat.zero_mul, Nat.add_zero, ← hvalue]
      exact .whole (fun hnil => hsome (List.map_eq_nil_iff.mp hnil)) hbytes
  | @point whole behind hsome hall hsome' hlength hall' =>
      rw [List.splitOn_append_cons_self_of_not_mem (not_mem_jsPoint hall)] at hsplit
      obtain ⟨rfl, -⟩ := List.cons.inj hsplit
      obtain ⟨hbytes, hvalue⟩ := allDigits_map hall
      obtain ⟨hbytes', hvalue'⟩ := allDigits_map hall'
      have hbehind : (behind.map asciiByte).length = behind.length := List.length_map _
      rw [Option.getD_some, ← hvalue, ← hvalue', ← hbehind, List.map_append, List.map_cons]
      exact .point (fun hnil => hsome (List.map_eq_nil_iff.mp hnil)) hbytes
        (fun hnil => hsome' (List.map_eq_nil_iff.mp hnil)) (hbehind ▸ hlength) hbytes'

/-- The node accepts the texts of an amount whose atoms fit in a word, with that number, and
returns an error for every other text; and it reads what the wallet forwards as the wallet did. -/
theorem cmfd_amounts_agree (overflowChecks : Bool) :
    (∀ value (atoms : UInt64),
      parseCmfdAtoms overflowChecks value = .ok atoms ↔ IsAmount value atoms.toNat) ∧
      (∀ value, (¬∃ atoms < 2 ^ 64, IsAmount value atoms) →
        ∃ error, parseCmfdAtoms overflowChecks value = .error (.err error)) ∧
      ∀ value atoms, parseCmfd value = some atoms → atoms < 2 ^ 64 →
        ∃ text, forwarded (jsTrim value) = some text ∧
          parseCmfdAtoms overflowChecks text = .ok (UInt64.ofNat atoms) := by
  refine ⟨fun value atoms => parseCmfdAtoms_eq_ok, fun value hnone => ?_, ?_⟩
  · cases hparse : parseCmfdAtoms overflowChecks value with
    | ok atoms => exact absurd ⟨_, atoms.toNat_lt, parseCmfdAtoms_eq_ok.mp hparse⟩ hnone
    | error fault =>
        cases fault with
        | err error => exact ⟨error, rfl⟩
        | panic => exact absurd hparse (noPanic_parseCmfdAtoms value)
  · intro value atoms hparse hfits
    obtain ⟨hforwarded, hamount⟩ := isAmount_of_parseCmfd hparse
    refine ⟨_, hforwarded, parseCmfdAtoms_eq_ok.mpr ?_⟩
    rwa [UInt64.toNat_ofNat', Nat.mod_eq_of_lt hfits]

/-- A blank, `1.25`, and a line feed. -/
theorem cmfd_amounts_agree_sample :
    ∃ text, forwarded (jsTrim [0x20, 0x31, 0x2e, 0x32, 0x35, 0x0a]) = some text ∧
      parseCmfdAtoms true text = .ok (UInt64.ofNat 125000000) :=
  (cmfd_amounts_agree true).2.2 [0x20, 0x31, 0x2e, 0x32, 0x35, 0x0a] 125000000
    (by decide) (by decide)

end CommonFoundry
