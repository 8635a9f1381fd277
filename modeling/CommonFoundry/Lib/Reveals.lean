/-
# `CommonFoundry.Lib.Reveals` — byte strings that show what was encoded

A hash commits to the bytes it is given, and to a value only as far as the bytes
show it.  `Reveals valid enc f` says that they show `f a`: if the encodings of two
valid values, each followed by anything, are one string, then `f` agrees on the
two, and what follows is the same.  With `f = id` the bytes show all of the value.

An encoding that is a sequence of such parts is peeled from the front, part by
part: arrays and words by their width, a list by the count in front of it.
-/
import CommonFoundry.Lib.Bytes

namespace Lib

variable {α β : Type}

/-- What the encoding of a value shows, whatever follows it. -/
def Reveals (valid : α → Prop) (enc : α → List UInt8) (f : α → β) : Prop :=
  ∀ ⦃a b : α⦄ ⦃x y : List UInt8⦄, valid a → valid b → enc a ++ x = enc b ++ y → f a = f b ∧ x = y

/-! ## Arrays and words -/

theorem array_append_inj {n : Nat} {a b : Bytes n} {x y : List UInt8}
    (h : a.1 ++ x = b.1 ++ y) : a = b ∧ x = y := by
  obtain ⟨hab, hxy⟩ := List.append_inj h (a.2.trans b.2.symm)
  exact ⟨Subtype.ext hab, hxy⟩

theorem leBytes16_append_inj {a b : UInt16} {x y : List UInt8}
    (h : leBytes16 a ++ x = leBytes16 b ++ y) : a = b ∧ x = y := by
  obtain ⟨hab, hxy⟩ := List.append_inj h (by rw [length_leBytes16, length_leBytes16])
  have hval := congrArg ofLe hab
  rw [ofLe_leBytes16, ofLe_leBytes16] at hval
  exact ⟨UInt16.toNat_inj.mp hval, hxy⟩

theorem leBytes32_append_inj {a b : UInt32} {x y : List UInt8}
    (h : leBytes32 a ++ x = leBytes32 b ++ y) : a = b ∧ x = y := by
  obtain ⟨hab, hxy⟩ := List.append_inj h (by rw [length_leBytes32, length_leBytes32])
  have hval := congrArg ofLe hab
  rw [ofLe_leBytes32, ofLe_leBytes32] at hval
  exact ⟨UInt32.toNat_inj.mp hval, hxy⟩

theorem leBytes64_append_inj {a b : UInt64} {x y : List UInt8}
    (h : leBytes64 a ++ x = leBytes64 b ++ y) : a = b ∧ x = y := by
  obtain ⟨hab, hxy⟩ := List.append_inj h (by rw [length_leBytes64, length_leBytes64])
  have hval := congrArg ofLe hab
  rw [ofLe_leBytes64, ofLe_leBytes64] at hval
  exact ⟨UInt64.toNat_inj.mp hval, hxy⟩

/-- A count, as the word it is written as. -/
theorem leBytes64_length_inj {m n : Nat} {x y : List UInt8} (hm : m < 2 ^ 64) (hn : n < 2 ^ 64)
    (h : leBytes64 (UInt64.ofNat m) ++ x = leBytes64 (UInt64.ofNat n) ++ y) :
    m = n ∧ x = y := by
  obtain ⟨hword, hxy⟩ := leBytes64_append_inj h
  have hval := congrArg UInt64.toNat hword
  rw [UInt64.toNat_ofNat', UInt64.toNat_ofNat', Nat.mod_eq_of_lt hm, Nat.mod_eq_of_lt hn] at hval
  exact ⟨hval, hxy⟩

/-! ## Lists -/

variable {valid : α → Prop} {enc : α → List UInt8} {f : α → β}

/-- Values one after another, as many on both sides. -/
theorem Reveals.list (h : Reveals valid enc f) {as bs : List α} {x y : List UInt8}
    (hlength : as.length = bs.length) (ha : ∀ a ∈ as, valid a) (hb : ∀ b ∈ bs, valid b)
    (heq : as.flatMap enc ++ x = bs.flatMap enc ++ y) : as.map f = bs.map f ∧ x = y := by
  induction as generalizing bs with
  | nil =>
      obtain rfl := List.eq_nil_of_length_eq_zero hlength.symm
      exact ⟨rfl, heq⟩
  | cons a as ih =>
      cases bs with
      | nil => cases hlength
      | cons b bs =>
          rw [List.flatMap_cons, List.flatMap_cons, List.append_assoc, List.append_assoc] at heq
          obtain ⟨hhead, heq⟩ := h (ha a List.mem_cons_self) (hb b List.mem_cons_self) heq
          obtain ⟨htail, heq⟩ := ih (Nat.succ.inj hlength)
            (fun a hmem => ha a (List.mem_cons_of_mem _ hmem))
            (fun b hmem => hb b (List.mem_cons_of_mem _ hmem)) heq
          exact ⟨by rw [List.map_cons, List.map_cons, hhead, htail], heq⟩

/-- Words one after another, as many on both sides. -/
theorem words_append_inj {as bs : List UInt64} {x y : List UInt8} (hlength : as.length = bs.length)
    (h : as.flatMap leBytes64 ++ x = bs.flatMap leBytes64 ++ y) : as = bs ∧ x = y := by
  have hword : Reveals (fun _ => True) leBytes64 id := fun _ _ _ _ _ _ h => leBytes64_append_inj h
  obtain ⟨hmap, hxy⟩ := hword.list hlength (fun _ _ => trivial) (fun _ _ => trivial) h
  rw [List.map_id, List.map_id] at hmap
  exact ⟨hmap, hxy⟩

/-- A list with its length in front. -/
theorem Reveals.counted (h : Reveals valid enc f) :
    Reveals (fun as : List α => as.length < 2 ^ 64 ∧ ∀ a ∈ as, valid a)
      (fun as => leBytes64 (UInt64.ofNat as.length) ++ as.flatMap enc) (List.map f) := by
  intro as bs x y ha hb heq
  rw [List.append_assoc, List.append_assoc] at heq
  obtain ⟨hlength, heq⟩ := leBytes64_length_inj ha.1 hb.1 heq
  exact h.list hlength ha.2 hb.2 heq

/-- A byte string with its length in front. -/
theorem lengthPrefixed_append_inj {a b x y : List UInt8} (ha : a.length < 2 ^ 64)
    (hb : b.length < 2 ^ 64)
    (h : leBytes64 (UInt64.ofNat a.length) ++ (a ++ x) =
      leBytes64 (UInt64.ofNat b.length) ++ (b ++ y)) : a = b ∧ x = y := by
  obtain ⟨hlength, h⟩ := leBytes64_length_inj ha hb h
  exact List.append_inj h hlength

/-- The bytes alone. -/
theorem Reveals.inj (h : Reveals valid enc f) {a b : α} (ha : valid a) (hb : valid b)
    (heq : enc a = enc b) : f a = f b :=
  (h (x := []) (y := []) ha hb (by rw [heq])).1

end Lib
