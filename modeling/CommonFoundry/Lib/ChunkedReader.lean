/-
# `CommonFoundry.Lib.ChunkedReader` — a byte stream that is read in chunks

A reader hands out a stream in pieces.  One read fills part of a buffer: at least one
byte while there are any, at most what fits, and how many in between is up to the
reader.  `chunk` is that choice, one number for each read to come.  A read of nothing
means that the stream has ended.

`readExact` reads until the buffer is full.  What it returns does not depend on the
choice (`readExact_eq_some`): it is the front of the stream, or nothing where the
stream is too short.
-/
import Mathlib.Data.List.Basic
import Mathlib.Tactic.Common

namespace Lib

/-- The bytes not read yet, and how the reads to come are cut: read number `i` gives at
most `chunk i + 1` bytes. -/
structure ChunkedReader where
  rest : List UInt8
  chunk : Nat → Nat

namespace ChunkedReader

/-- `read` into a buffer of `n` bytes. -/
def read (reader : ChunkedReader) (n : Nat) : List UInt8 × ChunkedReader :=
  let size := min n (reader.chunk 0 + 1)
  (reader.rest.take size, { rest := reader.rest.drop size, chunk := fun i => reader.chunk (i + 1) })

/-- What a read hands out and what it leaves make up the stream. -/
theorem read_append (reader : ChunkedReader) (n : Nat) :
    (reader.read n).1 ++ (reader.read n).2.rest = reader.rest :=
  List.take_append_drop _ _

theorem length_read_le (reader : ChunkedReader) (n : Nat) : (reader.read n).1.length ≤ n := by
  rw [read, List.length_take]
  omega

/-- Nothing is read only from nothing, or into nothing. -/
theorem read_eq_nil {reader : ChunkedReader} {n : Nat} :
    (reader.read n).1 = [] ↔ n = 0 ∨ reader.rest = [] := by
  rw [read, List.take_eq_nil_iff]
  constructor
  · rintro (hsize | hrest)
    · exact .inl (by omega)
    · exact .inr hrest
  · rintro (hzero | hrest)
    · exact .inl (by omega)
    · exact .inr hrest

/-- `read_exact` into a buffer of `n` bytes. -/
def readExact (reader : ChunkedReader) (n : Nat) : Option (List UInt8 × ChunkedReader) :=
  if n = 0 then
    some ([], reader)
  else if _hread : (reader.read n).1 = [] then
    none
  else
    (readExact (reader.read n).2 (n - (reader.read n).1.length)).map fun p =>
      ((reader.read n).1 ++ p.1, p.2)
termination_by n
decreasing_by
  have hpos := List.length_pos_iff.mpr _hread
  omega

/-- The first bytes of the stream, however it is cut. -/
theorem readExact_append (bytes : List UInt8) : ∀ {reader : ChunkedReader} {rest : List UInt8},
    reader.rest = bytes ++ rest →
    ∃ reader', reader.readExact bytes.length = some (bytes, reader') ∧ reader'.rest = rest := by
  induction hn : bytes.length using Nat.strongRecOn generalizing bytes with
  | _ n ih =>
      intro reader rest hrest
      subst hn
      rw [readExact]
      by_cases hzero : bytes.length = 0
      · rw [if_pos hzero]
        rw [List.length_eq_zero_iff.mp hzero] at hrest ⊢
        exact ⟨reader, rfl, hrest⟩
      · have hne : bytes ≠ [] := fun h => hzero (List.length_eq_zero_iff.mpr h)
        have hread : (reader.read bytes.length).1 ≠ [] := by
          rw [ne_eq, read_eq_nil, hrest, List.append_eq_nil_iff]
          exact fun h => h.elim hzero fun h => hne h.1
        rw [if_neg hzero, dif_neg hread]
        -- the read is a prefix of what is wanted
        have happend := read_append reader bytes.length
        have hle := length_read_le reader bytes.length
        obtain ⟨first, hfirst⟩ : ∃ first, (reader.read bytes.length).1 = first := ⟨_, rfl⟩
        rw [hfirst] at happend hle hread ⊢
        rw [hrest] at happend
        obtain ⟨tail, htail⟩ : ∃ tail, bytes = first ++ tail := by
          have hfront : first <+: bytes ++ rest := ⟨_, happend⟩
          obtain ⟨tail, htail⟩ :=
            List.prefix_of_prefix_length_le hfront (List.prefix_append bytes rest) hle
          exact ⟨tail, htail.symm⟩
        have hlength : bytes.length - first.length = tail.length := by
          rw [htail, List.length_append, Nat.add_sub_cancel_left]
        have hsmaller : tail.length < bytes.length := by
          have hpos := List.length_pos_iff.mpr hread
          rw [htail, List.length_append]
          omega
        have hremaining : (reader.read bytes.length).2.rest = tail ++ rest := by
          rw [htail, List.append_assoc] at happend
          rw [htail]
          exact List.append_cancel_left happend
        obtain ⟨reader', hreader', hrest'⟩ := ih tail.length hsmaller tail rfl hremaining
        rw [hlength, hreader', Option.map_some, ← htail]
        exact ⟨reader', rfl, hrest'⟩

/-- What is read was the front of the stream. -/
theorem readExact_eq_some {reader reader' : ChunkedReader} {n : Nat} {bytes : List UInt8}
    (h : reader.readExact n = some (bytes, reader')) :
    bytes.length = n ∧ reader.rest = bytes ++ reader'.rest := by
  induction n using Nat.strongRecOn generalizing reader bytes with
  | _ n ih =>
      rw [readExact] at h
      split at h
      case isTrue hzero =>
          cases h
          exact ⟨hzero.symm, rfl⟩
      case isFalse hzero =>
          split at h
          case isTrue => cases h
          case isFalse hread =>
              obtain ⟨⟨tail, last⟩, hlast, hsame⟩ := Option.map_eq_some_iff.mp h
              cases hsame
              have hpos := List.length_pos_iff.mpr hread
              have hle := length_read_le reader n
              obtain ⟨hlength, hrest⟩ := ih _ (by omega) hlast
              refine ⟨?_, ?_⟩
              · rw [List.length_append, hlength]
                omega
              · rw [List.append_assoc, ← hrest, read_append]

end ChunkedReader

end Lib
