/-
# `CommonFoundry.Lib.InterruptedReader` — a byte stream whose reads may fail

A reader hands out a stream in pieces, and between two pieces a read may be interrupted or
fail.  The answers to come are a list; after the last of them a read gives all that fits.  A
read of nothing into a buffer with room means that the stream has ended.

`fill` reads into what is left of a buffer until it is full, and starts again when it is
interrupted.  When a read fails the buffer keeps what was read, and a later `fill` goes on
from there: nothing is lost (`fill_spec`).
-/
import Mathlib.Data.List.Basic
import Mathlib.Order.Lattice
import Mathlib.Tactic.Common

namespace Lib

/-- How a read to come is answered: with at most `count + 1` bytes, or not at all. -/
inductive ReadAnswer (ε : Type) where
  | upTo (count : Nat)
  | interrupted
  | failed (error : ε)

inductive ReadResult (ε : Type) where
  | bytes (bytes : List UInt8)
  | interrupted
  | failed (error : ε)

/-- The bytes not read yet, and the answers to come. -/
structure InterruptedReader (ε : Type) where
  rest : List UInt8
  answers : List (ReadAnswer ε)

inductive FillResult (ε : Type) where
  | full
  | closed
  | failed (error : ε)

namespace InterruptedReader

variable {ε : Type}

/-- `read` into a buffer of `n` bytes. -/
def read (reader : InterruptedReader ε) (n : Nat) : ReadResult ε × InterruptedReader ε :=
  match reader.answers with
  | [] => (.bytes (reader.rest.take n), { reader with rest := reader.rest.drop n })
  | .upTo count :: answers =>
      let size := min n (count + 1)
      (.bytes (reader.rest.take size), { rest := reader.rest.drop size, answers })
  | .interrupted :: answers => (.interrupted, { reader with answers })
  | .failed error :: answers => (.failed error, { reader with answers })

/-- The reads to come that fail. -/
def failures (reader : InterruptedReader ε) : Nat :=
  reader.answers.countP fun answer => answer matches .failed _

/-- What a read hands out and what it leaves make up the stream; it hands out nothing only
where there is nothing, and it uses up its answer. -/
theorem read_spec {reader reader' : InterruptedReader ε} {n : Nat} {result : ReadResult ε}
    (h : reader.read n = (result, reader')) :
    match result with
    | .bytes bytes => reader.rest = bytes ++ reader'.rest ∧ bytes.length ≤ n ∧
        (bytes = [] → n = 0 ∨ reader.rest = []) ∧ reader'.failures = reader.failures ∧
        reader'.answers.length ≤ reader.answers.length
    | .interrupted => reader'.rest = reader.rest ∧ reader'.failures = reader.failures ∧
        reader'.answers.length < reader.answers.length
    | .failed _ => reader'.rest = reader.rest ∧ reader'.failures < reader.failures := by
  have htake : ∀ size, reader.rest.take size = [] → size = 0 ∨ reader.rest = [] := fun _ h =>
    List.take_eq_nil_iff.mp h
  rw [read] at h
  split at h
  · next hanswers =>
      obtain ⟨rfl, rfl⟩ := Prod.mk.inj h
      refine ⟨(List.take_append_drop _ _).symm, ?_, htake n, rfl, le_refl _⟩
      exact List.length_take_le _ _
  · next count answers hanswers =>
      obtain ⟨rfl, rfl⟩ := Prod.mk.inj h
      refine ⟨(List.take_append_drop _ _).symm, ?_, fun hnil => ?_, ?_, ?_⟩
      · exact (List.length_take_le _ _).trans (min_le_left _ _)
      · exact (htake _ hnil).imp_left fun hzero => by omega
      · rw [failures, failures, hanswers, List.countP_cons_of_neg (by nofun)]
      · rw [hanswers]
        exact Nat.le_succ _
  · next answers hanswers =>
      obtain ⟨rfl, rfl⟩ := Prod.mk.inj h
      refine ⟨rfl, ?_, ?_⟩
      · rw [failures, failures, hanswers, List.countP_cons_of_neg (by nofun)]
      · rw [hanswers]
        exact Nat.lt_succ_self _
  · next error answers hanswers =>
      obtain ⟨rfl, rfl⟩ := Prod.mk.inj h
      refine ⟨rfl, ?_⟩
      rw [failures, failures, hanswers, List.countP_cons_of_pos rfl]
      exact Nat.lt_succ_self _

/-- Every read to come gives something, if there is something. -/
def Steady (reader : InterruptedReader ε) : Prop :=
  ∀ answer ∈ reader.answers, ∃ count, answer = .upTo count

theorem Steady.read {reader : InterruptedReader ε} (h : reader.Steady) (n : Nat) :
    ∃ bytes reader', reader.read n = (.bytes bytes, reader') ∧ reader'.Steady := by
  obtain ⟨rest, answers⟩ := reader
  cases answers with
  | nil => exact ⟨_, _, rfl, h⟩
  | cons answer answers =>
      obtain ⟨count, rfl⟩ := h answer List.mem_cons_self
      exact ⟨_, _, rfl, fun later hlater => h later (List.mem_cons_of_mem _ hlater)⟩

/-- Bytes put over those of a buffer, from an offset on. -/
def overwrite (buffer : List UInt8) (offset : Nat) (bytes : List UInt8) : List UInt8 :=
  buffer.take offset ++ bytes ++ buffer.drop (offset + bytes.length)

theorem length_overwrite {buffer bytes : List UInt8} {offset : Nat}
    (h : offset + bytes.length ≤ buffer.length) :
    (overwrite buffer offset bytes).length = buffer.length := by
  rw [overwrite, List.length_append, List.length_append, List.length_take, List.length_drop]
  omega

theorem take_overwrite {buffer bytes : List UInt8} {offset : Nat} (h : offset ≤ buffer.length) :
    (overwrite buffer offset bytes).take (offset + bytes.length) =
      buffer.take offset ++ bytes := by
  refine List.take_left' ?_
  rw [List.length_append, List.length_take, Nat.min_eq_left h]

/-- Reads into `buffer[offset..]` until it is full: how this ends, with the buffer, the
offset and the reader. -/
def fill (reader : InterruptedReader ε) (buffer : List UInt8) (offset : Nat) :
    FillResult ε × List UInt8 × Nat × InterruptedReader ε :=
  if offset < buffer.length then
    match _h : reader.read (buffer.length - offset) with
    | (.bytes [], reader') => (.closed, buffer, offset, reader')
    | (.bytes (byte :: bytes), reader') =>
        fill reader' (overwrite buffer offset (byte :: bytes))
          (offset + (byte :: bytes).length)
    | (.interrupted, reader') => fill reader' buffer offset
    | (.failed error, reader') => (.failed error, buffer, offset, reader')
  else (.full, buffer, offset, reader)
termination_by reader.answers.length + reader.rest.length
decreasing_by
  · obtain ⟨hrest, _, _, _, hanswers⟩ := read_spec _h
    rw [hrest, List.length_append, List.length_cons]
    omega
  · obtain ⟨hrest, _, hanswers⟩ := read_spec _h
    rw [hrest]
    omega

/-- Where a `fill` stops that ends in this way. -/
def Stops (reader : InterruptedReader ε) (length offset : Nat) (reader' : InterruptedReader ε) :
    FillResult ε → Prop
  | .full => offset = length
  | .closed => offset < length ∧ reader'.rest = []
  | .failed _ => reader'.failures < reader.failures

/-- What is in the buffer and what is to be read make up the same stream throughout. -/
theorem fill_spec {reader : InterruptedReader ε} {buffer : List UInt8} {offset : Nat}
    (hoffset : offset ≤ buffer.length) {result : FillResult ε} {buffer' : List UInt8}
    {offset' : Nat} {reader' : InterruptedReader ε}
    (h : reader.fill buffer offset = (result, buffer', offset', reader')) :
    buffer'.length = buffer.length ∧ offset' ≤ buffer.length ∧
      buffer'.take offset' ++ reader'.rest = buffer.take offset ++ reader.rest ∧
      reader'.failures ≤ reader.failures ∧
      Stops reader buffer.length offset' reader' result := by
  induction reader, buffer, offset using fill.induct with
  | case1 reader buffer offset hlt after hread =>
      rw [fill, if_pos hlt] at h
      split at h
      all_goals rename_i heq; rw [hread] at heq; cases heq
      obtain ⟨hrest, _, hnil, hfailures, _⟩ := read_spec hread
      cases h
      have hempty := (hnil rfl).resolve_left (by omega)
      rw [hempty] at hrest ⊢
      have hafter : reader'.rest = [] := hrest.symm
      exact ⟨rfl, hoffset, by rw [hafter], hfailures.le, hlt, hafter⟩
  | case2 reader buffer offset hlt byte bytes after hread ih =>
      rw [fill, if_pos hlt] at h
      split at h
      all_goals rename_i heq; rw [hread] at heq; cases heq
      obtain ⟨hrest, hlength, _, hfailures, _⟩ := read_spec hread
      have hfits : offset + (byte :: bytes).length ≤ buffer.length := by omega
      have hsame := length_overwrite hfits
      obtain ⟨hbuffer, hle, hstream, hless, hresult⟩ := ih (hsame ▸ hfits) h
      rw [hsame] at hbuffer hle hresult
      rw [take_overwrite hoffset, List.append_assoc, ← hrest] at hstream
      rw [hfailures] at hless
      refine ⟨hbuffer, hle, hstream, hless, ?_⟩
      cases result with
      | full => exact hresult
      | closed => exact hresult
      | failed error => exact Nat.lt_of_lt_of_eq hresult hfailures
  | case3 reader buffer offset hlt after hread ih =>
      rw [fill, if_pos hlt] at h
      split at h
      all_goals rename_i heq; rw [hread] at heq; cases heq
      obtain ⟨hrest, hfailures, _⟩ := read_spec hread
      obtain ⟨hbuffer, hle, hstream, hless, hresult⟩ := ih hoffset h
      rw [hrest] at hstream
      rw [hfailures] at hless
      refine ⟨hbuffer, hle, hstream, hless, ?_⟩
      cases result with
      | full => exact hresult
      | closed => exact hresult
      | failed error => exact Nat.lt_of_lt_of_eq hresult hfailures
  | case4 reader buffer offset hlt error after hread =>
      rw [fill, if_pos hlt] at h
      split at h
      all_goals rename_i heq; rw [hread] at heq; cases heq
      obtain ⟨hrest, hfailures⟩ := read_spec hread
      cases h
      exact ⟨rfl, hoffset, by rw [hrest], le_of_lt hfailures, hfailures⟩
  | case5 reader buffer offset hfull =>
      rw [fill, if_neg hfull] at h
      cases h
      exact ⟨rfl, hoffset, rfl, le_refl _, Nat.le_antisymm hoffset (Nat.le_of_not_lt hfull)⟩

end InterruptedReader

end Lib
