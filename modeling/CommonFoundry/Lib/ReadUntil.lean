/-
# `CommonFoundry.Lib.ReadUntil` — reading until the bytes decide

A loop that reads a stream into a growing buffer until a scan of the buffer decides.
`scan` says what it decides, or nothing while it needs more.  A scan is stable when more
bytes never change its mind; then what the loop decides is what the scan says of the whole
stream (`readUntil_fst`), however the stream is cut.

How far the loop has read by then does depend on the cuts.  It never gets further than one
read beyond an undecided buffer (`length_readUntil_le`), and with the right cuts it gets as
far as that (`readUntil_cutAt`).

The scan that looks for a pattern, `windowPosition`, is stable.
-/
import CommonFoundry.Lib.ChunkedReader

namespace Lib

/-! ## Patterns -/

/-- A pattern that fits into the front of a list begins there as it begins in the list. -/
theorem prefix_append_iff {α : Type} {pattern bytes rest : List α}
    (h : pattern.length ≤ bytes.length) :
    pattern <+: bytes ++ rest ↔ pattern <+: bytes :=
  ⟨fun hbegins => List.prefix_of_prefix_length_le hbegins (List.prefix_append bytes rest) h,
    fun hbegins => hbegins.trans (List.prefix_append bytes rest)⟩

section

variable {α : Type} [DecidableEq α] {pattern bytes rest : List α} {i : Nat}

/-- `windows(n).position(|window| window == pattern)`, with `n` the length of the pattern. -/
def windowPosition (pattern : List α) : List α → Option Nat
  | [] => none
  | a :: bytes =>
      if pattern <+: a :: bytes then some 0 else (windowPosition pattern bytes).map (· + 1)

theorem windowPosition_le (h : windowPosition pattern bytes = some i) :
    i + pattern.length ≤ bytes.length := by
  induction bytes generalizing i with
  | nil => cases h
  | cons a bytes ih =>
      rw [windowPosition] at h
      split at h
      · next hbegins =>
          cases h
          rw [Nat.zero_add]
          exact hbegins.length_le
      · obtain ⟨j, hj, rfl⟩ := Option.map_eq_some_iff.mp h
        have hle := ih hj
        rw [List.length_cons]
        omega

/-- More bytes do not move the first occurrence. -/
theorem windowPosition_append (h : windowPosition pattern bytes = some i) :
    windowPosition pattern (bytes ++ rest) = some i := by
  induction bytes generalizing i with
  | nil => cases h
  | cons a bytes ih =>
      have hle := windowPosition_le h
      have hfits : pattern <+: a :: bytes ++ rest ↔ pattern <+: a :: bytes :=
        prefix_append_iff (by omega)
      rw [windowPosition] at h
      rw [List.cons_append, windowPosition, ← List.cons_append]
      simp only [hfits]
      split at h
      · next hbegins =>
          rw [if_pos hbegins]
          exact h
      · next hbegins =>
          obtain ⟨j, hj, rfl⟩ := Option.map_eq_some_iff.mp h
          rw [if_neg hbegins, ih hj]
          rfl

/-- An occurrence inside the front of a list is found there. -/
theorem windowPosition_of_append (h : windowPosition pattern (bytes ++ rest) = some i)
    (hle : i + pattern.length ≤ bytes.length) (hpattern : pattern ≠ []) :
    windowPosition pattern bytes = some i := by
  have hpos := List.length_pos_iff.mpr hpattern
  induction bytes generalizing i with
  | nil =>
      rw [List.length_nil] at hle
      omega
  | cons a bytes ih =>
      have hfits : pattern <+: a :: bytes ++ rest ↔ pattern <+: a :: bytes :=
        prefix_append_iff (by omega)
      rw [List.cons_append, windowPosition, ← List.cons_append] at h
      rw [windowPosition]
      simp only [hfits] at h
      split at h
      · next hbegins =>
          rw [if_pos hbegins]
          exact h
      · next hbegins =>
          obtain ⟨j, hj, rfl⟩ := Option.map_eq_some_iff.mp h
          rw [List.length_cons] at hle
          rw [if_neg hbegins, ih hj (by omega)]
          rfl

end

/-! ## The loop -/

/-- What a scan has decided stays decided. -/
def Stable {β : Type} (scan : List UInt8 → Option β) : Prop :=
  ∀ ⦃bytes : List UInt8⦄ ⦃b : β⦄ (rest : List UInt8), scan bytes = some b →
    scan (bytes ++ rest) = some b

namespace ChunkedReader

theorem length_rest_read_lt {reader : ChunkedReader} {n : Nat} (h : (reader.read n).1 ≠ []) :
    (reader.read n).2.rest.length < reader.rest.length := by
  have hpos := List.length_pos_iff.mpr h
  have happend := congrArg List.length (read_append reader n)
  rw [List.length_append] at happend
  omega

variable {β : Type} (scan : List UInt8 → Option β) (size : Nat)

/-- Reads pieces of at most `size` bytes behind what is in the buffer, until the scan decides
or the stream ends. -/
def readUntil (buffer : List UInt8) (reader : ChunkedReader) :
    Option β × List UInt8 × ChunkedReader :=
  match scan buffer with
  | some b => (some b, buffer, reader)
  | none =>
      if _hread : (reader.read size).1 = [] then
        (none, buffer, (reader.read size).2)
      else
        readUntil (buffer ++ (reader.read size).1) (reader.read size).2
termination_by reader.rest.length
decreasing_by exact length_rest_read_lt _hread

variable {scan size} {buffer : List UInt8} {reader : ChunkedReader}

/-- The loop decides what the scan says of the whole stream. -/
theorem readUntil_fst (hstable : Stable scan) (hsize : size ≠ 0) :
    (readUntil scan size buffer reader).1 = scan (buffer ++ reader.rest) := by
  fun_induction readUntil scan size buffer reader with
  | case1 buffer reader b hscan => exact (hstable reader.rest hscan).symm
  | case2 buffer reader hscan hread =>
      have hend := (read_eq_nil.mp hread).resolve_left hsize
      rw [hend, List.append_nil]
      exact hscan.symm
  | case3 buffer reader hscan hread ih => rw [ih, List.append_assoc, read_append]

/-- Nothing of the stream is lost. -/
theorem readUntil_append :
    (readUntil scan size buffer reader).2.1 ++ (readUntil scan size buffer reader).2.2.rest =
      buffer ++ reader.rest := by
  fun_induction readUntil scan size buffer reader with
  | case1 buffer reader b hscan => rfl
  | case2 buffer reader hscan hread =>
      have happend := read_append reader size
      rw [hread, List.nil_append] at happend
      rw [happend]
  | case3 buffer reader hscan hread ih => rw [ih, List.append_assoc, read_append]

/-- The buffer goes at most one read beyond bytes that left the scan undecided. -/
theorem length_readUntil_le {bound : Nat} (hbound : ∀ (front rest : List UInt8),
      buffer ++ reader.rest = front ++ rest → scan front = none → front.length + size ≤ bound)
    (hbuffer : buffer.length ≤ bound) :
    (readUntil scan size buffer reader).2.1.length ≤ bound := by
  fun_induction readUntil scan size buffer reader with
  | case1 buffer reader b hscan => exact hbuffer
  | case2 buffer reader hscan hread => exact hbuffer
  | case3 buffer reader hscan hread ih =>
      refine ih (fun front rest happend => hbound front rest ?_) ?_
      · rw [← happend, List.append_assoc, read_append]
      · have hle := length_read_le reader size
        have hfront := hbound buffer reader.rest rfl hscan
        rw [List.length_append]
        omega

/-- What was decided was decided by the buffer. -/
theorem scan_readUntil {b : β} (h : (readUntil scan size buffer reader).1 = some b) :
    scan (readUntil scan size buffer reader).2.1 = some b := by
  fun_induction readUntil scan size buffer reader with
  | case1 buffer reader b' hscan => exact hscan.trans h
  | case2 buffer reader hscan hread => cases h
  | case3 buffer reader hscan hread ih => exact ih h

/-- One byte a read, `count` times, and then reads of at most `last + 1` bytes. -/
def cutAt (count last : Nat) (i : Nat) : Nat := if i < count then 0 else last

/-- A stream that is decided with its byte number `count + 1`, and cut so: the last read goes
as far as it can. -/
theorem readUntil_cutAt (hstable : Stable scan) (hsize : size ≠ 0) {count last : Nat} {b : β}
    {rest : List UInt8} (hbefore : ∀ k ≤ count, scan (buffer ++ rest.take k) = none)
    (hscan : scan (buffer ++ rest.take (count + 1)) = some b) :
    (readUntil scan size buffer ⟨rest, cutAt count last⟩).2.1 =
      buffer ++ rest.take (count + min size (last + 1)) := by
  induction count generalizing buffer rest with
  | zero =>
      have hnone : scan buffer = none := by
        have h := hbefore 0 (Nat.le_refl 0)
        rwa [List.take_zero, List.append_nil] at h
      have hne : rest ≠ [] := by
        rintro rfl
        rw [List.take_nil, List.append_nil, hnone] at hscan
        cases hscan
      have hread : ((ChunkedReader.mk rest (cutAt 0 last)).read size).1 ≠ [] :=
        fun h => (read_eq_nil.mp h).elim hsize hne
      -- the read covers the byte that decides
      obtain ⟨more, hmore⟩ : ∃ more, rest.take (min size (last + 1)) = rest.take 1 ++ more :=
        ⟨_, (List.prefix_iff_eq_append.mp (List.take_prefix_take_left (by omega))).symm⟩
      have hdecided : scan (buffer ++ rest.take (min size (last + 1))) = some b := by
        rw [hmore, ← List.append_assoc]
        exact hstable more hscan
      rw [readUntil, hnone]
      simp only [dif_neg hread]
      show (readUntil scan size (buffer ++ rest.take (min size (last + 1))) _).2.1 = _
      rw [readUntil, hdecided, Nat.zero_add]
  | succ count ih =>
      have hnone : scan buffer = none := by
        have h := hbefore 0 (Nat.zero_le _)
        rwa [List.take_zero, List.append_nil] at h
      cases rest with
      | nil =>
          rw [List.take_nil, List.append_nil, hnone] at hscan
          cases hscan
      | cons a rest =>
          have hsize1 : min size (0 + 1) = 1 := by omega
          have hread : (ChunkedReader.mk (a :: rest) (cutAt (count + 1) last)).read size =
              ([a], ⟨rest, cutAt count last⟩) := by
            have hchunk : (fun i => cutAt (count + 1) last (i + 1)) = cutAt count last := by
              funext i
              simp only [cutAt, Nat.add_lt_add_iff_right]
            have hfirst : cutAt (count + 1) last 0 = 0 := if_pos (Nat.succ_pos count)
            simp only [read, hfirst, hsize1, hchunk]
            rfl
          rw [readUntil, hnone]
          simp only [hread, List.cons_ne_nil, dite_false]
          rw [ih, List.append_assoc, Nat.add_right_comm count 1 _]
          · rfl
          · intro k hk
            have h := hbefore (k + 1) (by omega)
            rwa [List.take_succ_cons, ← List.singleton_append, ← List.append_assoc] at h
          · rwa [List.take_succ_cons, ← List.singleton_append, ← List.append_assoc] at hscan

end ChunkedReader

end Lib
