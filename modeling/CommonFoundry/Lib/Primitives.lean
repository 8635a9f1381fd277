/-
# `CommonFoundry.Lib.Primitives` — arrays and words, read and written

The fields that every byte format is made of: so many bytes, an array of a fixed
length, a little-endian word.  A reader of them fails only when too little is
left (`short needed remaining` is its error); a writer of them is whatever
appends bytes to an output (`Puts`).

Each field has the three properties of this library: it is read back (`Codes`),
what is read is what would be written (`Unreads`), and reading it never aborts
(`Total`), although it takes a slice and copies it into an array, which would
abort out of range.
-/
import CommonFoundry.Lib.Canonical

namespace Lib

open Outcome

/-! ## Slices -/

/-- The bytes from position `i` up to position `j`. -/
def slice (bytes : List UInt8) (i j : Nat) : List UInt8 := (bytes.drop i).take (j - i)

section

variable {ε : Type}

/-- `bytes[i..j]`, which aborts out of range. -/
def sliceAt (bytes : List UInt8) (i j : Nat) : Outcome ε (List UInt8) :=
  if i ≤ j ∧ j ≤ bytes.length then .ok (slice bytes i j) else .error .panic

/-- `bytes[i]`, which aborts out of range. -/
def byteAt (bytes : List UInt8) (i : Nat) : Outcome ε UInt8 :=
  match bytes[i]? with
  | some byte => .ok byte
  | none => .error .panic

/-- A copy into an array of `n` bytes, which aborts on another length. -/
def toArray (n : Nat) (value : List UInt8) : Outcome ε (Bytes n) :=
  if h : value.length = n then .ok ⟨value, h⟩ else .error .panic

theorem sliceAt_eq {bytes : List UInt8} {i j : Nat} (hij : i ≤ j) (hj : j ≤ bytes.length) :
    (sliceAt bytes i j : Outcome ε (List UInt8)) = .ok (slice bytes i j) := if_pos ⟨hij, hj⟩

theorem noPanic_sliceAt {bytes : List UInt8} {i j : Nat} (hij : i ≤ j) (hj : j ≤ bytes.length) :
    NoPanic (sliceAt bytes i j : Outcome ε (List UInt8)) := by
  rw [sliceAt_eq hij hj]
  exact .ok

theorem noPanic_byteAt {bytes : List UInt8} {i : Nat} (hi : i < bytes.length) :
    NoPanic (byteAt bytes i : Outcome ε UInt8) := by
  rw [byteAt, List.getElem?_eq_getElem hi]
  exact .ok

/-- A slice that starts and ends where a part of the string does. -/
theorem slice_append {pre part rest : List UInt8} {i j : Nat} (hi : pre.length = i)
    (hj : i + part.length = j) : slice (pre ++ (part ++ rest)) i j = part := by
  subst hi
  rw [slice, List.drop_left]
  exact List.take_left' (by omega)

theorem sliceAt_append {pre part rest : List UInt8} {i j : Nat} (hi : pre.length = i)
    (hj : i + part.length = j) :
    (sliceAt (pre ++ (part ++ rest)) i j : Outcome ε (List UInt8)) = .ok part := by
  rw [sliceAt_eq (by omega) (by simp only [List.length_append]; omega), slice_append hi hj]

/-- A byte that starts where a part of the string does. -/
theorem byteAt_append {pre rest : List UInt8} {byte : UInt8} {i : Nat} (hi : pre.length = i) :
    (byteAt (pre ++ byte :: rest) i : Outcome ε UInt8) = .ok byte := by
  subst hi
  rw [byteAt, List.getElem?_append_right le_rfl, Nat.sub_self]
  rfl

/-- A string with room for `n` bytes starts with an array of `n` bytes. -/
theorem exists_array_append (bytes : List UInt8) (n : Nat) (h : n ≤ bytes.length) :
    ∃ part : Bytes n, ∃ rest, bytes = part.1 ++ rest ∧ bytes.length = n + rest.length := by
  refine ⟨⟨bytes.take n, List.length_take_of_le h⟩, bytes.drop n,
    (List.take_append_drop n bytes).symm, ?_⟩
  rw [List.length_drop]
  omega

end

/-! ## Words as their bytes -/

/-- The bytes of a word, written back. -/
theorem toLe_ofLe_mod {n size : Nat} (value : Bytes n) (hsize : size = 256 ^ n) :
    toLe n (ofLe value.1 % size) = value.1 := by
  have hlt := ofLe_lt value.1
  rw [value.2, ← hsize] at hlt
  rw [Nat.mod_eq_of_lt hlt]
  obtain ⟨value, rfl⟩ := value
  exact toLe_ofLe value

theorem singleton_ofLe (value : Bytes 1) : [UInt8.ofNat (ofLe value.1)] = value.1 := by
  have hbytes := toLe_ofLe_mod value (show 2 ^ 8 = 256 ^ 1 from rfl)
  rwa [← UInt8.toNat_ofNat', toLe, toLe, UInt8.ofNat_toNat] at hbytes

theorem leBytes16_ofLe (value : Bytes 2) : leBytes16 (UInt16.ofNat (ofLe value.1)) = value.1 := by
  rw [leBytes16, UInt16.toNat_ofNat', toLe_ofLe_mod value (by decide)]

theorem leBytes32_ofLe (value : Bytes 4) : leBytes32 (UInt32.ofNat (ofLe value.1)) = value.1 := by
  rw [leBytes32, UInt32.toNat_ofNat', toLe_ofLe_mod value (by decide)]

theorem leBytes64_ofLe (value : Bytes 8) : leBytes64 (UInt64.ofNat (ofLe value.1)) = value.1 := by
  rw [leBytes64, UInt64.toNat_ofNat', toLe_ofLe_mod value (by decide)]

namespace Codec

variable {ω ε α : Type}

/-! ## Readers -/

section Readers

variable (short : Nat → Nat → ε)

/-- The next `n` bytes. -/
def takeBytes (n : Nat) : Reader ε (List UInt8) := fun remaining => do
  require (¬remaining.length < n) (short n remaining.length)
  let value ← sliceAt remaining 0 n
  pure (value, remaining.drop n)

/-- The next `n` bytes, as an array. -/
def takeArray (n : Nat) : Reader ε (Bytes n) := do
  let value ← takeBytes short n
  (toArray n value : Outcome ε (Bytes n))

def takeU8 : Reader ε UInt8 := do
  let byte ← takeArray short 1
  pure (UInt8.ofNat (ofLe byte.1))

def takeU16 : Reader ε UInt16 := do
  let value ← takeArray short 2
  pure (UInt16.ofNat (ofLe value.1))

def takeU32 : Reader ε UInt32 := do
  let value ← takeArray short 4
  pure (UInt32.ofNat (ofLe value.1))

def takeU64 : Reader ε UInt64 := do
  let value ← takeArray short 8
  pure (UInt64.ofNat (ofLe value.1))

theorem takeBytes_eq_ok {n : Nat} {input value rest : List UInt8} :
    takeBytes short n input = .ok (value, rest) ↔ value.length = n ∧ input = value ++ rest := by
  simp only [takeBytes, bind_eq_ok, require_eq_ok, pure_eq_ok, Prod.mk.injEq]
  constructor
  · rintro ⟨_, hle, _, hslice, rfl, rfl⟩
    rw [sliceAt_eq (Nat.zero_le _) (by omega)] at hslice
    obtain rfl := Except.ok.inj hslice
    rw [slice, List.drop_zero, Nat.sub_zero]
    exact ⟨List.length_take_of_le (by omega), (List.take_append_drop ..).symm⟩
  · rintro ⟨rfl, rfl⟩
    have hle : value.length ≤ (value ++ rest).length := by
      rw [List.length_append]
      exact Nat.le_add_right ..
    refine ⟨(), Nat.not_lt.mpr hle, value, ?_, rfl, List.drop_left⟩
    rw [sliceAt_eq (Nat.zero_le _) hle]
    exact congrArg Except.ok (List.take_left' rfl)

theorem takeArray_eq_ok {n : Nat} {input rest : List UInt8} {value : Bytes n} :
    takeArray short n input = .ok (value, rest) ↔ input = value.1 ++ rest := by
  have harray : ∀ (bytes mid : List UInt8) (h : bytes.length = n),
      (liftM (toArray n bytes : Outcome ε (Bytes n)) : Reader ε (Bytes n)) mid =
        .ok (⟨bytes, h⟩, mid) := by
    intro bytes mid h
    rw [toArray, dif_pos h]
    rfl
  rw [takeArray, bind_apply, bind_eq_ok]
  constructor
  · rintro ⟨⟨bytes, mid⟩, hbytes, htake⟩
    obtain ⟨hlength, rfl⟩ := (takeBytes_eq_ok short).mp hbytes
    rw [harray bytes mid hlength] at htake
    obtain ⟨rfl, rfl⟩ := Prod.mk.inj (Except.ok.inj htake)
    rfl
  · rintro rfl
    exact ⟨(value.1, rest), (takeBytes_eq_ok short).mpr ⟨value.2, rfl⟩, harray _ _ value.2⟩

end Readers

/-! ## Writers -/

variable {S : Sink ω} {out : ω → List UInt8} {put : List UInt8 → Writing ω ε Unit}

/-- `put` appends bytes: exactly these when it succeeds, and it succeeds wherever
there is room. -/
structure Puts (S : Sink ω) (out : ω → List UInt8) (put : List UInt8 → Writing ω ε Unit) : Prop where
  emits : ∀ value, Emits S (put value) value
  appends : ∀ value w u w', put value w = .ok (u, w') → out w' = out w ++ value

/-- To write fixed bytes is to be read by whatever reads exactly them. -/
theorem Puts.codes (hput : Puts S out put) {value : List UInt8} {dec : Reader ε α} {a : α}
    (h : Reads dec value a) : Codes out (put value) dec a :=
  fun w u w' hw => ⟨value, hput.appends value w u w' hw, h⟩

/-! ## What is written is read -/

section

variable (short : Nat → Nat → ε)

theorem reads_bytes (value : List UInt8) : Reads (takeBytes short value.length) value value :=
  fun _ => (takeBytes_eq_ok short).mpr ⟨rfl, rfl⟩

theorem reads_array {n : Nat} (value : Bytes n) : Reads (takeArray short n) value.1 value :=
  fun _ => (takeArray_eq_ok short).mpr rfl

theorem reads_u8 (value : UInt8) : Reads (takeU8 short) [value] value := by
  have hread := (reads_array short ⟨[value], rfl⟩).map fun byte => UInt8.ofNat (ofLe byte.1)
  rw [ofLe, ofLe, Nat.mul_zero, Nat.add_zero, UInt8.ofNat_toNat] at hread
  exact hread

theorem reads_u16 (value : UInt16) : Reads (takeU16 short) (leBytes16 value) value := by
  have hread := (reads_array short ⟨leBytes16 value, length_leBytes16 value⟩).map
    fun word => UInt16.ofNat (ofLe word.1)
  rw [ofLe_leBytes16, UInt16.ofNat_toNat] at hread
  exact hread

theorem reads_u32 (value : UInt32) : Reads (takeU32 short) (leBytes32 value) value := by
  have hread := (reads_array short ⟨leBytes32 value, length_leBytes32 value⟩).map
    fun word => UInt32.ofNat (ofLe word.1)
  rw [ofLe_leBytes32, UInt32.ofNat_toNat] at hread
  exact hread

theorem reads_u64 (value : UInt64) : Reads (takeU64 short) (leBytes64 value) value := by
  have hread := (reads_array short ⟨leBytes64 value, length_leBytes64 value⟩).map
    fun word => UInt64.ofNat (ofLe word.1)
  rw [ofLe_leBytes64, UInt64.ofNat_toNat] at hread
  exact hread

/-- A word is read from exactly its bytes. -/
theorem takeU32_eq_ok {input rest : List UInt8} {value : UInt32} :
    takeU32 short input = .ok (value, rest) ↔ input = leBytes32 value ++ rest := by
  constructor
  · intro h
    rw [takeU32, bind_apply, bind_eq_ok] at h
    obtain ⟨⟨word, mid⟩, hword, hvalue⟩ := h
    cases hvalue
    rw [leBytes32_ofLe]
    exact (takeArray_eq_ok short).mp hword
  · rintro rfl
    exact reads_u32 short value rest

theorem takeU64_eq_ok {input rest : List UInt8} {value : UInt64} :
    takeU64 short input = .ok (value, rest) ↔ input = leBytes64 value ++ rest := by
  constructor
  · intro h
    rw [takeU64, bind_apply, bind_eq_ok] at h
    obtain ⟨⟨word, mid⟩, hword, hvalue⟩ := h
    cases hvalue
    rw [leBytes64_ofLe]
    exact (takeArray_eq_ok short).mp hword
  · rintro rfl
    exact reads_u64 short value rest

/-! ## What is read is what is written -/

/-- No condition on the value read. -/
abbrev anyValue {α : Type} (_ : α) : Prop := True

variable (hput : Puts S out put)
include hput

theorem Puts.unreads_bytes (n : Nat) :
    Unreads S (takeBytes short n) put fun value => value.length = n := by
  intro input value rest h
  obtain ⟨hlength, rfl⟩ := (takeBytes_eq_ok short).mp h
  exact ⟨hlength, value, rfl, hput.emits value⟩

theorem Puts.unreads_array (n : Nat) :
    Unreads S (takeArray short n) (fun value => put value.1) anyValue := by
  intro input value rest h
  obtain rfl := (takeArray_eq_ok short).mp h
  exact ⟨trivial, value.1, rfl, hput.emits value.1⟩

theorem Puts.unreads_u8 : Unreads S (takeU8 short) (fun value => put [value]) anyValue :=
  (hput.unreads_array short 1).map (fun byte => by rw [singleton_ofLe]) fun _ _ => trivial

theorem Puts.unreads_u16 :
    Unreads S (takeU16 short) (fun value => put (leBytes16 value)) anyValue :=
  (hput.unreads_array short 2).map (fun word => by rw [leBytes16_ofLe]) fun _ _ => trivial

theorem Puts.unreads_u32 :
    Unreads S (takeU32 short) (fun value => put (leBytes32 value)) anyValue :=
  (hput.unreads_array short 4).map (fun word => by rw [leBytes32_ofLe]) fun _ _ => trivial

theorem Puts.unreads_u64 :
    Unreads S (takeU64 short) (fun value => put (leBytes64 value)) anyValue :=
  (hput.unreads_array short 8).map (fun word => by rw [leBytes64_ofLe]) fun _ _ => trivial

end

/-! ## Reading never aborts -/

section

variable (short : Nat → Nat → ε)

theorem total_bytes (n : Nat) : Total (takeBytes short n) := by
  intro input
  refine NoPanic.require.bind fun _ hle => ?_
  have hle := require_eq_ok.mp hle
  exact (noPanic_sliceAt (Nat.zero_le _) (by omega)).bind fun _ _ => .ok

theorem total_array (n : Nat) : Total (takeArray short n) := by
  intro input
  rw [takeArray, bind_apply]
  refine (total_bytes short n input).bind fun read hread => ?_
  obtain ⟨hlength, _⟩ := (takeBytes_eq_ok short).mp hread
  rw [toArray, dif_pos hlength]
  exact .ok

theorem total_u8 : Total (takeU8 short) := (total_array short 1).bind fun _ => .pure _

theorem total_u16 : Total (takeU16 short) := (total_array short 2).bind fun _ => .pure _

theorem total_u32 : Total (takeU32 short) := (total_array short 4).bind fun _ => .pure _

theorem total_u64 : Total (takeU64 short) := (total_array short 8).bind fun _ => .pure _

end

end Codec

end Lib
