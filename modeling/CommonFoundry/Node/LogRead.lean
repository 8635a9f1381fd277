/-
# `CommonFoundry.Node.LogRead` — a record reads back, and a part of one does not

`encode_record` and the parser of `replay_log` are inverse: the parser accepts
exactly the bytes that a record was encoded to (`readRecord_blockRecord`), and
leaves what follows them.  A record that is cut short is refused at the field it
is cut in, before its checksum is looked at (`readRecord_take`).
-/
import CommonFoundry.Node.NodeRun

namespace CommonFoundry

open Lib Lib.Outcome

variable {P : Platform}

/-! ## Reading exactly so many bytes -/

theorem readExact_append {bytes rest : List UInt8} {count : Nat} {error : NodeError}
    (h : bytes.length = count) : readExact count (bytes ++ rest) error = .ok (bytes, rest) := by
  subst h
  rw [readExact, require_pos (by rw [List.length_append]; omega), ok_bind, List.take_left,
    List.drop_left]
  rfl

theorem readExact_short {bytes : List UInt8} {count : Nat} {error : NodeError}
    (h : bytes.length < count) : readExact count bytes error = fail error := by
  rw [readExact, require_neg (by omega), fail_bind]

/-! ## The header -/

section Header

variable (acceptedAt : UInt64) (blockLength : UInt32)

theorem length_recordHeader : (recordHeader acceptedAt blockLength).length = recordHeaderBytes := by
  simp only [recordHeader, List.length_append, length_leBytes16, length_leBytes32,
    length_leBytes64]
  rfl

theorem recordAcceptedAt_recordHeader :
    recordAcceptedAt (recordHeader acceptedAt blockLength) = acceptedAt := by
  have hslice : slice (recordHeader acceptedAt blockLength) 8 16 = leBytes64 acceptedAt := by
    rw [recordHeader, List.append_assoc]
    exact slice_append (by simp [recordMagic]) (by rw [length_leBytes64])
  rw [recordAcceptedAt, hslice, ofLe_leBytes64]
  exact UInt64.ofNat_toNat

theorem recordBlockLength_recordHeader :
    recordBlockLength (recordHeader acceptedAt blockLength) = blockLength.toNat := by
  have hslice : slice (recordHeader acceptedAt blockLength) 16 20 = leBytes32 blockLength := by
    rw [recordHeader, ← List.append_nil (_ ++ leBytes32 blockLength), List.append_assoc]
    exact slice_append (by simp [recordMagic]) (by rw [length_leBytes32])
  rw [recordBlockLength, hslice, ofLe_leBytes32]

theorem readRecordHeader_append {recordIndex : Nat} {rest : List UInt8}
    (h : blockLength.toNat ≤ maxBlockBytes) :
    readRecordHeader recordIndex (recordHeader acceptedAt blockLength ++ rest) =
      .ok (recordHeader acceptedAt blockLength, rest) := by
  have hmagic : slice (recordHeader acceptedAt blockLength) 0 4 = recordMagic := rfl
  have hversion : UInt16.ofNat (ofLe (slice (recordHeader acceptedAt blockLength) 4 6)) =
      recordVersion := rfl
  have hreserved : slice (recordHeader acceptedAt blockLength) 6 8 = [0, 0] := rfl
  simp only [readRecordHeader, readExact_append (length_recordHeader acceptedAt blockLength),
    ok_bind, recordBlockLength_recordHeader, hmagic, hversion, hreserved, ne_eq, not_true,
    or_self, not_false_iff, require_pos, gt_iff_lt, not_lt, h]
  rfl

end Header

/-! ## A whole record -/

/-- The parts of a record. -/
theorem encodeRecord_eq_ok {acceptedAt : UInt64} {canonical record : List UInt8}
    (h : encodeRecord P acceptedAt canonical = .ok record) :
    ∃ blockLength : UInt32, blockLength.toNat = canonical.length ∧
      canonical.length ≤ maxBlockBytes ∧
      record = recordHeader acceptedAt blockLength ++
        (canonical ++ (recordChecksum P (recordHeader acceptedAt blockLength ++ canonical)).1) := by
  simp only [encodeRecord, bind_eq_ok, require_eq_ok, pure_eq_ok] at h
  obtain ⟨_, hword, _, hlimit, rfl⟩ := h
  refine ⟨_, ?_, Nat.not_lt.mp hlimit, List.append_assoc ..⟩
  rw [UInt32.toNat_ofNat']
  exact Nat.mod_eq_of_lt hword

theorem readRecord_blockRecord {a : Acceptance} {record : List UInt8}
    (h : blockRecord P a = .ok record) (recordIndex : Nat) (rest : List UInt8) :
    ∃ canonical, encodeBlock P a.block = .ok canonical ∧
      readRecord P a.block.challenge.networkId recordIndex (record ++ rest) =
        .ok ({ acceptedAt := a.acceptedAt, block := a.block, canonical }, rest) := by
  obtain ⟨canonical, hencode, hrecord⟩ := blockRecord_eq_ok.mp h
  obtain ⟨blockLength, hlength, hlimit, rfl⟩ := encodeRecord_eq_ok hrecord
  have hchecksum : (recordChecksum P (recordHeader a.acceptedAt blockLength ++ canonical)).1.length =
      recordChecksumBytes := (recordChecksum P _).2
  refine ⟨canonical, hencode, ?_⟩
  rw [readRecord, List.append_assoc, readRecordHeader_append _ _ (hlength ▸ hlimit)]
  simp only [ok_bind, List.append_assoc, recordBlockLength_recordHeader,
    recordAcceptedAt_recordHeader, readExact_append hlength.symm,
    readExact_append hchecksum, require_pos,
    decodeBlock_encodeBlock hencode, hencode, mapErr_ok]
  rfl

/-! ## A record that is cut -/

/-- The three faults of a log that ends inside a record. -/
def RecordFault.Truncated (fault : RecordFault) : Prop :=
  fault = .truncatedHeader ∨ fault = .truncatedBlock ∨ fault = .truncatedChecksum

/-- A cut behind the first part of a string leaves that part. -/
theorem take_append_of_length_le {first second : List UInt8} {cut : Nat}
    (h : first.length ≤ cut) :
    (first ++ second).take cut = first ++ second.take (cut - first.length) := by
  rw [List.take_append, List.take_of_length_le h]

theorem readRecord_take {a : Acceptance} {record : List UInt8} (h : blockRecord P a = .ok record)
    (networkId : Bytes32) (recordIndex : Nat) {cut : Nat} (hcut : cut < record.length) :
    ∃ fault, RecordFault.Truncated fault ∧
      readRecord P networkId recordIndex (record.take cut) =
        fail (.corruptRecord recordIndex fault) := by
  obtain ⟨canonical, _, hrecord⟩ := blockRecord_eq_ok.mp h
  obtain ⟨blockLength, hlength, hlimit, rfl⟩ := encodeRecord_eq_ok hrecord
  have hheader := length_recordHeader a.acceptedAt blockLength
  have hchecksum : (recordChecksum P (recordHeader a.acceptedAt blockLength ++ canonical)).1.length =
      recordChecksumBytes := (recordChecksum P _).2
  rw [List.length_append, List.length_append, hchecksum] at hcut
  by_cases hinHeader : cut < recordHeaderBytes
  · refine ⟨.truncatedHeader, .inl rfl, ?_⟩
    rw [readRecord, readRecordHeader, readExact_short, fail_bind, fail_bind]
    exact lt_of_le_of_lt (List.length_take_le _ _) hinHeader
  rw [take_append_of_length_le (by omega), readRecord,
    readRecordHeader_append _ _ (hlength ▸ hlimit)]
  simp only [ok_bind, recordBlockLength_recordHeader, hheader, hlength]
  by_cases hinBlock : cut < recordHeaderBytes + canonical.length
  · refine ⟨.truncatedBlock, .inr (.inl rfl), ?_⟩
    rw [readExact_short, fail_bind]
    exact lt_of_le_of_lt (List.length_take_le _ _) (by omega)
  · refine ⟨.truncatedChecksum, .inr (.inr rfl), ?_⟩
    rw [take_append_of_length_le (by omega), readExact_append rfl, ok_bind, readExact_short,
      fail_bind]
    exact lt_of_le_of_lt (List.length_take_le _ _) (by omega)

end CommonFoundry
