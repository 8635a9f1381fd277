/-
# `CommonFoundry.Consensus.WireSize` — how long an encoding is, and that it fits

The writer refuses a value only for want of room.  `Appends enc size` says that
`enc` appends exactly so many bytes wherever there is room for them; sizes of the
parts add up to the size of the whole, and a payload whose size is within its
limit is written.

So a block without transactions is always encoded (`encodeBlock_of_empty`), and
whatever is encoded as a block is within the wire limit
(`encodeBlock_length_le`).
-/
import CommonFoundry.Consensus.WireRoundTrip

namespace CommonFoundry

open Lib Lib.Outcome Lib.Codec

/-- With room for so many bytes, `enc` appends so many. -/
def Appends (enc : Write) (size : Nat) : Prop :=
  ∀ writer : Writer, writer.bytes.length + size ≤ writer.limit →
    ∃ bytes, bytes.length = size ∧ enc writer = .ok ((), { writer with
      bytes := writer.bytes ++ bytes })

/-- The size of a proof's payload. -/
def BlockProof.payloadSize : BlockProof → Nat
  | .v1Legacy _ => 145
  | .v2Reference _ => 177

theorem BlockProof.payloadSize_le (proof : BlockProof) : proof.payloadSize ≤ 177 := by
  cases proof with
  | v1Legacy _ => exact Nat.le_of_ble_eq_true rfl
  | v2Reference _ => exact Nat.le_refl 177

namespace Appends

theorem put (value : List UInt8) : Appends (Writer.put value) value.length := by
  intro writer hroom
  have hfits : ¬writer.bytes.length + value.length > writer.limit := Nat.not_lt.mpr hroom
  exact ⟨value, rfl, by simp only [Writer.put, require_pos hfits]; rfl⟩

theorem array {n : Nat} (value : Bytes n) : Appends (Writer.put value.1) n := by
  have h := put value.1
  rwa [value.2] at h

theorem u8 (value : UInt8) : Appends (Writer.u8 value) 1 := put [value]

theorem u32 (value : UInt32) : Appends (Writer.u32 value) 4 := by
  have h := put (leBytes32 value)
  rwa [length_leBytes32] at h

theorem u64 (value : UInt64) : Appends (Writer.u64 value) 8 := by
  have h := put (leBytes64 value)
  rwa [length_leBytes64] at h

theorem done : Appends (pure ()) 0 := by
  intro writer _
  exact ⟨[], rfl, by rw [List.append_nil]; rfl⟩

/-- One program after the other: the sizes add up. -/
theorem seq {enc enc' : Write} {size size' : Nat} (h : Appends enc size)
    (h' : Appends enc' size') : Appends (enc >>= fun _ => enc') (size + size') := by
  intro writer hroom
  obtain ⟨bytes, hlen, henc⟩ := h writer (by omega)
  obtain ⟨bytes', hlen', henc'⟩ := h' { writer with bytes := writer.bytes ++ bytes } (by
    show (writer.bytes ++ bytes).length + size' ≤ writer.limit
    rw [List.length_append]
    omega)
  refine ⟨bytes ++ bytes', by rw [List.length_append, hlen, hlen'], ?_⟩
  rw [bind_apply, henc, ok_bind]
  simp only [henc', List.append_assoc]

/-- A check that passes writes nothing. -/
theorem after {α : Type} {check : Outcome WireError α} {value : α} {enc : α → Write} {size : Nat}
    (hcheck : check = .ok value) (h : Appends (enc value) size) :
    Appends ((liftM check : StateT Writer (Outcome WireError) α) >>= enc) size := by
  subst hcheck
  exact h

theorem count {count maximum : Nat} (field : String) (hle : count ≤ maximum)
    (hlt : count < 2 ^ 32) : Appends (Writer.count count maximum field) 4 := by
  have hword : lengthWord count = .ok (UInt32.ofNat count) := by
    rw [lengthWord, if_pos hlt, okOr_some]
  exact after (require_pos (Nat.not_lt.mpr hle)) (after hword (u32 _))

theorem sizedBytes {value : List UInt8} {maximumFrameBytes : Nat} (object : String)
    (hle : wireHeaderBytes + value.length ≤ maximumFrameBytes) (hlt : value.length < 2 ^ 32) :
    Appends (Writer.sizedBytes value maximumFrameBytes object) (4 + value.length) := by
  have hword : lengthWord value.length = .ok (UInt32.ofNat value.length) := by
    rw [lengthWord, if_pos hlt, okOr_some]
  exact after (require_pos (Nat.not_lt.mpr hle)) (after hword ((u32 _).seq (put _)))

/-- Values of one size, one after the other. -/
theorem many {α : Type} {enc : α → Write} {size : Nat} (h : ∀ a, Appends (enc a) size)
    (values : List α) : Appends (writeMany enc values) (values.length * size) := by
  induction values with
  | nil => rw [List.length_nil, Nat.zero_mul]; exact done
  | cons a rest ih =>
      rw [List.length_cons, Nat.succ_mul, Nat.add_comm]
      exact (h a).seq ih

/-- A payload within its limit is written. -/
theorem payload {enc : Write} {size limit : Nat} (h : Appends enc size) (object : String)
    (hle : size ≤ limit) :
    ∃ bytes, bytes.length = size ∧ Writer.payload limit object enc = .ok bytes := by
  obtain ⟨bytes, hlen, henc⟩ := h (Writer.new limit object) (by
    show 0 + size ≤ limit
    omega)
  exact ⟨bytes, hlen, by rw [Writer.payload, henc]; rfl⟩

/-! ## The records of a block -/

theorem output (output : TxOutput) : Appends (encodeOutput output) 49 := by
  obtain ⟨value, lock, spendableHeight⟩ := output
  cases lock with
  | key owner => exact (u64 value).seq ((u8 0).seq ((array owner).seq (u64 spendableHeight)))
  | inferenceChannel channelId =>
      exact (u64 value).seq ((u8 1).seq ((array channelId).seq (u64 spendableHeight)))

theorem challenge (challenge : BlockChallenge) : Appends (encodeChallenge challenge) 144 :=
  (array _).seq ((array _).seq ((array _).seq ((u64 _).seq ((u64 _).seq (array _)))))

theorem proof (proof : BlockProof) (networkId : Bytes32) :
    Appends (writeProof proof networkId) proof.payloadSize := by
  cases proof with
  | v1Legacy proof =>
      exact (u8 _).seq ((array _).seq ((u32 _).seq ((u32 _).seq ((u64 _).seq ((array _).seq
        ((array _).seq (array _)))))))
  | v2Reference proof =>
      exact (u8 _).seq ((array _).seq ((u32 _).seq ((u32 _).seq ((u64 _).seq ((array _).seq
        ((array _).seq ((array _).seq (array _))))))))

theorem blockProof (proof : BlockProof) (networkId : Bytes32) :
    Appends (writeBlockProof proof networkId) (4 + proof.payloadSize) := by
  have hsize := proof.payloadSize_le
  have hlimit : payloadLimit maxProofBytes = 262128 := rfl
  have hmax : maxProofBytes = 262144 := rfl
  have hheader : wireHeaderBytes = 16 := rfl
  have hroom : proof.payloadSize ≤ payloadLimit maxProofBytes := by omega
  obtain ⟨bytes, hlen, hpayload⟩ := (Appends.proof proof networkId).payload "ForgeMatrix proof" hroom
  have hframe : wireHeaderBytes + bytes.length ≤ maxProofBytes := by omega
  have hwrite := sizedBytes "ForgeMatrix proof" hframe (by omega)
  rw [hlen] at hwrite
  exact after hpayload hwrite

theorem coinbase {coinbase : Coinbase} (h : coinbase.outputs.length ≤ maxCoinbaseOutputs) :
    Appends (encodeCoinbase coinbase) (12 + coinbase.outputs.length * 49) := by
  have hmax : maxCoinbaseOutputs = 3 := rfl
  have hsize : 12 + coinbase.outputs.length * 49 =
      8 + (4 + coinbase.outputs.length * 49) := by omega
  rw [hsize]
  exact (u64 _).seq ((count _ h (by omega)).seq (many output _))

end Appends

/-! ## Blocks -/

section

variable {P : Platform} {block : Block}

/-- A block without transactions is encoded, whatever its header, proof and
coinbase outputs are. -/
theorem encodeBlock_of_empty (htransactions : block.transactions = [])
    (houtputs : block.coinbase.outputs.length ≤ maxCoinbaseOutputs) :
    ∃ bytes, encodeBlock P block = .ok bytes := by
  have hmax : maxCoinbaseOutputs = 3 := rfl
  have hsize := block.proof.payloadSize_le
  have hwrite : Appends (writeBlock block) (4 + (144 + (4 + block.proof.payloadSize +
      (12 + block.coinbase.outputs.length * 49 + (4 + 0))))) := by
    rw [writeBlock, htransactions]
    exact (Appends.u32 _).seq ((Appends.challenge _).seq ((Appends.blockProof _ _).seq
      ((Appends.coinbase houtputs).seq ((Appends.count _ (Nat.zero_le _) (by decide)).seq
        Appends.done))))
  have hlimit : payloadLimit maxBlockBytes = 1048560 := rfl
  have hroom : 4 + (144 + (4 + block.proof.payloadSize +
      (12 + block.coinbase.outputs.length * 49 + (4 + 0)))) ≤ payloadLimit maxBlockBytes := by
    omega
  obtain ⟨payload, hlen, hpayload⟩ := hwrite.payload "block" hroom
  have hshape : validateBlockShape block = .ok () := by
    rw [validateBlockShape, htransactions]
    simp only [checkCount, require_pos (Nat.not_lt.mpr houtputs), ok_bind]
    rfl
  have hword : lengthWord payload.length = .ok (UInt32.ofNat payload.length) := by
    rw [lengthWord, if_pos (by omega), okOr_some]
  have hframe : ¬wireHeaderBytes + payload.length > maxBlockBytes := by
    have hheader : wireHeaderBytes = 16 := rfl
    have hblock : maxBlockBytes = 1048576 := rfl
    omega
  simp only [encodeBlock, hshape, hpayload, encodeFrame, ensurePayloadSize, require_pos hframe,
    hword, ok_bind]
  exact ⟨_, rfl⟩

/-- What is encoded as a block is within the wire limit. -/
theorem encodeBlock_length_le {bytes : List UInt8} (h : encodeBlock P block = .ok bytes) :
    bytes.length ≤ maxBlockBytes := by
  simp only [encodeBlock, encodeFrame, ensurePayloadSize, bind_eq_ok, require_eq_ok,
    pure_eq_ok] at h
  obtain ⟨_, _, payload, _, _, hsize, word, _, rfl⟩ := h
  have hheader : wireHeaderBytes = 16 := rfl
  simp only [List.length_append, frameMagic, length_networkMagic, length_leBytes16,
    length_leBytes32, List.length_cons, List.length_nil]
  omega

end

end CommonFoundry
