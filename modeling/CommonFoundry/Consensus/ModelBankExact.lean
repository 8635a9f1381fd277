/-
# `CommonFoundry.Consensus.ModelBankExact` — what the verifier of a model bank accepts

A descriptor has a canonical shape (`HasShape`) when its lengths are those of its
dimensions.  A stream is the bank of a descriptor (`IsBank`) when it is the encoded
header and a payload of the declared length, of allowed bytes, with the two roots that
the descriptor commits to.  The second root is over the roots of the layers, which are
the blocks that the payload is cut into after the base input.

`verifyModelBank` accepts just these (`verifyModelBank_exact`), however the reads are
cut.  The argument follows the reads: `Streams` says what a stretch of the stream leaves
behind in the reader, the offset and the hashers, `streamSection` is one stretch, and a
run over the layers is one stretch for each.
-/
import CommonFoundry.Consensus.ChainRun
import CommonFoundry.Consensus.ModelBank
import CommonFoundry.Lib.Blocks

namespace CommonFoundry

open Lib Lib.Codec Outcome

/-! ## The specification -/

namespace ModelBankManifest

/-- No dimension is zero, and the lengths are those of the dimensions. -/
structure HasShape (manifest : ModelBankManifest) : Prop where
  modelVersion : manifest.modelVersion ≠ 0
  dimension : manifest.dimension ≠ 0
  batch : manifest.batch ≠ 0
  layers : manifest.layers ≠ 0
  baseInputBytes : manifest.baseInputBytes.toNat = manifest.batch.toNat * manifest.dimension.toNat
  bytesPerLayer : manifest.bytesPerLayer.toNat = manifest.dimension.toNat * manifest.dimension.toNat
  payloadBytes : manifest.payloadBytes.toNat =
    manifest.layers.toNat * manifest.bytesPerLayer.toNat + manifest.baseInputBytes.toNat

/-- The layers of a payload: the blocks after the base input. -/
def layersOf (self : ModelBankManifest) (payload : List UInt8) : List (List UInt8) :=
  blocks self.bytesPerLayer.toNat self.layers.toNat (payload.drop self.baseInputBytes.toNat)

end ModelBankManifest

/-- No byte is over `maxModelByte`. -/
def Allowed (bytes : List UInt8) : Prop := ∀ value ∈ bytes, value ≤ maxModelByte

/-- The bytes that the second root is over: the number of the layers, and for each layer
its index and its root. -/
def layerRootsPreimage (blake3 : List UInt8 → Bytes32) (layers : List (List UInt8)) :
    List UInt8 :=
  leBytes32 (UInt32.ofNat layers.length) ++ layers.zipIdx.flatMap fun layer =>
    leBytes32 (UInt32.ofNat layer.2) ++ (blake3 layer.1).1

/-- The payload that a descriptor commits to. -/
structure IsPayload (P : Platform) (blake3 : List UInt8 → Bytes32)
    (expected : ModelBankManifest) (payload : List UInt8) : Prop where
  length : payload.length = expected.payloadBytes.toNat
  allowed : Allowed payload
  rawRoot : blake3 payload = expected.rawBlake3Root
  layerRoots : P.deriveKey layerRootsDomain
    (layerRootsPreimage blake3 (expected.layersOf payload)) = expected.layerRootsAggregate

/-- The stream is the header of the descriptor and a payload that it commits to. -/
def IsBank (P : Platform) (blake3 : List UInt8 → Bytes32) (expected : ModelBankManifest)
    (stream : List UInt8) : Prop :=
  ∃ payload, stream = encodeHeader expected ++ payload ∧ IsPayload P blake3 expected payload

/-! ## The header -/

theorem checked64_eq_ok {n m : Nat} : checked64 n = .ok m ↔ n = m ∧ n < 2 ^ 64 := by
  rw [checked64]
  split
  · next hlt => exact ⟨fun h => ⟨Except.ok.inj h, hlt⟩, fun h => by rw [h.1]⟩
  · next hlt => exact ⟨fun h => absurd h fail_ne_ok, fun h => absurd h.2 hlt⟩

theorem checked64_of_lt {n : Nat} (h : n < 2 ^ 64) : checked64 n = .ok n := if_pos h

theorem validateShape_eq_ok {manifest : ModelBankManifest} {u : Unit} :
    manifest.validateShape = .ok u ↔ manifest.HasShape := by
  rw [ModelBankManifest.validateShape]
  constructor
  · intro h
    obtain ⟨_, hversion, h⟩ := bind_eq_ok.mp h
    obtain ⟨_, hdimensions, h⟩ := bind_eq_ok.mp h
    obtain ⟨base, hbase, h⟩ := bind_eq_ok.mp h
    obtain ⟨layer, hlayer, h⟩ := bind_eq_ok.mp h
    obtain ⟨layers, hlayers, h⟩ := bind_eq_ok.mp h
    obtain ⟨payload, hpayload, h⟩ := bind_eq_ok.mp h
    obtain ⟨rfl, _⟩ := checked64_eq_ok.mp hbase
    obtain ⟨rfl, _⟩ := checked64_eq_ok.mp hlayer
    obtain ⟨rfl, _⟩ := checked64_eq_ok.mp hlayers
    obtain ⟨rfl, _⟩ := checked64_eq_ok.mp hpayload
    have hlengths := require_eq_ok.mp h
    have hdimensions := require_eq_ok.mp hdimensions
    push Not at hlengths hdimensions
    refine ⟨require_eq_ok.mp hversion, hdimensions.1, hdimensions.2.1, hdimensions.2.2,
      hlengths.1, hlengths.2.1, ?_⟩
    rw [hlengths.2.2, hlengths.2.1, hlengths.1]
  · intro h
    have hbase : manifest.batch.toNat * manifest.dimension.toNat < 2 ^ 64 := by
      rw [← h.baseInputBytes]
      exact manifest.baseInputBytes.toNat_lt
    have hlayer : manifest.dimension.toNat * manifest.dimension.toNat < 2 ^ 64 := by
      rw [← h.bytesPerLayer]
      exact manifest.bytesPerLayer.toNat_lt
    have hpayload := h.payloadBytes
    have hlt := manifest.payloadBytes.toNat_lt
    rw [h.baseInputBytes, h.bytesPerLayer] at hpayload
    rw [require_pos h.modelVersion, ok_bind,
      require_pos (not_or.mpr ⟨h.dimension, not_or.mpr ⟨h.batch, h.layers⟩⟩), ok_bind,
      checked64_of_lt hbase, ok_bind, checked64_of_lt hlayer, ok_bind,
      checked64_of_lt (by omega), ok_bind, checked64_of_lt (by omega), ok_bind]
    refine require_pos ?_
    push Not
    exact ⟨h.baseInputBytes, h.bytesPerLayer, hpayload⟩

theorem length_encodeHeader (manifest : ModelBankManifest) :
    (encodeHeader manifest).length = modelBankHeaderBytes := by
  simp only [encodeHeader, modelBankMagic, List.length_append, length_leBytes32,
    length_leBytes64, manifest.rawBlake3Root.2, manifest.layerRootsAggregate.2,
    manifest.pcsParameterDigest.2, manifest.pcsCommitmentRoot.2, List.length_cons,
    List.length_nil, modelBankHeaderBytes]

/-- The header that is read is the header that is written. -/
theorem takeHeader_eq_ok {header rest : List UInt8} {manifest : ModelBankManifest} :
    takeHeader header = .ok (manifest, rest) ↔ header = encodeHeader manifest ++ rest := by
  constructor
  · intro h
    rw [takeHeader, bind_apply, bind_eq_ok] at h
    obtain ⟨⟨magic, r₁⟩, hmagic, h⟩ := h
    obtain ⟨_, hcheck₁, h⟩ := lift_bind_eq_ok.mp h
    rw [bind_apply, bind_eq_ok] at h
    obtain ⟨⟨format, r₂⟩, hformat, h⟩ := h
    obtain ⟨_, hcheck₂, h⟩ := lift_bind_eq_ok.mp h
    rw [bind_apply, bind_eq_ok] at h
    obtain ⟨⟨size, r₃⟩, hsize, h⟩ := h
    obtain ⟨_, hcheck₃, h⟩ := lift_bind_eq_ok.mp h
    simp only [bind_apply, bind_eq_ok] at h
    obtain ⟨⟨version, r₄⟩, hversion, ⟨dimension, r₅⟩, hdimension, ⟨batch, r₆⟩, hbatch,
      ⟨layers, r₇⟩, hlayers, ⟨base, r₈⟩, hbase, ⟨layer, r₉⟩, hlayer, ⟨payload, r₁₀⟩, hpayload,
      ⟨raw, r₁₁⟩, hraw, ⟨roots, r₁₂⟩, hroots, ⟨params, r₁₃⟩, hparams, ⟨commitment, r₁₄⟩,
      hcommitment, h⟩ := h
    cases h
    simp only [takeArray_eq_ok, takeU32_eq_ok, takeU64_eq_ok, require_eq_ok] at *
    rw [hmagic, hformat, hsize, hversion, hdimension, hbatch, hlayers, hbase, hlayer, hpayload,
      hraw, hroots, hparams, hcommitment, hcheck₁, hcheck₂, hcheck₃]
    simp only [encodeHeader, List.append_assoc]
  · rintro rfl
    simp only [encodeHeader, List.append_assoc]
    rw [takeHeader, bind_apply, bind_eq_ok]
    refine ⟨(⟨modelBankMagic, rfl⟩, _), (takeArray_eq_ok _).mpr rfl,
      lift_bind_eq_ok.mpr ⟨(), require_pos rfl, ?_⟩⟩
    rw [bind_apply, bind_eq_ok]
    refine ⟨(modelBankFormatVersion, _), (takeU32_eq_ok _).mpr rfl,
      lift_bind_eq_ok.mpr ⟨(), require_pos rfl, ?_⟩⟩
    rw [bind_apply, bind_eq_ok]
    refine ⟨(UInt32.ofNat modelBankHeaderBytes, _), (takeU32_eq_ok _).mpr rfl,
      lift_bind_eq_ok.mpr ⟨(), require_pos rfl, ?_⟩⟩
    simp only [bind_apply, bind_eq_ok]
    exact ⟨_, (takeU32_eq_ok _).mpr rfl, _, (takeU32_eq_ok _).mpr rfl,
      _, (takeU32_eq_ok _).mpr rfl, _, (takeU32_eq_ok _).mpr rfl,
      _, (takeU64_eq_ok _).mpr rfl, _, (takeU64_eq_ok _).mpr rfl,
      _, (takeU64_eq_ok _).mpr rfl, _, (takeArray_eq_ok _).mpr rfl,
      _, (takeArray_eq_ok _).mpr rfl, _, (takeArray_eq_ok _).mpr rfl,
      _, (takeArray_eq_ok _).mpr rfl, rfl⟩

/-! ## Stretches of the stream -/

theorem readOrTruncated_eq_ok {reader reader' : ChunkedReader} {n : Nat} {bytes : List UInt8}
    (h : readOrTruncated reader n = .ok (bytes, reader')) :
    bytes.length = n ∧ reader.rest = bytes ++ reader'.rest :=
  ChunkedReader.readExact_eq_some (okOr_eq_ok.mp h)

theorem readOrTruncated_append {reader : ChunkedReader} {bytes rest : List UInt8}
    (hrest : reader.rest = bytes ++ rest) :
    ∃ reader', readOrTruncated reader bytes.length = .ok (bytes, reader') ∧
      reader'.rest = rest := by
  obtain ⟨reader', hread, hrest'⟩ := ChunkedReader.readExact_append bytes hrest
  exact ⟨reader', okOr_eq_ok.mpr hread, hrest'⟩

theorem validateValues_eq_ok {startOffset : Nat} {bytes : List UInt8} {u : Unit} {index : Nat} :
    validateValues startOffset index bytes = .ok u ↔ Allowed bytes := by
  induction bytes generalizing index with
  | nil => exact ⟨fun _ _ hmem => (by cases hmem), fun _ => rfl⟩
  | cons value bytes ih =>
      rw [validateValues, Allowed, List.forall_mem_cons]
      split
      · next hover =>
          exact ⟨fun h => absurd h fail_ne_ok, fun h => absurd h.1 (UInt8.not_le.mpr hover)⟩
      · next hfits =>
          rw [ih]
          exact ⟨fun h => ⟨UInt8.not_lt.mp hfits, h⟩, fun h => h.2⟩

/-- What a stretch of the stream leaves behind. -/
structure Streams (bytes : List UInt8) (state state' : Streamed) : Prop where
  rest : state.reader.rest = bytes ++ state'.reader.rest
  payloadOffset : state'.payloadOffset = state.payloadOffset + bytes.length
  rawHasher : state'.rawHasher = state.rawHasher ++ bytes
  sectionHasher : state'.sectionHasher = state.sectionHasher.map (· ++ bytes)

theorem Streams.nil (state : Streamed) : Streams [] state state := by
  refine ⟨rfl, rfl, (List.append_nil _).symm, ?_⟩
  cases state.sectionHasher with
  | none => rfl
  | some hasher => rw [Option.map_some, List.append_nil]

theorem Streams.append {bytes bytes' : List UInt8} {s t u : Streamed} (h : Streams bytes s t)
    (h' : Streams bytes' t u) : Streams (bytes ++ bytes') s u := by
  refine ⟨?_, ?_, ?_, ?_⟩
  · rw [h.rest, h'.rest, List.append_assoc]
  · rw [h'.payloadOffset, h.payloadOffset, List.length_append, Nat.add_assoc]
  · rw [h'.rawHasher, h.rawHasher, List.append_assoc]
  · rw [h'.sectionHasher, h.sectionHasher]
    cases s.sectionHasher with
    | none => rfl
    | some hasher => rw [Option.map_some, Option.map_some, Option.map_some, List.append_assoc]

theorem allowed_append {bytes bytes' : List UInt8} :
    Allowed (bytes ++ bytes') ↔ Allowed bytes ∧ Allowed bytes' :=
  List.forall_mem_append

/-- What `stream_section` read was a stretch of the wanted length. -/
theorem streamSection_eq_ok {remaining : Nat} {state state' : Streamed}
    (h : streamSection remaining state = .ok state') :
    ∃ bytes, bytes.length = remaining ∧ Allowed bytes ∧ Streams bytes state state' := by
  induction remaining using Nat.strongRecOn generalizing state with
  | _ remaining ih =>
      rw [streamSection] at h
      split at h
      case isTrue hzero =>
          cases h
          exact ⟨[], hzero.symm, fun _ hmem => (by cases hmem), Streams.nil _⟩
      case isFalse hpos =>
          obtain ⟨⟨buffer, reader⟩, hread, h⟩ := bind_eq_ok.mp h
          obtain ⟨_, hvalues, h⟩ := bind_eq_ok.mp h
          obtain ⟨offset, hoffset, h⟩ := bind_eq_ok.mp h
          obtain ⟨rfl, _⟩ := checked64_eq_ok.mp hoffset
          obtain ⟨hlength, hrest⟩ := readOrTruncated_eq_ok hread
          have hsmaller : remaining - min remaining verifyChunkBytes < remaining := by
            rw [verifyChunkBytes]
            omega
          obtain ⟨bytes, hbytes, hallowed, hstreams⟩ := ih _ hsmaller h
          refine ⟨buffer ++ bytes, ?_,
            allowed_append.mpr ⟨validateValues_eq_ok.mp hvalues, hallowed⟩, ?_⟩
          · rw [List.length_append, hlength, hbytes]
            omega
          · refine Streams.append ⟨hrest, ?_, rfl, rfl⟩ hstreams
            rw [hlength]

/-- Any stretch of allowed bytes can be streamed. -/
theorem streamSection_append (bytes : List UInt8) {rest : List UInt8} {state : Streamed}
    (hrest : state.reader.rest = bytes ++ rest) (hallowed : Allowed bytes)
    (hoffset : state.payloadOffset + bytes.length < 2 ^ 64) :
    ∃ state', streamSection bytes.length state = .ok state' ∧ Streams bytes state state' := by
  induction hn : bytes.length using Nat.strongRecOn generalizing bytes state with
  | _ n ih =>
      subst hn
      rw [streamSection]
      split
      case isTrue hzero =>
          rw [List.length_eq_zero_iff.mp hzero]
          exact ⟨state, rfl, Streams.nil state⟩
      case isFalse hpos =>
          -- one buffer, and the rest of the stretch
          obtain ⟨size, hsize⟩ : ∃ size, min bytes.length verifyChunkBytes = size := ⟨_, rfl⟩
          have hbounds : 0 < size ∧ size ≤ bytes.length := by
            rw [verifyChunkBytes] at hsize
            omega
          have hbuffer : (bytes.take size).length = size := by
            rw [List.length_take]
            omega
          have hdrop : (bytes.drop size).length = bytes.length - size := List.length_drop
          have hsplit : state.reader.rest = bytes.take size ++ (bytes.drop size ++ rest) := by
            rw [← List.append_assoc, List.take_append_drop, hrest]
          have hboth : Allowed (bytes.take size) ∧ Allowed (bytes.drop size) := by
            rw [← allowed_append, List.take_append_drop]
            exact hallowed
          obtain ⟨reader, hread, hreader⟩ := readOrTruncated_append hsplit
          rw [hbuffer] at hread
          rw [hsize]
          dsimp only
          rw [hread, ok_bind, (validateValues_eq_ok (u := ())).mpr hboth.1, ok_bind,
            checked64_of_lt (by omega), ok_bind, ← hdrop]
          generalize hnext : ({
            reader := reader
            payloadOffset := state.payloadOffset + size
            rawHasher := state.rawHasher ++ bytes.take size
            sectionHasher := state.sectionHasher.map (· ++ bytes.take size) } : Streamed) = next
          have hfirst : Streams (bytes.take size) state next := by
            subst hnext
            exact ⟨by rw [hsplit, hreader], by rw [hbuffer], rfl, rfl⟩
          have hrest' : next.reader.rest = bytes.drop size ++ rest := by
            rw [← hnext]
            exact hreader
          have hoffset' : next.payloadOffset + (bytes.drop size).length < 2 ^ 64 := by
            rw [hfirst.payloadOffset]
            omega
          obtain ⟨state', hstate', hstreams⟩ :=
            ih (bytes.drop size).length (by omega) (bytes.drop size) hrest' hboth.2 hoffset' rfl
          refine ⟨state', hstate', ?_⟩
          have hboth := hfirst.append hstreams
          rwa [List.take_append_drop] at hboth

/-! ## The layers -/

/-- What the turns for `layers` leave behind, the first of them turn `index`. -/
structure StreamsLayers (blake3 : List UInt8 → Bytes32) (index : Nat)
    (layers : List (List UInt8)) (state state' : Streamed × List UInt8) : Prop where
  streams : Streams layers.flatten state.1 state'.1
  aggregate : state'.2 = aggregateLayers blake3 state.2 index layers

variable {blake3 : List UInt8 → Bytes32}

theorem streamLayer_eq_ok {size index : Nat} {state state' : Streamed × List UInt8}
    (hnone : state.1.sectionHasher = none)
    (h : streamLayer blake3 size state index = .ok state') :
    ∃ layer, layer.length = size ∧ Allowed layer ∧ Streams layer state.1 state'.1 ∧
      state'.2 = addLayerRoot state.2 (UInt32.ofNat index) (blake3 layer) := by
  obtain ⟨streamed, hstreamed, h⟩ := bind_eq_ok.mp h
  cases h
  obtain ⟨layer, hlength, hallowed, hstreams⟩ := streamSection_eq_ok hstreamed
  refine ⟨layer, hlength, hallowed,
    ⟨hstreams.rest, hstreams.payloadOffset, hstreams.rawHasher, ?_⟩, ?_⟩
  · rw [hnone]
    rfl
  · rw [hstreams.sectionHasher]
    rfl

theorem streamLayer_append {index : Nat} {state : Streamed × List UInt8} (layer : List UInt8)
    {rest : List UInt8} (hnone : state.1.sectionHasher = none)
    (hrest : state.1.reader.rest = layer ++ rest) (hallowed : Allowed layer)
    (hoffset : state.1.payloadOffset + layer.length < 2 ^ 64) :
    ∃ state', streamLayer blake3 layer.length state index = .ok state' ∧
      Streams layer state.1 state'.1 ∧
      state'.2 = addLayerRoot state.2 (UInt32.ofNat index) (blake3 layer) := by
  have hsection : ∃ streamed, streamSection layer.length
      { state.1 with sectionHasher := some [] } = .ok streamed ∧
      Streams layer { state.1 with sectionHasher := some [] } streamed :=
    streamSection_append layer hrest hallowed hoffset
  obtain ⟨streamed, hstreamed, hstreams⟩ := hsection
  rw [streamLayer, hstreamed, ok_bind]
  refine ⟨_, rfl, ⟨hstreams.rest, hstreams.payloadOffset, hstreams.rawHasher, ?_⟩, ?_⟩
  · rw [hnone]
    rfl
  · rw [hstreams.sectionHasher]
    rfl

/-- The loop over the layers read as many layers as it has turns. -/
theorem streamLayers_eq_ok {size count index : Nat} {state state' : Streamed × List UInt8}
    (hnone : state.1.sectionHasher = none)
    (h : (List.range' index count).foldlM (streamLayer blake3 size) state = .ok state') :
    ∃ layers, layers.length = count ∧ (∀ layer ∈ layers, layer.length = size) ∧
      Allowed layers.flatten ∧ StreamsLayers blake3 index layers state state' := by
  induction count generalizing index state with
  | zero =>
      cases h
      exact ⟨[], rfl, fun _ hmem => (by cases hmem), fun _ hmem => (by cases hmem),
        Streams.nil _, rfl⟩
  | succ count ih =>
      rw [List.range'_succ] at h
      obtain ⟨state₁, hstep, h⟩ := foldlM_cons_eq_ok.mp h
      obtain ⟨layer, hlength, hallowed, hstreams, haggregate⟩ := streamLayer_eq_ok hnone hstep
      have hnone₁ : state₁.1.sectionHasher = none := by
        rw [hstreams.sectionHasher, hnone]
        rfl
      obtain ⟨layers, hcount, hsize, hallowed', hlayers⟩ := ih hnone₁ h
      refine ⟨layer :: layers, by rw [List.length_cons, hcount],
        List.forall_mem_cons.mpr ⟨hlength, hsize⟩, ?_, ?_, ?_⟩
      · rw [List.flatten_cons]
        exact allowed_append.mpr ⟨hallowed, hallowed'⟩
      · rw [List.flatten_cons]
        exact hstreams.append hlayers.streams
      · rw [hlayers.aggregate, haggregate]
        rfl

/-- Any layers of allowed bytes can be streamed. -/
theorem streamLayers_append {size index : Nat} {state : Streamed × List UInt8}
    (layers : List (List UInt8)) {rest : List UInt8} (hnone : state.1.sectionHasher = none)
    (hsize : ∀ layer ∈ layers, layer.length = size)
    (hrest : state.1.reader.rest = layers.flatten ++ rest) (hallowed : Allowed layers.flatten)
    (hoffset : state.1.payloadOffset + layers.flatten.length < 2 ^ 64) :
    ∃ state', (List.range' index layers.length).foldlM (streamLayer blake3 size) state =
        .ok state' ∧ StreamsLayers blake3 index layers state state' := by
  induction layers generalizing index state with
  | nil => exact ⟨state, rfl, Streams.nil _, rfl⟩
  | cons layer layers ih =>
      obtain ⟨rfl, hsizes⟩ := List.forall_mem_cons.mp hsize
      rw [List.flatten_cons] at hrest hallowed hoffset
      rw [List.length_append] at hoffset
      obtain ⟨hfirst, hothers⟩ := allowed_append.mp hallowed
      rw [List.append_assoc] at hrest
      have hturn : ∃ state₁, streamLayer blake3 layer.length state index = .ok state₁ ∧
          Streams layer state.1 state₁.1 ∧
          state₁.2 = addLayerRoot state.2 (UInt32.ofNat index) (blake3 layer) :=
        streamLayer_append layer hnone hrest hfirst (by omega)
      obtain ⟨state₁, hstep, hstreams, haggregate⟩ := hturn
      have hnone₁ : state₁.1.sectionHasher = none := by
        rw [hstreams.sectionHasher, hnone]
        rfl
      have hrest₁ : state₁.1.reader.rest = layers.flatten ++ rest :=
        List.append_cancel_left (hstreams.rest.symm.trans hrest)
      have hoffset₁ : state₁.1.payloadOffset + layers.flatten.length < 2 ^ 64 := by
        rw [hstreams.payloadOffset]
        omega
      obtain ⟨state', hloop, hlayers⟩ := ih hnone₁ hsizes hrest₁ hothers hoffset₁
      refine ⟨state', ?_, ?_, ?_⟩
      · rw [List.length_cons, List.range'_succ]
        exact foldlM_cons_eq_ok.mpr ⟨state₁, hstep, hloop⟩
      · rw [List.flatten_cons]
        exact hstreams.append hlayers.streams
      · rw [hlayers.aggregate, haggregate]
        rfl

/-! ## The roots -/

theorem aggregateLayers_eq {aggregate : List UInt8} {index : Nat} {layers : List (List UInt8)} :
    aggregateLayers blake3 aggregate index layers =
      aggregate ++ (layers.zipIdx index).flatMap fun layer =>
        leBytes32 (UInt32.ofNat layer.2) ++ (blake3 layer.1).1 := by
  induction layers generalizing aggregate index with
  | nil => rw [aggregateLayers, List.zipIdx_nil, List.flatMap_nil, List.append_nil]
  | cons layer layers ih =>
      rw [aggregateLayers, ih, addLayerRoot, List.zipIdx_cons, List.flatMap_cons,
        List.append_assoc]

theorem layerRootsPreimage_eq (layers : List (List UInt8)) :
    layerRootsPreimage blake3 layers =
      aggregateLayers blake3 (startLayerAggregate (UInt32.ofNat layers.length)) 0 layers := by
  rw [aggregateLayers_eq]
  rfl

/-- The layers that a payload was put together from. -/
theorem layersOf_append {manifest : ModelBankManifest} {base : List UInt8}
    {layers : List (List UInt8)} (hbase : base.length = manifest.baseInputBytes.toNat)
    (hcount : layers.length = manifest.layers.toNat)
    (hsize : ∀ layer ∈ layers, layer.length = manifest.bytesPerLayer.toNat) :
    manifest.layersOf (base ++ layers.flatten) = layers := by
  rw [ModelBankManifest.layersOf, List.drop_left' hbase, ← hcount]
  exact blocks_flatten hsize

/-! ## Exactness -/

theorem readHeader_eq_ok {reader reader' : ChunkedReader} {manifest : ModelBankManifest}
    (h : readHeader reader = .ok (manifest, reader')) :
    reader.rest = encodeHeader manifest ++ reader'.rest := by
  obtain ⟨⟨header, reader₁⟩, hread, h⟩ := bind_eq_ok.mp h
  obtain ⟨⟨actual, rest⟩, htake, h⟩ := bind_eq_ok.mp h
  obtain ⟨_, _, h⟩ := bind_eq_ok.mp h
  cases h
  obtain ⟨hlength, hrest⟩ := readOrTruncated_eq_ok hread
  rw [takeHeader_eq_ok] at htake
  have hnil : rest = [] := by
    have htotal := congrArg List.length htake
    rw [hlength, List.length_append, length_encodeHeader] at htotal
    exact List.length_eq_zero_iff.mp (by omega)
  rw [hrest, htake, hnil, List.append_nil]

theorem readHeader_append {reader : ChunkedReader} {manifest : ModelBankManifest}
    {payload : List UInt8} (hshape : manifest.HasShape)
    (hrest : reader.rest = encodeHeader manifest ++ payload) :
    ∃ reader', readHeader reader = .ok (manifest, reader') ∧ reader'.rest = payload := by
  obtain ⟨reader', hread, hreader'⟩ := readOrTruncated_append hrest
  rw [length_encodeHeader] at hread
  have htake : takeHeader (encodeHeader manifest) = .ok (manifest, []) :=
    takeHeader_eq_ok.mpr (List.append_nil _).symm
  refine ⟨reader', ?_, hreader'⟩
  rw [readHeader, hread, ok_bind]
  dsimp only
  rw [htake, ok_bind]
  dsimp only
  rw [(validateShape_eq_ok (u := ())).mpr hshape,
    ok_bind]
  rfl

theorem compareManifests_eq_ok {expected actual : ModelBankManifest} {u : Unit} :
    compareManifests expected actual = .ok u ↔ actual = expected := by
  constructor
  · intro h
    obtain ⟨_, _, h⟩ := bind_eq_ok.mp h
    obtain ⟨_, _, h⟩ := bind_eq_ok.mp h
    exact require_eq_ok.mp h
  · rintro rfl
    rw [compareManifests, require_pos rfl, ok_bind, require_pos rfl, ok_bind, require_pos rfl]

variable {P : Platform}

/-- What the verifier accepts is a bank of a descriptor of canonical shape. -/
theorem isBank_of_verifyModelBank {reader : ChunkedReader} {expected : ModelBankManifest}
    (h : verifyModelBank P blake3 reader expected = .ok ()) :
    expected.HasShape ∧ IsBank P blake3 expected reader.rest := by
  obtain ⟨_, hshape, h⟩ := bind_eq_ok.mp h
  have hshape := validateShape_eq_ok.mp hshape
  obtain ⟨⟨actual, reader₁⟩, hheader, h⟩ := bind_eq_ok.mp h
  obtain ⟨_, hcompare, h⟩ := bind_eq_ok.mp h
  obtain ⟨streamed₀, hbase, h⟩ := bind_eq_ok.mp h
  obtain ⟨⟨streamed, aggregate⟩, hlayers, h⟩ := bind_eq_ok.mp h
  obtain ⟨_, hoffset, h⟩ := bind_eq_ok.mp h
  obtain ⟨_, hraw, h⟩ := bind_eq_ok.mp h
  obtain ⟨_, hroots, htrailing⟩ := bind_eq_ok.mp h
  obtain rfl := compareManifests_eq_ok.mp hcompare
  obtain ⟨base, hlength, hallowed, hstreams⟩ := streamSection_eq_ok hbase
  rw [List.range_eq_range'] at hlayers
  obtain ⟨layers, hcount, hsize, hallowed', hrun⟩ :=
    streamLayers_eq_ok (by rw [hstreams.sectionHasher]; rfl) hlayers
  have hboth := hstreams.append hrun.streams
  have hend : streamed.reader.rest = [] := by
    rcases ChunkedReader.read_eq_nil.mp (require_eq_ok.mp htrailing) with hzero | hend
    · exact absurd hzero (Nat.one_ne_zero)
    · exact hend
  have hrest := hboth.rest
  rw [hend, List.append_nil] at hrest
  refine ⟨hshape, base ++ layers.flatten, ?_, ?_, allowed_append.mpr ⟨hallowed, hallowed'⟩, ?_, ?_⟩
  · rw [readHeader_eq_ok hheader, hrest]
  · rw [← require_eq_ok.mp hoffset, hboth.payloadOffset, Nat.zero_add]
  · rw [← require_eq_ok.mp hraw, hboth.rawHasher, List.nil_append]
  · rw [← require_eq_ok.mp hroots, layersOf_append hlength hcount hsize, layerRootsPreimage_eq,
      hcount, UInt32.ofNat_toNat]
    exact congrArg (P.deriveKey layerRootsDomain) hrun.aggregate.symm

/-- A bank of a descriptor of canonical shape is accepted. -/
theorem verifyModelBank_of_isBank {reader : ChunkedReader} {expected : ModelBankManifest}
    (hshape : expected.HasShape) (h : IsBank P blake3 expected reader.rest) :
    verifyModelBank P blake3 reader expected = .ok () := by
  obtain ⟨payload, hstream, hpayload⟩ := h
  -- the payload as the base input and the layers
  obtain ⟨base, hbase⟩ : ∃ base, payload.take expected.baseInputBytes.toNat = base := ⟨_, rfl⟩
  obtain ⟨layers, hlayers⟩ : ∃ layers, expected.layersOf payload = layers := ⟨_, rfl⟩
  have htotal := hpayload.length
  rw [hshape.payloadBytes] at htotal
  have hlength : base.length = expected.baseInputBytes.toNat := by
    rw [← hbase, List.length_take]
    omega
  have hdrop : (payload.drop expected.baseInputBytes.toNat).length =
      expected.layers.toNat * expected.bytesPerLayer.toNat := by
    rw [List.length_drop]
    omega
  have hcount : layers.length = expected.layers.toNat := by
    rw [← hlayers, ModelBankManifest.layersOf, length_blocks]
  have hsize : ∀ layer ∈ layers, layer.length = expected.bytesPerLayer.toNat := by
    rw [← hlayers]
    exact fun layer hmem => length_of_mem_blocks hdrop hmem
  have hparts : payload = base ++ layers.flatten := by
    rw [← hbase, ← hlayers, ModelBankManifest.layersOf, flatten_blocks hdrop,
      List.take_append_drop]
  have hfits := expected.payloadBytes.toNat_lt
  rw [← hpayload.length, hparts, List.length_append] at hfits
  have hallowed := hpayload.allowed
  rw [hparts, allowed_append] at hallowed
  -- the reads
  obtain ⟨reader₁, hheader, hreader₁⟩ := readHeader_append hshape hstream
  rw [hparts] at hreader₁
  generalize hstart : ({
    reader := reader₁
    payloadOffset := 0
    rawHasher := []
    sectionHasher := none } : Streamed) = start
  have hrest₀ : start.reader.rest = base ++ layers.flatten := by
    rw [← hstart]
    exact hreader₁
  have hoffset₀ : start.payloadOffset = 0 := by rw [← hstart]
  have hraw₀ : start.rawHasher = [] := by rw [← hstart]
  have hnone₀ : start.sectionHasher = none := by rw [← hstart]
  obtain ⟨streamed₀, hsection, hstreams⟩ :=
    streamSection_append base hrest₀ hallowed.1 (by omega)
  rw [hlength] at hsection
  have hnone : streamed₀.sectionHasher = none := by
    rw [hstreams.sectionHasher, hnone₀]
    rfl
  have hrest : streamed₀.reader.rest = layers.flatten ++ [] := by
    rw [List.append_nil]
    exact List.append_cancel_left (hstreams.rest.symm.trans hrest₀)
  have hturns : ∃ state', (List.range' 0 layers.length).foldlM
      (streamLayer blake3 expected.bytesPerLayer.toNat)
      (streamed₀, startLayerAggregate expected.layers) = .ok state' ∧
      StreamsLayers blake3 0 layers (streamed₀, startLayerAggregate expected.layers) state' :=
    streamLayers_append layers hnone hsize hrest hallowed.2
      (by rw [hstreams.payloadOffset]; omega)
  obtain ⟨⟨streamed, aggregate⟩, hloop, hrun⟩ := hturns
  rw [hcount, ← List.range_eq_range'] at hloop
  have hboth := hstreams.append hrun.streams
  -- the checks at the end
  have hoffset : streamed.payloadOffset = expected.payloadBytes.toNat := by
    rw [hboth.payloadOffset, hoffset₀, Nat.zero_add, ← hparts, hpayload.length]
  have hraw : blake3 streamed.rawHasher = expected.rawBlake3Root := by
    rw [hboth.rawHasher, hraw₀, List.nil_append, ← hparts, hpayload.rawRoot]
  have hroots : P.deriveKey layerRootsDomain aggregate = expected.layerRootsAggregate := by
    rw [← hpayload.layerRoots, hlayers, layerRootsPreimage_eq, hcount, UInt32.ofNat_toNat]
    exact congrArg _ hrun.aggregate
  have hend : streamed.reader.rest = [] :=
    List.append_cancel_left ((hrun.streams.rest.symm.trans hrest))
  rw [verifyModelBank, (validateShape_eq_ok (u := ())).mpr hshape, ok_bind, hheader, ok_bind]
  dsimp only
  rw [(compareManifests_eq_ok (u := ())).mpr rfl, ok_bind, hstart, hsection, ok_bind, hloop,
    ok_bind]
  dsimp only
  rw [require_pos hoffset, ok_bind, require_pos hraw, ok_bind, require_pos hroots, ok_bind]
  exact require_pos (ChunkedReader.read_eq_nil.mpr (.inr hend))

/-! ## The fixtures -/

theorem allowed_of_validateLayers {bytesPerLayer offset : Nat} {layers : List (List UInt8)}
    {u : Unit} (h : validateLayers bytesPerLayer offset layers = .ok u) :
    Allowed layers.flatten := by
  induction layers generalizing offset with
  | nil => exact fun _ hmem => by cases hmem
  | cons layer layers ih =>
      obtain ⟨_, hvalues, h⟩ := bind_eq_ok.mp h
      obtain ⟨_, _, h⟩ := bind_eq_ok.mp h
      rw [List.flatten_cons]
      exact allowed_append.mpr ⟨validateValues_eq_ok.mp hvalues, ih h⟩

/-- What is built is a bank of the descriptor that comes with it. -/
theorem isBank_of_buildSmallModelBank {fixture : SmallModelBankFixture}
    {built : BuiltModelBankFixture} (h : buildSmallModelBank P blake3 fixture = .ok built) :
    built.manifest.HasShape ∧ IsBank P blake3 built.manifest built.bytes := by
  obtain ⟨_, hversion, h⟩ := bind_eq_ok.mp h
  obtain ⟨_, hdimensions, h⟩ := bind_eq_ok.mp h
  obtain ⟨base, hbase, h⟩ := bind_eq_ok.mp h
  obtain ⟨layer, hlayer, h⟩ := bind_eq_ok.mp h
  obtain ⟨_, hcount, h⟩ := bind_eq_ok.mp h
  obtain ⟨layers, hlayers, h⟩ := bind_eq_ok.mp h
  obtain ⟨payload, hpayload, h⟩ := bind_eq_ok.mp h
  obtain ⟨_, _, h⟩ := bind_eq_ok.mp h
  obtain ⟨_, hlength, h⟩ := bind_eq_ok.mp h
  obtain ⟨_, hsizes, h⟩ := bind_eq_ok.mp h
  obtain ⟨_, hvalues, h⟩ := bind_eq_ok.mp h
  obtain ⟨_, hallowed, h⟩ := bind_eq_ok.mp h
  obtain ⟨rfl, hbase64⟩ := checked64_eq_ok.mp hbase
  obtain ⟨rfl, hlayer64⟩ := checked64_eq_ok.mp hlayer
  obtain ⟨rfl, _⟩ := checked64_eq_ok.mp hlayers
  obtain ⟨rfl, hpayload64⟩ := checked64_eq_ok.mp hpayload
  have hcount := require_eq_ok.mp hcount
  have hlength := require_eq_ok.mp hlength
  have hsizes := require_eq_ok.mp hsizes
  have hdimensions := require_eq_ok.mp hdimensions
  push Not at hdimensions
  have hnat : (UInt32.ofNat fixture.layers.length).toNat = fixture.layers.length :=
    UInt32.toNat_ofNat_of_lt' hcount
  have hne : UInt32.ofNat fixture.layers.length ≠ 0 := by
    intro hzero
    rw [hzero] at hnat
    exact hdimensions.2.2 (List.length_eq_zero_iff.mp hnat.symm)
  cases h
  refine ⟨⟨require_eq_ok.mp hversion, hdimensions.1, hdimensions.2.1, hne,
      UInt64.toNat_ofNat_of_lt' hbase64, UInt64.toNat_ofNat_of_lt' hlayer64, ?_⟩,
    fixture.baseInput ++ fixture.layers.flatten, rfl, ?_,
    allowed_append.mpr ⟨validateValues_eq_ok.mp hvalues, allowed_of_validateLayers hallowed⟩,
    rfl, ?_⟩
  · rw [hnat, UInt64.toNat_ofNat_of_lt' hbase64, UInt64.toNat_ofNat_of_lt' hlayer64,
      UInt64.toNat_ofNat_of_lt' hpayload64]
  · rw [List.length_append, hlength, length_flatten_of_forall hsizes,
      UInt64.toNat_ofNat_of_lt' hpayload64, Nat.add_comm]
  · rw [layersOf_append (hlength.trans (UInt64.toNat_ofNat_of_lt' hbase64).symm) hnat.symm
      fun part hmem => (hsizes part hmem).trans (UInt64.toNat_ofNat_of_lt' hlayer64).symm,
      layerRootsPreimage_eq]

/-- A stream is accepted exactly when the descriptor has canonical shape and the stream
is a bank of it, however it is read, and what is built is accepted. -/
theorem verifyModelBank_exact (P : Platform) (blake3 : List UInt8 → Bytes32) :
    (∀ (reader : ChunkedReader) (expected : ModelBankManifest),
      verifyModelBank P blake3 reader expected = .ok () ↔
        expected.HasShape ∧ IsBank P blake3 expected reader.rest) ∧
    (∀ (fixture : SmallModelBankFixture) (built : BuiltModelBankFixture),
      buildSmallModelBank P blake3 fixture = .ok built → ∀ reader : ChunkedReader,
        reader.rest = built.bytes → verifyModelBank P blake3 reader built.manifest = .ok ()) := by
  refine ⟨fun reader expected => ⟨isBank_of_verifyModelBank, fun h => ?_⟩, ?_⟩
  · exact verifyModelBank_of_isBank h.1 h.2
  · intro fixture built hbuilt reader hreader
    obtain ⟨hshape, hbank⟩ := isBank_of_buildSmallModelBank hbuilt
    rw [← hreader] at hbank
    exact verifyModelBank_of_isBank hshape hbank

/-- A bank of one layer of one byte. -/
def sampleBank : SmallModelBankFixture where
  modelVersion := 1
  dimension := 1
  batch := 1
  baseInput := [7]
  layers := [[250]]
  pcsParameterDigest := Bytes.zero 32
  pcsCommitmentRoot := Bytes.zero 32

/-- It is built, and accepted when it is read one byte, then two bytes at a time. -/
theorem verifyModelBank_exact_sample :
    ∃ built, buildSmallModelBank samplePlatform sampleDigest sampleBank = .ok built ∧
      verifyModelBank samplePlatform sampleDigest { rest := built.bytes, chunk := id }
        built.manifest = .ok () := by
  obtain ⟨built, hbuilt⟩ : ∃ built,
      buildSmallModelBank samplePlatform sampleDigest sampleBank = .ok built := ⟨_, rfl⟩
  exact ⟨built, hbuilt,
    (verifyModelBank_exact samplePlatform sampleDigest).2 sampleBank built hbuilt _ rfl⟩

/-- A descriptor of model version 0 whose lengths and roots are in order. -/
def unversionedManifest : ModelBankManifest where
  modelVersion := 0
  dimension := 1
  batch := 1
  layers := 1
  baseInputBytes := 1
  bytesPerLayer := 1
  payloadBytes := 2
  rawBlake3Root := sampleDigest [7, 250]
  layerRootsAggregate := sampleDigest (layerRootsPreimage sampleDigest [[250]])
  pcsParameterDigest := Bytes.zero 32
  pcsCommitmentRoot := Bytes.zero 32

/-- Its bank is refused: the verifier checks the shape of the descriptor first. -/
theorem verifyModelBank_unversioned :
    IsBank samplePlatform sampleDigest unversionedManifest
      (encodeHeader unversionedManifest ++ [7, 250]) ∧
    verifyModelBank samplePlatform sampleDigest
      { rest := encodeHeader unversionedManifest ++ [7, 250], chunk := id } unversionedManifest =
        fail .invalidModelVersion := by
  refine ⟨⟨[7, 250], rfl, rfl, ?_, rfl, rfl⟩, rfl⟩
  intro value hmem
  rcases List.mem_pair.mp hmem with rfl | rfl
  · decide
  · decide

end CommonFoundry
