/-
# `CommonFoundry.Gpu.KernelAgreement` — the kernel computes the final activations of the reference

A block reads one bank of its activation and writes the other one, and its slice of the
outputs is its own (`footprint`).  From barrier to barrier its banks hold the activations that
the reference proof goes through (`exists_progress_layers`), so every run of the launched grid
ends with the bytes of the reference for every nonce (`kernel_agreement`).
-/
import CommonFoundry.Consensus.HonestOutput
import CommonFoundry.Gpu.Context
import CommonFoundry.Gpu.Stage

namespace CommonFoundry

open Lib Lib.Outcome

/-! ## What a block touches -/

theorem output_index_inj {len block block' i i' : Nat} (hi : i < len) (hi' : i' < len)
    (h : block * len + i = block' * len + i') : block = block' := by
  have hdiv : ∀ b j, j < len → (b * len + j) / len = b := fun b j hj => by
    rw [Nat.mul_comm, Nat.mul_add_div (by omega), Nat.div_eq_of_lt hj, Nat.add_zero]
  rw [← hdiv block i hi, h, hdiv block' i' hi']

/-- The places of a block.  At every stage it reads from one bank, and writes to the other
one and to its outputs. -/
def footprint (len block : Nat) : Footprint (Fin cudaThreads) Place where
  owned := { place | (∃ bank i, place = .activation block bank i) ∨
    ∃ i < len, place = .output (block * len + i) }
  reads stage _ := { place | ∃ i, place = .activation block ((stage + 1) % 2) i }
  writes stage t := { place | place = .activation block (stage % 2) t ∨
    t.val < len ∧ place = .output (block * len + t) }
  reads_owned _ _ := fun _ ⟨i, h⟩ => .inl ⟨_, i, h⟩
  writes_owned _ t := fun _ h => h.elim (fun h => .inl ⟨_, t, h⟩) fun ⟨ht, h⟩ => .inr ⟨t, ht, h⟩
  read_write stage t t' _ := by
    rintro place ⟨i, rfl⟩ (heq | ⟨_, heq⟩)
    · obtain ⟨_, hbank, _⟩ := Place.activation.inj heq
      omega
    · cases heq
  write_write stage t t' hne := by
    rintro place (rfl | ⟨_, rfl⟩) (heq | ⟨_, heq⟩)
    · exact hne (Fin.ext (Place.activation.inj heq).2.2)
    · cases heq
    · cases heq
    · have hindex := Place.output.inj heq
      exact hne (Fin.ext (by omega))

theorem separate_footprint (len count : Nat) :
    Grid.Separate fun block : Fin count => footprint len block := by
  rintro b b' hne place (⟨bank, i, rfl⟩ | ⟨i, hi, rfl⟩) (⟨bank', i', heq⟩ | ⟨i', hi', heq⟩)
  · exact hne (Fin.ext (Place.activation.inj heq).1)
  · cases heq
  · cases heq
  · exact hne (Fin.ext (output_index_inj hi hi' (Place.output.inj heq)))

/-- The bytes in the slice of a block. -/
def Outputs (len block : Nat) (bytes : List UInt8) (memory : Place → UInt8) : Prop :=
  ∀ i byte, bytes[i]? = some byte → memory (.output (block * len + i)) = byte

/-! ## Masks of a nonce -/

/-- The masks of a nonce, stage by stage. -/
def nonceMasks (X : Xof) (challenge : Bytes32) (rows width layers : Nat) : List (List UInt8) :=
  maskCoefficients X challenge inputMaskIndex rows width ::
    (List.range layers).map fun layer =>
      maskCoefficients X challenge (UInt32.ofNat layer) rows width

theorem flatten_nonceMasks (X : Xof) (challenge : Bytes32) (rows width layers : Nat) :
    (nonceMasks X challenge rows width layers).flatten =
      nonceCoefficients X challenge rows width layers := by
  rw [nonceMasks, List.flatten_cons, nonceCoefficients, List.flatMap_def]

theorem length_of_mem_nonceMasks {X : Xof} {challenge : Bytes32} {rows width layers : Nat} :
    ∀ mask ∈ nonceMasks X challenge rows width layers,
      mask.length = 1 + rows.log2 + width.log2 := by
  rw [nonceMasks, List.forall_mem_cons]
  refine ⟨(isMask_maskCoefficients X challenge _ rows width).length, fun mask hmask => ?_⟩
  obtain ⟨layer, _, rfl⟩ := List.mem_map.mp hmask
  exact (isMask_maskCoefficients X challenge _ rows width).length

theorem length_nonceCoefficients (X : Xof) (challenge : Bytes32) (rows width layers : Nat) :
    (nonceCoefficients X challenge rows width layers).length =
      (layers + 1) * (1 + rows.log2 + width.log2) := by
  rw [← flatten_nonceMasks, length_flatten_of_forall length_of_mem_nonceMasks, nonceMasks,
    List.length_cons, List.length_map, List.length_range]

/-- The mask of a stage stands where the kernel looks for it. -/
theorem exists_drop_nonceCoefficients {X : Xof} {challenge : Bytes32} {rows width layers : Nat}
    (stage : Nat) {mask : List UInt8} (rest : List UInt8)
    (h : (nonceMasks X challenge rows width layers)[stage]? = some mask) :
    ∃ rest', (nonceCoefficients X challenge rows width layers ++ rest).drop
      (stage * (1 + rows.log2 + width.log2)) = mask ++ rest' := by
  obtain ⟨rest', hrest⟩ := exists_drop_flatten length_of_mem_nonceMasks h
  rw [flatten_nonceMasks] at hrest
  refine ⟨rest' ++ rest, ?_⟩
  rw [List.drop_append_of_le_length, hrest, List.append_assoc]
  obtain ⟨hstage, _⟩ := List.getElem?_eq_some_iff.mp h
  have hlength : (nonceMasks X challenge rows width layers).length = layers + 1 := by
    rw [nonceMasks, List.length_cons, List.length_map, List.length_range]
  rw [length_nonceCoefficients]
  exact Nat.mul_le_mul_right _ (by omega)

/-! ## From barrier to barrier -/

theorem centered_of_proveCell {mask weights : List UInt8} {rows width : Nat} {activation : List Int}
    {cell : Nat × Nat} {made : Int × ReductionWitness × Int}
    (h : proveCell mask rows width activation weights cell = .ok made) : Centered made.2.2 := by
  simp only [proveCell, bind_eq_ok, pure_eq_ok] at h
  obtain ⟨_, _, _, _, _, _, z, _, reduction, hreduction, output, houtput, rfl⟩ := h
  exact Reduced.centered ⟨hreduction, houtput⟩

section

variable {X : Xof} {challenge : Bytes32} {rows width layers : Nat} (hshape : CudaShape rows width)
variable {transposed : List Int8} {coefficients : List UInt8} {block : Nat}

theorem thread_lt (hshape : CudaShape rows width) {i : Nat} (hi : i < rows * width) :
    i < cudaThreads := by
  have hcells := Nat.mul_le_mul hshape.rowsMax hshape.widthMax
  have hthreads : cudaThreads = 128 := rfl
  omega

include hshape

/-- A bank that every thread wrote its cell of. -/
theorem holds_of_writes {stage : Nat} {activation : List Int} {after : Place → UInt8}
    (hlength : activation.length = rows * width)
    (h : ∀ t : Fin cudaThreads, ∃ memory' : Place → UInt8,
      (∀ value, activation[t.val]? = some value →
        (memory' (.activation block (stage % 2) t)).toInt8.toInt = value) ∧
      ∀ place ∈ (footprint (rows * width) block).writes stage t, after place = memory' place) :
    Holds after block (stage % 2) activation := by
  intro i value hvalue
  obtain ⟨hi, _⟩ := List.getElem?_eq_some_iff.mp hvalue
  obtain ⟨memory', hcell, hsame⟩ := h ⟨i, thread_lt hshape (hlength ▸ hi)⟩
  rw [hsame _ (.inl rfl)]
  exact hcell value hvalue

/-- The layers that remain, from a barrier on. -/
theorem exists_progress_layers {weightsRest : List (List UInt8)} {layer : Nat}
    {activation final : List Int} {witnesses : List LayerWitness} {bytes : List UInt8}
    {memory : Place → UInt8}
    (hweights : ∀ i weights, weightsRest[i]? = some weights → IsWeights width weights ∧
      ∀ col < width, ∀ common < width, ∃ weight byte,
        weights[common * width + col]? = some weight ∧
          transposed[(layer + i) * width * width + col * width + common]? = some byte ∧
          byte.toInt = decodeModelByte weight)
    (hmasks : ∀ i < weightsRest.length, ∃ rest, coefficients.drop
      ((layer + i + 1) * (1 + rows.log2 + width.log2)) =
        maskCoefficients X challenge (UInt32.ofNat (layer + i)) rows width ++ rest)
    (hlayers : layer + weightsRest.length = layers)
    (hprove : proveLayers X challenge rows width layer activation weightsRest =
      .ok (witnesses, final))
    (hactivation : IsActivation rows width activation)
    (hholds : Holds memory block (layer % 2) activation)
    (hbytes : activationBytes final = .ok bytes) (hsize : bytes.length = rows * width) :
    ∃ steps, Progress (footprint (rows * width) block) (Outputs (rows * width) block bytes)
      (layer + 1) steps memory fun t => layersFrom transposed coefficients rows width layers
        (1 + rows.log2 + width.log2) block t weightsRest.length layer := by
  have hreads : ∀ t i, Place.activation block (layer % 2) i ∈
      (footprint (rows * width) block).reads (layer + 1) t := fun t i => ⟨i, by
    rw [show (layer + 1 + 1) % 2 = layer % 2 by omega]⟩
  induction weightsRest generalizing layer activation witnesses memory with
  | nil =>
      obtain ⟨rfl, rfl⟩ := Prod.mk.inj (pure_eq_ok.mp hprove)
      obtain rfl : layer = layers := hlayers
      refine Progress.of_done (P := fun t memory' => ∀ byte, bytes[t.val]? = some byte →
        memory' (.output (block * (rows * width) + t)) = byte) (fun t => ?_) ?_
      · by_cases ht : t.val < rows * width
        · have hwrite : Place.output (block * (rows * width) + t) ∈
              (footprint (rows * width) block).writes (layer + 1) t := .inr ⟨ht, rfl⟩
          obtain ⟨byte, hreturns, hbyte⟩ := returns_outputStage ht hactivation.length hbytes hholds
            (hreads t) hwrite
          refine ⟨_, hreturns, fun found hfound => ?_⟩
          cases hbyte.symm.trans hfound
          exact Function.update_self _ _ _
        · refine ⟨memory, ?_, fun byte hbyte => absurd ?_ ht⟩
          · rw [List.length_nil, layersFrom, outputStage, if_neg ht]
            exact .pure ()
          · rw [← hsize]
            exact (List.getElem?_eq_some_iff.mp hbyte).1
      · intro after memory' hafter howned i byte hbyte
        have hi : i < rows * width := hsize ▸ (List.getElem?_eq_some_iff.mp hbyte).1
        obtain ⟨written, hcell, hsame⟩ := hafter ⟨i, thread_lt hshape hi⟩
        rw [howned _ (.inr ⟨i, hi, rfl⟩), hsame _ (.inr ⟨hi, rfl⟩)]
        exact hcell byte hbyte
  | cons weights weightsRest ih =>
      rw [proveLayers] at hprove
      obtain ⟨found, hfound, hprove⟩ := bind_eq_ok.mp hprove
      obtain ⟨⟨later, last⟩, hrest, hprove⟩ := bind_eq_ok.mp hprove
      cases pure_eq_ok.mp hprove
      obtain ⟨hcount, hcells⟩ := mapM_cells_eq_ok.mp hfound
      have hnext : IsActivation rows width (found.map (·.2.2)) := by
        refine ⟨by rw [List.length_map, hcount], fun value hvalue => ?_⟩
        obtain ⟨made, hmade, rfl⟩ := List.mem_map.mp hvalue
        obtain ⟨i, hi⟩ := List.mem_iff_getElem?.mp hmade
        exact centered_of_proveCell (hcells i made hi)
      obtain ⟨hlayer, htransposed⟩ := hweights 0 weights rfl
      obtain ⟨rest, hmask⟩ := hmasks 0 (Nat.succ_pos _)
      refine Progress.of_barrier
        (fun t : Fin cudaThreads => layerStage transposed coefficients rows width (1 + rows.log2 + width.log2) block t
          layer)
        (fun t : Fin cudaThreads => layersFrom transposed coefficients rows width layers
          (1 + rows.log2 + width.log2) block t weightsRest.length (layer + 1))
        (P := fun t memory' => ∀ value, (found.map (·.2.2))[t.val]? = some value →
          (memory' (.activation block ((layer + 1) % 2) t)).toInt8.toInt = value) (fun t => ?_) ?_
      · by_cases ht : t.val < rows * width
        · have hmade := hcells t.val _ (List.getElem?_eq_getElem (hcount ▸ ht))
          have hwrite : Place.activation block ((layer + 1) % 2) t ∈
              (footprint (rows * width) block).writes (layer + 1) t := .inl rfl
          obtain ⟨byte, hreturns, hbyte⟩ := returns_layerStage hshape
            (isMask_maskCoefficients X challenge _ rows width) ht hactivation hlayer htransposed hmask
            hmade hholds (hreads t) hwrite
          refine ⟨_, hreturns, fun value hvalue => ?_⟩
          rw [List.getElem?_map, List.getElem?_eq_getElem (hcount ▸ ht), Option.map_some,
            Option.some.injEq] at hvalue
          rw [Function.update_self, hbyte, hvalue]
        · refine ⟨memory, ?_, fun value hvalue => absurd ?_ ht⟩
          · rw [layerStage, if_neg ht]
            exact .pure ()
          · rw [← hnext.length]
            exact (List.getElem?_eq_some_iff.mp hvalue).1
      · intro after hafter
        refine ih (fun i weights hi => ?_) (fun i hi => ?_) (by rw [← hlayers, List.length_cons]; omega)
          hrest hnext (holds_of_writes hshape hnext.length hafter) fun t i => ⟨i, by
          rw [show (layer + 1 + 1 + 1) % 2 = (layer + 1) % 2 by omega]⟩
        · obtain ⟨hlayer, htransposed⟩ := hweights (i + 1) weights hi
          refine ⟨hlayer, fun col hcol common hcommon => ?_⟩
          rw [show layer + 1 + i = layer + (i + 1) by omega]
          exact htransposed col hcol common hcommon
        · rw [show layer + 1 + i = layer + (i + 1) by omega]
          exact hmasks (i + 1) (Nat.succ_lt_succ hi)

end

/-! ## A launched batch -/

section

variable {P : Platform} {X : Xof} {reference : ForgeMatrixV2Reference} {block : BlockChallenge}
variable {startNonce : UInt64} {count : UInt32} {batch : ForgeMatrixV2AcceleratorBatch}
variable {context : CudaContext}

theorem ForgeMatrixV2Reference.WellFormed.shape (hreference : reference.WellFormed P) :
    CudaShape reference.rows reference.width :=
  ⟨hreference.rows, hreference.width, hreference.rowsPower, hreference.widthPower⟩

/-- The weights of a layer, where the device has them. -/
theorem CudaContext.Keeps.layer (hkeeps : context.Keeps reference)
    (hreference : reference.WellFormed P) {layer : Nat} {weights : List UInt8}
    (hlayer : reference.weights[layer]? = some weights) :
    IsWeights reference.width weights ∧
      ∀ col < reference.width, ∀ common < reference.width, ∃ weight byte,
        weights[common * reference.width + col]? = some weight ∧
          context.weights[layer * reference.width * reference.width + col * reference.width +
            common]? = some byte ∧
          byte.toInt = decodeModelByte weight := by
  have hweights := hreference.weights _ (List.mem_of_getElem? hlayer)
  obtain ⟨hlt, _⟩ := List.getElem?_eq_some_iff.mp hlayer
  refine ⟨hweights, fun col hcol common hcommon => ?_⟩
  obtain ⟨weight, byte, hweight, hbyte, hint⟩ :=
    hkeeps.weights.entry layer hlt col hcol common hcommon
  obtain ⟨rest, hrest⟩ := exists_drop_flatten
    (fun layer hmem => (hreference.weights layer hmem).length) hlayer
  refine ⟨weight, byte, ?_, hbyte, hint⟩
  have hcell : common * reference.width + col < weights.length :=
    hweights.length ▸ index_lt hcommon hcol
  rw [Nat.mul_assoc, Nat.add_assoc, ← List.getElem?_drop, hrest,
    List.getElem?_append_left hcell] at hweight
  exact hweight

/-- A block comes to its end with the bytes of its nonce. -/
theorem exists_progress (hreference : reference.WellFormed P) (hkeeps : context.Keeps reference)
    (hbatch : PreparedBatch P X reference block startNonce count batch)
    (memory : Place → UInt8) (index : Fin count.toNat) :
    ∃ bytes steps, HonestOutput P X reference block (startNonce + UInt64.ofNat index) bytes ∧
      bytes.length = reference.rows * reference.width ∧
      Progress (footprint (reference.rows * reference.width) index)
        (Outputs (reference.rows * reference.width) index bytes) 0 steps memory
        ((context.launch batch.coefficients count memory).threads index) := by
  have hshape := hreference.shape
  obtain ⟨bytes, hhonest, hsize, _⟩ :=
    exists_honestOutput X hreference hbatch.network (startNonce + UInt64.ofNat index)
  obtain ⟨proof, hproof, hbytes⟩ := hhonest
  obtain ⟨hchallenge, ⟨made, hmade, hinitial⟩, hlayers, _⟩ := proveReference_eq_ok hproof
  obtain ⟨hactivation, _⟩ := isActivation_finalActivation X hreference hproof
  obtain ⟨hcount, hcells⟩ := mapM_cells_eq_ok.mp hmade
  -- the masks of this nonce
  have hlt : index.val < batch.challenges.length := by
    rw [hbatch.challenges]
    exact index.isLt
  have hsame := hbatch.challenge index _ (List.getElem?_eq_getElem hlt)
  rw [hchallenge, Except.ok.injEq] at hsame
  obtain ⟨rest, hcoefficients⟩ : ∃ rest, batch.coefficients.drop
      (index * ((reference.weights.length + 1) * (1 + reference.rows.log2 + reference.width.log2))) =
        nonceCoefficients X proof.challengeDigest reference.rows reference.width
          reference.weights.length ++ rest := by
    rw [hbatch.coefficients, List.flatMap_def, hreference.layers]
    refine exists_drop_flatten (fun masks hmasks => ?_) ?_
    · obtain ⟨challenge, _, rfl⟩ := List.mem_map.mp hmasks
      exact length_nonceCoefficients X challenge _ _ _
    · rw [List.getElem?_map, List.getElem?_eq_getElem hlt, Option.map_some, ← hsame]
  obtain ⟨rest₀, hfirst⟩ := exists_drop_nonceCoefficients 0 rest
    (show (nonceMasks X proof.challengeDigest reference.rows reference.width
      reference.weights.length)[0]? = some _ from rfl)
  rw [Nat.zero_mul, List.drop_zero] at hfirst
  have hthreads : (context.launch batch.coefficients count memory).threads index =
      (fun t : Fin cudaThreads => do
        inputStage reference.baseInput (nonceCoefficients X proof.challengeDigest reference.rows
          reference.width reference.weights.length ++ rest) reference.rows reference.width index t
        Thread.barrier
        layersFrom context.weights (nonceCoefficients X proof.challengeDigest reference.rows
          reference.width reference.weights.length ++ rest) reference.rows reference.width
          reference.weights.length (1 + reference.rows.log2 + reference.width.log2) index t
          reference.weights.length 0) := by
    funext t
    rw [CudaContext.launch]
    simp only [evaluateBatch, hkeeps.rows, hkeeps.width, hkeeps.layers, hkeeps.coefficientCount,
      hkeeps.base, Nat.mul_assoc, hcoefficients]
    rw [if_neg (not_le.mpr index.isLt)]
  rw [hthreads]
  refine ⟨bytes, ?_⟩
  suffices hprogress : ∃ steps, Progress (footprint (reference.rows * reference.width) index)
      (Outputs (reference.rows * reference.width) index bytes) 0 steps memory _ by
    obtain ⟨steps, hprogress⟩ := hprogress
    exact ⟨steps, ⟨proof, hproof, hbytes⟩, hsize, hprogress⟩
  refine Progress.of_barrier _ _ (P := fun t memory' => ∀ value,
    proof.initialActivation[t.val]? = some value →
      (memory' (.activation index (0 % 2) t)).toInt8.toInt = value) (fun t => ?_) fun after hafter => ?_
  · by_cases ht : t.val < reference.rows * reference.width
    · have hcell := hcells t.val _ (List.getElem?_eq_getElem (hcount ▸ ht))
      have hwrite : Place.activation index (0 % 2) t ∈
          (footprint (reference.rows * reference.width) index).writes 0 t := .inl rfl
      obtain ⟨byte, hreturns, hbyte⟩ := returns_inputStage hshape
        (isMask_maskCoefficients X proof.challengeDigest inputMaskIndex reference.rows reference.width)
        ht hcell hwrite
      rw [hfirst]
      refine ⟨_, hreturns, fun value hvalue => ?_⟩
      rw [hinitial, List.getElem?_map, List.getElem?_eq_getElem (hcount ▸ ht), Option.map_some,
        Option.some.injEq] at hvalue
      rw [← hvalue, ← hbyte]
      exact congrArg (fun stored : UInt8 => stored.toInt8.toInt) (Function.update_self _ _ _)
    · refine ⟨memory, ?_, fun value hvalue => absurd ?_ ht⟩
      · rw [inputStage, if_neg ht]
        exact .pure ()
      · rw [← hactivation.length]
        exact (List.getElem?_eq_some_iff.mp hvalue).1
  · refine exists_progress_layers hshape (fun i weights hi => ?_) (fun i hi => ?_) (Nat.zero_add _)
      hlayers hactivation (holds_of_writes hshape hactivation.length hafter) hbytes hsize
    · rw [Nat.zero_add]
      exact hkeeps.layer hreference hi
    · refine exists_drop_nonceCoefficients _ rest ?_
      rw [Nat.zero_add, nonceMasks, List.getElem?_cons_succ, List.getElem?_map,
        List.getElem?_range hi, Option.map_some]

theorem allowed_nonceCoefficients (X : Xof) (challenge : Bytes32) (rows width layers : Nat) :
    Allowed (nonceCoefficients X challenge rows width layers) := by
  have hmask : ∀ layer, Allowed (maskCoefficients X challenge layer rows width) :=
    fun layer coefficient hmem => UInt8.le_iff_toNat_le.mpr
      ((isMask_maskCoefficients X challenge layer rows width).bounded coefficient hmem)
  rw [nonceCoefficients]
  intro coefficient hmem
  rcases List.mem_append.mp hmem with hmem | hmem
  · exact hmask _ coefficient hmem
  · obtain ⟨layer, _, hmem⟩ := List.mem_flatMap.mp hmem
    exact hmask _ coefficient hmem

/-- A prepared batch passes the checks of the device. -/
theorem checkBatch_prepared (hreference : reference.WellFormed P)
    (hkeeps : context.Keeps reference)
    (hbatch : PreparedBatch P X reference block startNonce count batch) :
    context.checkBatch batch.coefficients count (count.toNat * batch.activationLen) = .ok () := by
  have hcount : ¬(count = 0 ∨ count > cudaMaxBatch) := by
    rintro (rfl | hgt)
    · exact absurd hbatch.count_pos (Nat.lt_irrefl 0)
    · exact absurd (UInt32.lt_iff_toNat_lt.mp hgt) (not_lt.mpr hbatch.count_le)
  have hlength : batch.coefficients.length =
      count.toNat * (context.layers.toNat + 1) * context.coefficientCount.toNat := by
    rw [hbatch.coefficients, List.flatMap_def, length_flatten_of_forall fun masks hmasks => by
      obtain ⟨challenge, _, rfl⟩ := List.mem_map.mp hmasks
      exact length_nonceCoefficients X challenge _ _ _, List.length_map, hbatch.challenges,
      hkeeps.layers, hkeeps.coefficientCount, hreference.layers, Nat.mul_assoc]
  have hlengths : ¬(batch.coefficients.length ≠
        count.toNat * (context.layers.toNat + 1) * context.coefficientCount.toNat ∨
      count.toNat * batch.activationLen ≠ count.toNat * context.activationLen) := by
    rw [not_or, not_not, not_not, hbatch.activationLen, hkeeps.activationLen]
    exact ⟨hlength, rfl⟩
  rw [CudaContext.checkBatch, require_pos hcount, ok_bind]
  dsimp only
  rw [require_pos hlengths, ok_bind]
  refine validateCanonical_of_allowed (fun coefficient hmem => ?_) _
  rw [hbatch.coefficients] at hmem
  obtain ⟨challenge, _, hmem⟩ := List.mem_flatMap.mp hmem
  exact allowed_nonceCoefficients X challenge _ _ _ coefficient hmem

theorem exists_follows (hreference : reference.WellFormed P) (hkeeps : context.Keeps reference)
    (hbatch : PreparedBatch P X reference block startNonce count batch)
    (memory : Place → UInt8) :
    ∃ (bytes : Fin count.toNat → List UInt8) (steps : Nat),
      (∀ index : Fin count.toNat,
        HonestOutput P X reference block (startNonce + UInt64.ofNat index) (bytes index) ∧
          (bytes index).length = reference.rows * reference.width) ∧
      Grid.Follows (fun index : Fin count.toNat =>
          footprint (reference.rows * reference.width) index)
        (fun index : Fin count.toNat =>
          Outputs (reference.rows * reference.width) index (bytes index))
        (context.launch batch.coefficients count memory) steps := by
  choose bytes left hhonest hsize hprogress using exists_progress hreference hkeeps hbatch memory
  exact ⟨bytes, _, fun index => ⟨hhonest index, hsize index⟩, left, rfl, hprogress⟩

end

/-- On every explicit model and every prepared batch, the launched grid takes a number of steps
that does not depend on their order, and leaves the bytes of the reference proof for every
nonce.  On the way no thread aborts, and where the threads of a block read one bank, they
write the other. -/
theorem kernel_agreement (P : Platform) (X : Xof) (blake3 : List UInt8 → Bytes32)
    {descriptor : ForgeMatrixV2Descriptor} {baseInput : List UInt8} {weights : List (List UInt8)}
    {reference : ForgeMatrixV2Reference} {block : BlockChallenge} {startNonce : UInt64}
    {count : UInt32} {batch : ForgeMatrixV2AcceleratorBatch} {major : Nat}
    (hreference : ForgeMatrixV2Reference.fromExplicitModel P blake3 descriptor baseInput weights =
      .ok reference)
    (hbatch : reference.prepareAcceleratorBatch P X block startNonce count = .ok batch)
    (hmajor : 7 ≤ major) :
    ∃ context, cmfdCudaCreate major reference.acceleratorModel.rows
        reference.acceleratorModel.width reference.acceleratorModel.layers
        reference.acceleratorModel.coefficientCount reference.acceleratorModel.baseInput
        reference.acceleratorModel.weights = .ok context ∧
      context.checkBatch batch.coefficients count (count.toNat * batch.activationLen) = .ok () ∧
      ∀ memory, ∃ steps,
        (∃ grid, Grid.Run steps (context.launch batch.coefficients count memory) grid) ∧
        ∀ taken grid, Grid.Run taken (context.launch batch.coefficients count memory) grid →
          taken ≤ steps ∧ (taken < steps → ∃ grid', grid.Step grid') ∧
          (∀ index thread, grid.threads index thread ≠ .abort) ∧
          (∀ index thread place next, grid.threads index thread = .read place next →
            ∃ i, place = .activation index ((grid.stage index + 1) % 2) i) ∧
          (∀ index thread place value next, grid.threads index thread = .write place value next →
            place = .activation index (grid.stage index % 2) thread ∨
              thread.val < batch.activationLen ∧
                place = .output (index * batch.activationLen + thread)) ∧
          (taken = steps → ∀ index, (∀ thread, grid.threads index thread = .done ()) ∧
            ∃ bytes, HonestOutput P X reference block (startNonce + UInt64.ofNat index) bytes ∧
              bytes.length = batch.activationLen ∧
              ∀ i byte, bytes[i]? = some byte →
                grid.memory (.output (index * batch.activationLen + i)) = byte) := by
  have hformed := wellFormed_of_fromExplicitModel hreference
  have hprepared := preparedBatch_of_eq_ok hbatch
  have : Nonempty (Fin cudaThreads) := ⟨⟨0, by decide⟩⟩
  obtain ⟨context, hcreate, hkeeps⟩ := exists_context hformed hmajor
  refine ⟨context, hcreate, checkBatch_prepared hformed hkeeps hprepared, fun memory => ?_⟩
  obtain ⟨bytes, steps, hhonest, hfollows⟩ := exists_follows hformed hkeeps hprepared memory
  have hseparate := separate_footprint (reference.rows * reference.width) count.toNat
  refine ⟨steps, hfollows.exists_run hseparate, fun taken grid hrun => ?_⟩
  obtain ⟨left, rfl, hrest⟩ := hfollows.run hseparate hrun
  rw [hprepared.activationLen]
  refine ⟨Nat.le_add_right _ _, fun hlt => ?_, fun index thread => (hrest.within index thread).1,
    fun index thread => (hrest.within index thread).2.1,
    fun index thread => (hrest.within index thread).2.2, fun heq index => ?_⟩
  · obtain ⟨left', rfl⟩ := Nat.exists_eq_succ_of_ne_zero (show left ≠ 0 by omega)
    exact hrest.exists_step
  · obtain rfl : left = 0 := by omega
    obtain ⟨hdone, houtputs⟩ := hrest.ended index
    exact ⟨hdone, bytes index, (hhonest index).1, (hhonest index).2, houtputs⟩

/-- A block of the network of the sample model. -/
def sampleKernelBlock : BlockChallenge where
  networkId := toBytes 1
  previousBlock := toBytes 2
  transactionRoot := toBytes 3
  height := 1
  timestamp := 1
  target := toBytes (2 ^ 255)

/-- A batch of two nonces for the sample model, of width two: every run comes to its end, with
the bytes of both. -/
theorem kernel_agreement_sample :
    ∃ reference batch context, ForgeMatrixV2Reference.fromExplicitModel samplePlatform sampleDigest
        sampleDescriptor [7, 250] [[0, 1, 249, 3]] = .ok reference ∧
      reference.prepareAcceleratorBatch samplePlatform sampleXof sampleKernelBlock 5 2 =
        .ok batch ∧
      cmfdCudaCreate 7 1 2 1 2 [7, 250] [0, 1, 249, 3] = .ok context ∧
      ∃ steps grid, Grid.Run steps (context.launch batch.coefficients 2 fun _ => 0) grid ∧
        ∃ bytes, HonestOutput samplePlatform sampleXof reference sampleKernelBlock 6 bytes ∧
          ∀ i byte, bytes[i]? = some byte →
            grid.memory (.output (1 * batch.activationLen + i)) = byte := by
  have hformed := wellFormed_of_fromExplicitModel sampleReference_built
  obtain ⟨batch, hbatch⟩ := exists_prepareAcceleratorBatch sampleXof hformed
    (show sampleKernelBlock.networkId = _ from rfl) 5 (show (2 : UInt32) ≠ 0 by decide) (by decide)
  obtain ⟨context, hcreate, _, hruns⟩ := kernel_agreement samplePlatform sampleXof sampleDigest
    sampleReference_built hbatch (show 7 ≤ 7 from le_rfl)
  obtain ⟨steps, ⟨grid, hrun⟩, hall⟩ := hruns fun _ => 0
  obtain ⟨_, _, _, _, _, hend⟩ := hall steps grid hrun
  obtain ⟨_, bytes, hhonest, _, houtputs⟩ := hend rfl ⟨1, by decide⟩
  exact ⟨_, batch, context, sampleReference_built, hbatch, hcreate, steps, grid, hrun, bytes,
    hhonest, houtputs⟩

end CommonFoundry
