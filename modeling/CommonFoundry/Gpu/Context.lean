/-
# `CommonFoundry.Gpu.Context` — what a context keeps of a model

A model that the reference accepts is accepted by `cmfd_cuda_create` too, and the device then
holds the base input and, for every layer, the centred weights column by column
(`exists_context`).
-/
import CommonFoundry.Consensus.Accelerator
import CommonFoundry.Gpu.Arithmetic
import CommonFoundry.Lib.Blocks

namespace CommonFoundry

open Lib Lib.Outcome

/-- The weights of every layer, centred, and its columns as rows. -/
structure Transposed (layers width : Nat) (weights : List UInt8) (transposed : List Int8) :
    Prop where
  length : transposed.length = layers * width * width
  entry : ∀ layer < layers, ∀ col < width, ∀ common < width, ∃ weight byte,
    weights[layer * width * width + common * width + col]? = some weight ∧
      transposed[layer * width * width + col * width + common]? = some byte ∧
      byte.toInt = decodeModelByte weight

theorem layer_index_lt {layers width layer row col : Nat} (hlayer : layer < layers)
    (hrow : row < width) (hcol : col < width) :
    layer * width * width + row * width + col < layers * width * width := by
  have hcell := index_lt hrow hcol
  have hlayers : layer * (width * width) + (row * width + col) < layers * (width * width) :=
    index_lt hlayer hcell
  rw [Nat.mul_assoc, Nat.mul_assoc, Nat.add_assoc]
  exact hlayers

/-- The weight that goes to a place of a layer. -/
def weightFor (weights : List UInt8) (width layer i : Nat) : Outcome String Int8 := do
  let weight ← itemAt weights (layer * width * width + i % width * width + i / width)
  orAbort (int8 (weight.toNat - 125))

/-- The two inner loops fill a layer in order. -/
theorem foldlM_cells_eq (weights : List UInt8) (width layer : Nat) (transposed : List Int8) :
    (cells width width).foldlM (fun transposed (col, common) => do
        let source := layer * width * width + common * width + col
        let target := layer * width * width + col * width + common
        let weight ← itemAt weights source
        let value ← orAbort (int8 (weight.toNat - 125))
        pure (transposed.set target value)) transposed =
      (List.range (width * width)).foldlM (fun transposed i => do
        let value ← weightFor weights width layer i
        pure (transposed.set (layer * width * width + i) value)) transposed := by
  rw [cells_eq, List.foldlM_map]
  congr 1
  funext transposed i
  have htarget : layer * width * width + i / width * width + i % width =
      layer * width * width + i := by
    rw [Nat.add_assoc, Nat.div_add_mod']
  simp only [htarget, weightFor, bind_assoc]

theorem exists_weightFor {layers width layer i : Nat} {weights : List UInt8}
    (hlength : weights.length = layers * width * width) (hallowed : Allowed weights)
    (hlayer : layer < layers) (hi : i < width * width) :
    ∃ byte, weightFor weights width layer i = .ok byte ∧
      ∃ weight, weights[layer * width * width + i % width * width + i / width]? = some weight ∧
        byte.toInt = decodeModelByte weight := by
  obtain ⟨hcol, hcommon, _⟩ := div_mod_lt hi
  have hlt : layer * width * width + i % width * width + i / width < weights.length :=
    hlength ▸ layer_index_lt hlayer hcommon hcol
  obtain ⟨byte, hbyte, hint⟩ := int8_of_centered
    (decodeModelByte_centered (hallowed _ (List.getElem_mem hlt)))
  refine ⟨byte, ?_, _, List.getElem?_eq_getElem hlt, hint⟩
  rw [weightFor, itemAt_of_lt hlt, ok_bind, show int8 (_ - 125) = some byte from hbyte]
  rfl

theorem exists_transposeWeights {layers width : Nat} {weights : List UInt8}
    (hlength : weights.length = layers * width * width) (hallowed : Allowed weights) :
    ∃ transposed, transposeWeights layers width weights = .ok transposed ∧
      Transposed layers width weights transposed := by
  suffices hpart : ∀ n ≤ layers, ∃ transposed, (List.range n).foldlM (fun transposed layer =>
      (cells width width).foldlM (fun transposed (col, common) => do
        let source := layer * width * width + common * width + col
        let target := layer * width * width + col * width + common
        let weight ← itemAt weights source
        let value ← orAbort (int8 (weight.toNat - 125))
        pure (transposed.set target value)) transposed)
      (List.replicate (layers * width * width) 0) = (.ok transposed : Outcome String (List Int8)) ∧
      transposed.length = layers * width * width ∧
      ∀ layer < n, ∀ i < width * width, ∃ byte,
        transposed[layer * width * width + i]? = some byte ∧
          ∃ weight, weights[layer * width * width + i % width * width + i / width]? = some weight ∧
            byte.toInt = decodeModelByte weight by
    obtain ⟨transposed, hok, hsize, hentries⟩ := hpart layers le_rfl
    refine ⟨transposed, hok, hsize, fun layer hlayer col hcol common hcommon => ?_⟩
    obtain ⟨byte, hbyte, weight, hweight, hint⟩ :=
      hentries layer hlayer (col * width + common) (index_lt hcol hcommon)
    have hdiv : (col * width + common) / width = col := by
      rw [Nat.mul_comm, Nat.mul_add_div (by omega), Nat.div_eq_of_lt hcommon, Nat.add_zero]
    have hmod : (col * width + common) % width = common := by
      rw [Nat.mul_comm, Nat.mul_add_mod, Nat.mod_eq_of_lt hcommon]
    rw [hdiv, hmod] at hweight
    rw [← Nat.add_assoc] at hbyte
    exact ⟨weight, byte, hweight, hbyte, hint⟩
  intro n hn
  induction n with
  | zero => exact ⟨_, rfl, List.length_replicate, fun layer hlayer => absurd hlayer (Nat.not_lt_zero _)⟩
  | succ n ih =>
      obtain ⟨before, hbefore, hsize, hentries⟩ := ih (by omega)
      have hfits : n * width * width + width * width ≤ before.length := by
        have hlayers := Nat.mul_le_mul_right (width * width) hn
        rw [hsize, Nat.mul_assoc, Nat.mul_assoc, ← Nat.succ_mul]
        exact hlayers
      obtain ⟨after, hafter, hsame, hlayer, hkept⟩ := exists_foldlM_set hfits fun i hi =>
        exists_weightFor hlength hallowed (show n < layers by omega) hi
      refine ⟨after, ?_, hsame.trans hsize, fun layer hlt i hi => ?_⟩
      · rw [List.range_succ, foldlM_append_eq_ok]
        refine ⟨before, hbefore, ?_⟩
        rw [List.foldlM_cons, foldlM_cells_eq, hafter]
        rfl
      · rcases Nat.lt_succ_iff_lt_or_eq.mp hlt with hlt | rfl
        · have hbefore : layer * width * width + i < n * width * width := by
            have hlt := index_lt hlt hi
            rw [Nat.mul_assoc, Nat.mul_assoc]
            exact hlt
          rw [hkept _ hbefore]
          exact hentries layer hlt i hi
        · exact hlayer i hi

/-! ## A context of a reference -/

/-- What the device holds of a reference. -/
structure CudaContext.Keeps (context : CudaContext) (reference : ForgeMatrixV2Reference) :
    Prop where
  rows : context.rows.toNat = reference.rows
  width : context.width.toNat = reference.width
  layers : context.layers.toNat = reference.weights.length
  coefficientCount : context.coefficientCount.toNat = 1 + reference.rows.log2 + reference.width.log2
  activationLen : context.activationLen = reference.rows * reference.width
  base : context.base = reference.baseInput
  weights : Transposed reference.weights.length reference.width reference.weights.flatten
    context.weights

section

variable {P : Platform} {reference : ForgeMatrixV2Reference} (hreference : reference.WellFormed P)

include hreference

theorem toNat_coefficientCount :
    reference.acceleratorModel.coefficientCount.toNat =
      1 + reference.rows.log2 + reference.width.log2 := by
  have hrows := (Nat.log2_le_self reference.rows).trans hreference.rows
  have hwidth := (Nat.log2_le_self reference.width).trans hreference.width
  rw [ForgeMatrixV2Reference.acceleratorModel]
  simp only [UInt32.toNat_add, UInt32.toNat_one, UInt32.toNat_ofNat']
  omega

theorem length_flatten_weights :
    reference.weights.flatten.length =
      reference.weights.length * reference.width * reference.width := by
  rw [length_flatten_of_forall fun layer hlayer => (hreference.weights layer hlayer).length,
    Nat.mul_assoc]

theorem allowed_flatten_weights : Allowed reference.weights.flatten := by
  intro value hvalue
  obtain ⟨layer, hlayer, hvalue⟩ := List.mem_flatten.mp hvalue
  exact (hreference.weights layer hlayer).allowed value hvalue

end

theorem validateCanonical_of_allowed {values : List UInt8} (h : Allowed values) (label : String) :
    validateCanonical values label = .ok () :=
  require_pos fun ⟨value, hmem, hgt⟩ => absurd (h value hmem) (UInt8.not_le.mpr hgt)

/-- Every model of the reference is accepted by a device that is new enough. -/
theorem exists_context {P : Platform} {reference : ForgeMatrixV2Reference}
    (hreference : reference.WellFormed P) {major : Nat} (hmajor : 7 ≤ major) :
    ∃ context, cmfdCudaCreate major reference.acceleratorModel.rows
        reference.acceleratorModel.width reference.acceleratorModel.layers
        reference.acceleratorModel.coefficientCount reference.acceleratorModel.baseInput
        reference.acceleratorModel.weights = .ok context ∧ context.Keeps reference := by
  have hshape : ¬(reference.acceleratorModel.rows = 0 ∨
      reference.acceleratorModel.rows > cudaMaxRows ∨ reference.acceleratorModel.width = 0 ∨
      reference.acceleratorModel.width > cudaMaxWidth ∨ reference.acceleratorModel.layers = 0 ∨
      reference.acceleratorModel.layers > cudaMaxLayers) := by
    have hlayers := hreference.layers
    have hlayersPos := hreference.layersPos
    have hlayersMax := hreference.layersMax
    have hzero : ∀ {n : UInt32}, 0 < n.toNat → n ≠ 0 := fun hpos heq => by
      rw [heq] at hpos
      exact absurd hpos (Nat.lt_irrefl 0)
    have hmax : ∀ {n limit : UInt32}, n.toNat ≤ limit.toNat → ¬n > limit := fun hle =>
      UInt32.not_lt.mpr (UInt32.le_iff_toNat_le.mpr hle)
    rw [not_or, not_or, not_or, not_or, not_or]
    exact ⟨hzero hreference.rowsPower.1, hmax hreference.rows, hzero hreference.widthPower.1,
      hmax hreference.width, hzero (hlayers ▸ hlayersPos), hmax (hlayers ▸ hlayersMax)⟩
  obtain ⟨hrowsPos, hrowsPower⟩ := hreference.rowsPower
  obtain ⟨hwidthPos, hwidthPower⟩ := hreference.widthPower
  have hrowsMax := hreference.rows
  have hwidthMax := hreference.width
  have hrowBits : exactLog2 reference.rows = .ok reference.rows.log2 := by
    have hpower := exactLog2_two_pow ((Nat.log2_lt hrowsPos.ne').mpr
      (show reference.rows < 2 ^ 32 by omega))
    rwa [hrowsPower] at hpower
  have hcolBits : exactLog2 reference.width = .ok reference.width.log2 := by
    have hpower := exactLog2_two_pow ((Nat.log2_lt hwidthPos.ne').mpr
      (show reference.width < 2 ^ 32 by omega))
    rwa [hwidthPower] at hpower
  have hlengths : ¬(reference.acceleratorModel.baseInput.length ≠
        reference.acceleratorModel.rows.toNat * reference.acceleratorModel.width.toNat ∨
      reference.acceleratorModel.weights.length ≠ reference.acceleratorModel.layers.toNat *
        reference.acceleratorModel.width.toNat * reference.acceleratorModel.width.toNat) := by
    rw [not_or, not_not, not_not]
    exact ⟨hreference.baseInput, (length_flatten_weights hreference).trans
      (by rw [← hreference.layers]; rfl)⟩
  obtain ⟨transposed, htransposed, hkeeps⟩ :=
    exists_transposeWeights (length_flatten_weights hreference) (allowed_flatten_weights hreference)
  rw [cmfdCudaCreate, require_pos hshape, ok_bind]
  rw [show exactLog2 reference.acceleratorModel.rows.toNat = .ok reference.rows.log2 from hrowBits,
    ok_bind, show exactLog2 reference.acceleratorModel.width.toNat = .ok reference.width.log2 from
      hcolBits, ok_bind, require_pos (toNat_coefficientCount hreference), ok_bind]
  dsimp only
  rw [require_pos hlengths, ok_bind,
    show validateCanonical reference.acceleratorModel.baseInput "base input" = .ok () from
      validateCanonical_of_allowed hreference.baseAllowed _, ok_bind,
    show validateCanonical reference.acceleratorModel.weights "weights" = .ok () from
      validateCanonical_of_allowed (allowed_flatten_weights hreference) _, ok_bind,
    require_pos (not_lt.mpr hmajor), ok_bind,
    show transposeWeights reference.acceleratorModel.layers.toNat
        reference.acceleratorModel.width.toNat reference.acceleratorModel.weights =
      .ok transposed from hreference.layers ▸ htransposed, ok_bind]
  exact ⟨_, rfl, rfl, rfl, hreference.layers, toNat_coefficientCount hreference, rfl, rfl, hkeeps⟩

end CommonFoundry
