/-
# `CommonFoundry.Consensus.ForgeMatrixAgreement` — the v2 verifier accepts what the prover makes

On a grid of the research profile the masks stay small and the activations are between
-125 and 125 at every layer, so no number of an honest run comes near a limit: every cell
can be made (`exists_proveCell`), and the verifier takes the cell that the prover makes and
no other (`verifyCell_iff`).  Cell by cell and layer by layer, the accepted proof is the
proof of the prover.

`WellFormed` is what an explicit model brings along: its shape, and the range of its bytes.
-/
import CommonFoundry.Consensus.ForgeMatrixReduction
import CommonFoundry.Consensus.ModelBankExact

namespace CommonFoundry

open Lib Lib.Outcome

/-! ## Numbers that fit -/

theorem checkedI32_of_small {n : Int} (h : n.natAbs < v2TransitionModulus) :
    checkedI32 n = .ok n := by
  rw [v2TransitionModulus] at h
  exact if_pos (by omega)

theorem checkedI64_of_small {n : Int} (h : n.natAbs < v2TransitionModulus) :
    checkedI64 n = .ok n := by
  rw [v2TransitionModulus] at h
  exact if_pos (by omega)

theorem decodeModelByte_centered {value : UInt8} (h : value ≤ maxModelByte) :
    Centered (decodeModelByte value) := by
  have hle := UInt8.le_iff_toNat_le.mp h
  have hmax : maxModelByte.toNat = 250 := rfl
  have hcenter : center = 125 := rfl
  rw [Centered, decodeModelByte]
  omega

/-- A cell of a table. -/
theorem index_lt {row col rows width : Nat} (hrow : row < rows) (hcol : col < width) :
    row * width + col < rows * width := by
  have hrows := Nat.mul_le_mul_right width (Nat.succ_le_of_lt hrow)
  rw [Nat.succ_mul] at hrows
  omega

/-! ## What a cell is made from -/

/-- A cell of the input is made from its masked number. -/
theorem proveInput_eq_ok {mask baseInput : List UInt8} {rows width : Nat} {cell : Nat × Nat}
    {made : ReductionWitness × Int} :
    proveInput mask rows width baseInput cell = .ok made ↔
      ∃ z, inputZ mask rows width baseInput cell.1 cell.2 = .ok z ∧ Reduced z made.1 made.2 := by
  simp only [proveInput, bind_eq_ok, pure_eq_ok]
  constructor
  · rintro ⟨z, hz, reduction, hreduction, activation, hactivation, rfl⟩
    exact ⟨z, hz, hreduction, hactivation⟩
  · rintro ⟨z, hz, hreduction, hactivation⟩
    exact ⟨z, hz, made.1, hreduction, made.2, hactivation, rfl⟩

/-- The witness has these numbers for a cell. -/
def LayerWitness.HasCell (layer : LayerWitness) (index : Nat)
    (made : Int × ReductionWitness × Int) : Prop :=
  layer.accumulators[index]? = some made.1 ∧ layer.reductions[index]? = some made.2.1 ∧
    layer.output[index]? = some made.2.2

/-! ## Masks -/

/-- The coefficients of a mask. -/
structure IsMask (mask : List UInt8) (rows width : Nat) : Prop where
  length : mask.length = 1 + rows.log2 + width.log2
  bounded : ∀ coefficient ∈ mask, coefficient.toNat ≤ 250

theorem isMask_maskCoefficients (X : Xof) (challenge : Bytes32) (layer : UInt32)
    (rows width : Nat) : IsMask (maskCoefficients X challenge layer rows width) rows width := by
  refine ⟨length_sample _ _ _ _ _ (Nat.zero_le _), fun coefficient hmem => ?_⟩
  have hkept := sample_kept _ _ _ _ _ (fun a ha => by cases ha) coefficient hmem
  exact UInt8.le_iff_toNat_le.mp (of_decide_eq_true hkept)

/-- Every bit adds a coefficient or nothing. -/
theorem exists_addMaskBits {mask : List UInt8} (offset position bits : Nat) (value : Int)
    (hbounded : ∀ coefficient ∈ mask, coefficient.toNat ≤ 250)
    (hlength : offset + bits ≤ mask.length) :
    ∃ final, addMaskBits mask offset position bits value = .ok final ∧ value ≤ final ∧
      final ≤ value + 250 * bits := by
  induction bits with
  | zero => exact ⟨value, rfl, le_rfl, by omega⟩
  | succ bits ih =>
      obtain ⟨before, hbefore, hlow, hhigh⟩ := ih (by omega)
      have hlt : offset + bits < mask.length := by omega
      have hcoefficient := hbounded _ (List.getElem_mem hlt)
      by_cases hbit : position.testBit bits
      · refine ⟨before + mask[offset + bits].toNat, ?_, by omega, by push_cast; omega⟩
        rw [addMaskBits, List.range_succ, foldlM_append_eq_ok]
        refine ⟨before, hbefore, ?_⟩
        rw [List.foldlM_cons, if_pos hbit, itemAt_of_lt hlt]
        rfl
      · refine ⟨before, ?_, hlow, by push_cast; omega⟩
        rw [addMaskBits, List.range_succ, foldlM_append_eq_ok]
        refine ⟨before, hbefore, ?_⟩
        rw [List.foldlM_cons, if_neg hbit]
        rfl

section

variable {mask : List UInt8} {rows width : Nat} (hrows : rows ≤ 4) (hwidth : width ≤ 32)
variable (hmask : IsMask mask rows width)

include hrows hwidth hmask

/-- The mask of a cell, on a grid of the research profile. -/
theorem exists_maskValue (row col : Nat) :
    ∃ value, maskValue mask row col rows width = .ok value ∧ 0 ≤ value ∧ value ≤ 9250 := by
  have hrowBits := Nat.log2_le_self rows
  have hcolBits := Nat.log2_le_self width
  have hlength := hmask.length
  have hpos : 0 < mask.length := by omega
  have hfirst := hmask.bounded _ (List.getElem_mem hpos)
  obtain ⟨middle, hmiddle, hlow, hhigh⟩ := exists_addMaskBits 1 row rows.log2 mask[0].toNat
    hmask.bounded (by omega)
  obtain ⟨final, hfinal, hlow', hhigh'⟩ := exists_addMaskBits (1 + rows.log2) col width.log2
    middle hmask.bounded (by omega)
  refine ⟨final, ?_, by omega, by omega⟩
  rw [maskValue, require_pos hlength, ok_bind, itemAt_of_lt hpos, ok_bind, hmiddle, ok_bind, hfinal]

/-! ## The cells of the input -/

/-- The masked input of a cell. -/
theorem exists_inputZ {baseInput : List UInt8} {row col : Nat} (hrow : row < rows)
    (hcol : col < width) (hlength : baseInput.length = rows * width) (hbase : Allowed baseInput) :
    ∃ z, inputZ mask rows width baseInput row col = .ok z ∧ z.natAbs < v2TransitionModulus := by
  have hlt : row * width + col < baseInput.length := hlength ▸ index_lt hrow hcol
  obtain ⟨hleft, hright⟩ := decodeModelByte_centered (hbase _ (List.getElem_mem hlt))
  obtain ⟨value, hvalue, hlow, hhigh⟩ := exists_maskValue hrows hwidth hmask row col
  have hbound : (decodeModelByte baseInput[row * width + col] + value).natAbs <
      v2TransitionModulus := by
    rw [v2TransitionModulus]
    omega
  refine ⟨_, ?_, hbound⟩
  rw [inputZ, itemAt_of_lt hlt, ok_bind, hvalue, ok_bind, checkedI32_of_small hbound]

theorem exists_proveInput {baseInput : List UInt8} {row col : Nat} (hrow : row < rows)
    (hcol : col < width) (hlength : baseInput.length = rows * width) (hbase : Allowed baseInput) :
    ∃ made, proveInput mask rows width baseInput (row, col) = .ok made ∧ Centered made.2 := by
  obtain ⟨z, hz, hbound⟩ := exists_inputZ hrows hwidth hmask hrow hcol hlength hbase
  obtain ⟨reduction, activation, hreduced, hcentered⟩ := exists_reduced hbound
  exact ⟨(reduction, activation), proveInput_eq_ok.mpr ⟨z, hz, hreduced⟩, hcentered⟩

/-- The cell that the verifier takes is the one that the prover makes. -/
theorem verifyInput_iff {baseInput : List UInt8} {reductions : List ReductionWitness}
    {activation : List Int} {row col : Nat} (hrow : row < rows) (hcol : col < width)
    (hlength : baseInput.length = rows * width) (hbase : Allowed baseInput) (value : Int) :
    verifyInput mask rows width baseInput reductions activation (row, col) = .ok value ↔
      ∃ made, proveInput mask rows width baseInput (row, col) = .ok made ∧
        (reductions[row * width + col]? = some made.1 ∧
          activation[row * width + col]? = some made.2) ∧ made.2 = value := by
  obtain ⟨z, hz, hbound⟩ := exists_inputZ hrows hwidth hmask hrow hcol hlength hbase
  simp only [verifyInput, bind_eq_ok, pure_eq_ok, itemAt_eq_ok, require_eq_ok, proveInput_eq_ok]
  constructor
  · rintro ⟨_, hz', reduction, hreduction, _, hcheck, _, hcentered, _, hfound, _, rfl, rfl⟩
    cases hz.symm.trans hz'
    exact ⟨(reduction, _), ⟨z, hz, (checkReduction_centered_iff hbound).mp ⟨hcheck, hcentered⟩⟩,
      ⟨hreduction, hfound⟩, rfl⟩
  · rintro ⟨made, ⟨_, hz', hreduced⟩, ⟨hreduction, hfound⟩, rfl⟩
    cases hz.symm.trans hz'
    obtain ⟨hcheck, hcentered⟩ := (checkReduction_centered_iff hbound).mpr hreduced
    exact ⟨z, hz, made.1, hreduction, (), hcheck, made.2, hcentered, made.2, hfound, (), rfl, rfl⟩

/-! ## The cells of a layer -/

section

variable {activation : List Int} {weights : List UInt8} {row col : Nat}
variable (hactivation : activation.length = rows * width) (hcentered : ∀ a ∈ activation, Centered a)
variable (hweights : weights.length = width * width) (hallowed : Allowed weights)
variable (hrow : row < rows) (hcol : col < width)

include hactivation hcentered hweights hallowed hrow hcol

omit hrows hwidth hmask in
theorem exists_productAt {common : Nat} (hcommon : common < width) :
    ∃ product, productAt width activation weights row col common = .ok product ∧
      product.natAbs ≤ 15625 := by
  have hvalue : row * width + common < activation.length := hactivation ▸ index_lt hrow hcommon
  have hweight : common * width + col < weights.length := hweights ▸ index_lt hcommon hcol
  refine ⟨activation[row * width + common] * decodeModelByte weights[common * width + col],
    ?_, ?_⟩
  · rw [productAt, itemAt_of_lt hvalue, ok_bind, itemAt_of_lt hweight]
    rfl
  · obtain ⟨hleft, hright⟩ := hcentered _ (List.getElem_mem hvalue)
    obtain ⟨hleft', hright'⟩ := decodeModelByte_centered (hallowed _ (List.getElem_mem hweight))
    rw [Int.natAbs_mul]
    exact Nat.mul_le_mul (show _ ≤ 125 by omega) (show _ ≤ 125 by omega)

omit hrows hmask in
/-- The sum of the first products, with and without the checks of overflow. -/
theorem exists_accumulator {n : Nat} (hn : n ≤ width) :
    ∃ accumulator : Int, accumulator.natAbs ≤ 15625 * n ∧
      (List.range n).foldlM (fun accumulator common => do
        let product ← productAt width activation weights row col common
        checkedI64 (accumulator + product)) 0 = .ok accumulator ∧
      (List.range n).foldlM (fun accumulator common => do
        let product ← productAt width activation weights row col common
        pure (accumulator + product)) 0 = .ok accumulator := by
  induction n with
  | zero => exact ⟨0, le_rfl, rfl, rfl⟩
  | succ n ih =>
      obtain ⟨before, hbound, hchecked, hplain⟩ := ih (by omega)
      obtain ⟨product, hproduct, hsmall⟩ := exists_productAt hactivation hcentered hweights
        hallowed hrow hcol (show n < width by omega)
      have hfits : (before + product).natAbs < v2TransitionModulus := by
        rw [v2TransitionModulus]
        omega
      refine ⟨before + product, by omega, ?_, ?_⟩
      · rw [List.range_succ, foldlM_append_eq_ok]
        refine ⟨before, hchecked, ?_⟩
        rw [List.foldlM_cons, hproduct, ok_bind, checkedI64_of_small hfits]
        rfl
      · rw [List.range_succ, foldlM_append_eq_ok]
        refine ⟨before, hplain, ?_⟩
        rw [List.foldlM_cons, hproduct]
        rfl

/-- What a cell is made from, and what it is checked against. -/
theorem exists_cell :
    ∃ accumulator z : Int, z.natAbs < v2TransitionModulus ∧
      (∀ made, proveCell mask rows width activation weights (row, col) = .ok made ↔
        made.1 = accumulator ∧ Reduced z made.2.1 made.2.2) ∧
      ∀ (layer : LayerWitness) (value : Int),
        verifyCell mask rows width activation weights layer (row, col) = .ok value ↔
          layer.accumulators[row * width + col]? = some accumulator ∧
          ∃ reduction, layer.reductions[row * width + col]? = some reduction ∧
            layer.output[row * width + col]? = some value ∧ Reduced z reduction value := by
  obtain ⟨accumulator, hbound, hchecked, hplain⟩ := exists_accumulator hwidth hactivation hcentered
    hweights hallowed hrow hcol le_rfl
  obtain ⟨value, hvalue, hlow, hhigh⟩ := exists_maskValue hrows hwidth hmask row col
  have hsmall : accumulator.natAbs < v2TransitionModulus := by
    rw [v2TransitionModulus]
    omega
  have hz : (accumulator + value).natAbs < v2TransitionModulus := by
    rw [v2TransitionModulus]
    omega
  refine ⟨accumulator, accumulator + value, hz, fun made => ?_, fun layer found => ?_⟩
  · rw [proveCell, hchecked, ok_bind, checkedI32_of_small hsmall, ok_bind, hvalue, ok_bind,
      checkedI32_of_small hz, ok_bind]
    simp only [bind_eq_ok, pure_eq_ok]
    constructor
    · rintro ⟨reduction, hreduction, output, houtput, rfl⟩
      exact ⟨rfl, hreduction, houtput⟩
    · rintro ⟨rfl, hreduction, houtput⟩
      exact ⟨made.2.1, hreduction, made.2.2, houtput, rfl⟩
  · rw [verifyCell]
    dsimp only
    rw [hplain, ok_bind, hvalue]
    simp only [bind_eq_ok, pure_eq_ok, itemAt_eq_ok, require_eq_ok, ok_bind]
    constructor
    · rintro ⟨_, haccumulator, _, rfl, _, hz', reduction, hreduction, _, hcheck, _, hactivation', _,
        hfound, _, rfl, rfl⟩
      cases (checkedI32_of_small hz).symm.trans hz'
      exact ⟨haccumulator, reduction, hreduction, hfound,
        (checkReduction_centered_iff hz).mp ⟨hcheck, hactivation'⟩⟩
    · rintro ⟨haccumulator, reduction, hreduction, hfound, hreduced⟩
      obtain ⟨hcheck, hactivation'⟩ := (checkReduction_centered_iff hz).mpr hreduced
      exact ⟨_, haccumulator, (), rfl, _, checkedI32_of_small hz, reduction, hreduction, (), hcheck,
        found, hactivation', found, hfound, (), rfl, rfl⟩

theorem exists_proveCell :
    ∃ made, proveCell mask rows width activation weights (row, col) = .ok made ∧
      Centered made.2.2 := by
  obtain ⟨accumulator, z, hz, hprove, _⟩ := exists_cell hrows hwidth hmask hactivation hcentered
    hweights hallowed hrow hcol
  obtain ⟨reduction, output, hreduced, houtput⟩ := exists_reduced hz
  exact ⟨(accumulator, reduction, output), (hprove _).mpr ⟨rfl, hreduced⟩, houtput⟩

/-- The cell that the verifier takes is the one that the prover makes. -/
theorem verifyCell_iff (layer : LayerWitness) (value : Int) :
    verifyCell mask rows width activation weights layer (row, col) = .ok value ↔
      ∃ made, proveCell mask rows width activation weights (row, col) = .ok made ∧
        layer.HasCell (row * width + col) made ∧ made.2.2 = value := by
  obtain ⟨accumulator, z, _, hprove, hverify⟩ := exists_cell hrows hwidth hmask hactivation
    hcentered hweights hallowed hrow hcol
  rw [hverify]
  constructor
  · rintro ⟨haccumulator, reduction, hreduction, hfound, hreduced⟩
    exact ⟨(accumulator, reduction, value), (hprove _).mpr ⟨rfl, hreduced⟩,
      ⟨haccumulator, hreduction, hfound⟩, rfl⟩
  · rintro ⟨made, hmade, ⟨haccumulator, hreduction, hfound⟩, rfl⟩
    obtain ⟨rfl, hreduced⟩ := (hprove made).mp hmade
    exact ⟨haccumulator, made.2.1, hreduction, hfound, hreduced⟩

end

end

/-! ## Layers -/

/-- A value for every cell. -/
structure IsActivation (rows width : Nat) (activation : List Int) : Prop where
  length : activation.length = rows * width
  centered : ∀ value ∈ activation, Centered value

/-- The weights of a layer. -/
structure IsWeights (width : Nat) (weights : List UInt8) : Prop where
  length : weights.length = width * width
  allowed : Allowed weights

/-- The witness of a layer from its cells. -/
def LayerWitness.ofCells (made : List (Int × ReductionWitness × Int)) : LayerWitness where
  accumulators := made.map (·.1)
  reductions := made.map (·.2.1)
  output := made.map (·.2.2)

section

variable {rows width : Nat} (hrows : rows ≤ 4) (hwidth : width ≤ 32)

include hrows hwidth

/-- One layer: it can be made, and no other witness of it is accepted. -/
theorem layer_agrees {mask weights : List UInt8} {activation : List Int}
    (hmask : IsMask mask rows width) (hweights : IsWeights width weights)
    (hactivation : IsActivation rows width activation) :
    ∃ made, (cells rows width).mapM (proveCell mask rows width activation weights) = .ok made ∧
      IsActivation rows width (LayerWitness.ofCells made).output ∧
      ∀ (layer : LayerWitness) (next : List Int),
        ¬(layer.accumulators.length ≠ rows * width ∨ layer.reductions.length ≠ rows * width ∨
          layer.output.length ≠ rows * width) ∧
        (cells rows width).mapM (verifyCell mask rows width activation weights layer) = .ok next ↔
          layer = .ofCells made ∧ next = (LayerWitness.ofCells made).output := by
  obtain ⟨made, hmade, hlength, hcentered⟩ := exists_mapM_cells fun row col hrow hcol =>
    exists_proveCell hrows hwidth hmask hactivation.length hactivation.centered hweights.length
      hweights.allowed hrow hcol
  refine ⟨made, hmade, ⟨by rw [LayerWitness.ofCells, List.length_map, hlength], ?_⟩,
    fun layer next => ?_⟩
  · intro value hmem
    obtain ⟨cell, hcell, rfl⟩ := List.mem_map.mp hmem
    exact hcentered cell hcell
  · rw [mapM_cells_iff (·.2.2) layer.HasCell (fun row col hrow hcol => verifyCell_iff hrows hwidth
      hmask hactivation.length hactivation.centered hweights.length hweights.allowed hrow hcol layer)
      hmade]
    push Not
    constructor
    · rintro ⟨⟨haccumulators, hreductions, houtput⟩, rfl, hagrees⟩
      refine ⟨?_, rfl⟩
      rw [← hlength] at haccumulators hreductions houtput
      have hfirst := (eq_map_iff haccumulators).mpr fun i cell hcell => (hagrees i cell hcell).1
      have hsecond := (eq_map_iff hreductions).mpr fun i cell hcell => (hagrees i cell hcell).2.1
      have hthird := (eq_map_iff houtput).mpr fun i cell hcell => (hagrees i cell hcell).2.2
      cases layer
      simp only at hfirst hsecond hthird
      rw [hfirst, hsecond, hthird]
      rfl
    · rintro ⟨rfl, rfl⟩
      have hlengths : ∀ {α : Type} (f : Int × ReductionWitness × Int → α),
          (made.map f).length = made.length := fun f => List.length_map f
      refine ⟨⟨(hlengths _).trans hlength, (hlengths _).trans hlength,
        (hlengths _).trans hlength⟩, rfl, fun i cell hcell => ?_⟩
      exact ⟨(eq_map_iff (hlengths _)).mp rfl i cell hcell,
        (eq_map_iff (hlengths _)).mp rfl i cell hcell,
        (eq_map_iff (hlengths _)).mp rfl i cell hcell⟩

/-- All the layers. -/
theorem layers_agree (X : Xof) (challenge : Bytes32) {weights : List (List UInt8)}
    (hweights : ∀ layer ∈ weights, IsWeights width layer) (layerIndex : Nat) {activation : List Int}
    (hactivation : IsActivation rows width activation) :
    ∃ honest final, proveLayers X challenge rows width layerIndex activation weights =
        .ok (honest, final) ∧ IsActivation rows width final ∧ honest.length = weights.length ∧
      ∀ layers last, layers.length = weights.length →
        (verifyLayers X challenge rows width layerIndex activation (weights.zip layers) = .ok last ↔
          layers = honest ∧ last = final) := by
  induction weights generalizing layerIndex activation with
  | nil =>
      refine ⟨[], activation, rfl, hactivation, rfl, fun layers last hlength => ?_⟩
      rw [List.length_eq_zero_iff.mp hlength, List.zip_nil_left, verifyLayers, pure_eq_ok]
      exact ⟨fun h => ⟨rfl, h.symm⟩, fun h => h.2.symm⟩
  | cons first rest ih =>
      obtain ⟨hfirst, hrest⟩ := List.forall_mem_cons.mp hweights
      obtain ⟨made, hmade, hnext, hverify⟩ := layer_agrees hrows hwidth
        (isMask_maskCoefficients X challenge (UInt32.ofNat layerIndex) rows width) hfirst hactivation
      obtain ⟨honest, final, hprove, hfinal, hhonest, hverifyRest⟩ :=
        ih hrest (layerIndex + 1) hnext
      refine ⟨.ofCells made :: honest, final, ?_, hfinal, by rw [List.length_cons, hhonest]; rfl,
        fun layers last hlength => ?_⟩
      · rw [proveLayers, bind_eq_ok]
        refine ⟨made, hmade, ?_⟩
        rw [bind_eq_ok]
        exact ⟨_, hprove, rfl⟩
      · cases layers with
        | nil => cases hlength
        | cons layer layers =>
            have hlengthRest := Nat.succ.inj hlength
            rw [List.zip_cons_cons, verifyLayers, List.cons.injEq]
            simp only [bind_eq_ok, require_eq_ok]
            constructor
            · rintro ⟨_, hlengths, next, hloop, htail⟩
              obtain ⟨rfl, rfl⟩ := (hverify layer next).mp ⟨hlengths, hloop⟩
              obtain ⟨hlayers, hlast⟩ := (hverifyRest layers last hlengthRest).mp htail
              exact ⟨⟨rfl, hlayers⟩, hlast⟩
            · rintro ⟨⟨rfl, hlayers⟩, hlast⟩
              obtain ⟨hlengths, hloop⟩ := (hverify (.ofCells made) _).mpr ⟨rfl, rfl⟩
              exact ⟨(), hlengths, _, hloop, (hverifyRest layers last hlengthRest).mpr
                ⟨hlayers, hlast⟩⟩

end

theorem exists_activationBytes {values : List Int} (h : ∀ value ∈ values, Centered value) :
    ∃ bytes, activationBytes values = .ok bytes := by
  induction values with
  | nil => exact ⟨[], rfl⟩
  | cons value values ih =>
      obtain ⟨⟨hlow, hhigh⟩, hrest⟩ := List.forall_mem_cons.mp h
      obtain ⟨bytes, hbytes⟩ := ih hrest
      have hcenter : center = 125 := rfl
      have hencoded : 0 ≤ value + center ∧ value + center ≤ 250 := by omega
      refine ⟨UInt8.ofNat (value + center).toNat :: bytes, ?_⟩
      rw [activationBytes, List.mapM_cons, if_pos hencoded, ok_bind]
      exact bind_eq_ok.mpr ⟨bytes, hbytes, rfl⟩

/-! ## Explicit models -/

namespace ForgeMatrixV2Reference

/-- What an explicit model brings along. -/
structure WellFormed (P : Platform) (reference : ForgeMatrixV2Reference) : Prop where
  rows : reference.rows ≤ 4
  width : reference.width ≤ 32
  rowsPower : 0 < reference.rows ∧ 2 ^ reference.rows.log2 = reference.rows
  widthPower : 0 < reference.width ∧ 2 ^ reference.width.log2 = reference.width
  layersPos : 0 < reference.weights.length
  layersMax : reference.weights.length ≤ 4
  layers : reference.descriptor.model.layers.toNat = reference.weights.length
  baseInput : reference.baseInput.length = reference.rows * reference.width
  baseAllowed : Allowed reference.baseInput
  weights : ∀ layer ∈ reference.weights, IsWeights reference.width layer
  digest : ∃ manifest, reference.descriptor.model.digest P = .ok manifest

end ForgeMatrixV2Reference

theorem allowed_of_mem_flatten {layers : List (List UInt8)} (h : Allowed layers.flatten)
    {layer : List UInt8} (hmem : layer ∈ layers) : Allowed layer :=
  fun value hvalue => h value (List.mem_flatten.mpr ⟨layer, hmem, hvalue⟩)

theorem wellFormed_of_fromExplicitModel {P : Platform} {blake3 : List UInt8 → Bytes32}
    {descriptor : ForgeMatrixV2Descriptor} {baseInput : List UInt8} {weights : List (List UInt8)}
    {reference : ForgeMatrixV2Reference}
    (h : ForgeMatrixV2Reference.fromExplicitModel P blake3 descriptor baseInput weights =
      .ok reference) : reference.WellFormed P := by
  simp only [ForgeMatrixV2Reference.fromExplicitModel, ForgeMatrixV2Descriptor.validateResearch,
    bind_eq_ok, require_eq_ok, pure_eq_ok, mapErr_eq_ok, buildSmallModelBank, checked64_eq_ok] at h
  obtain ⟨_, ⟨_, _, _, _, _, _, _, hpowers, _, hsmall, manifest, hdigest, _⟩, built, ⟨_, _, _,
    hdimensions, base, ⟨rfl, _⟩, layer, ⟨rfl, _⟩, _, hcount, _, _, _, _, _, _, _, hbase, _, hlayers,
    _, hbaseAllowed, _, hlayersAllowed, hbuilt⟩, _, hmanifest, rfl⟩ := h
  push Not at hsmall hpowers hdimensions
  obtain ⟨hdimension, hbatch, hfew⟩ := hsmall
  obtain ⟨hwidthPower, hrowsPower, _⟩ := hpowers
  have hrows : descriptor.model.batch.toNat ≤ 4 :=
    UInt32.le_iff_toNat_le.mp (UInt32.not_lt.mp hbatch)
  have hwidth : descriptor.model.dimension.toNat ≤ 32 :=
    UInt32.le_iff_toNat_le.mp (UInt32.not_lt.mp hdimension)
  have hlayersEq : descriptor.model.layers.toNat = weights.length := by
    rw [← hmanifest, ← hbuilt]
    exact UInt32.toNat_ofNat_of_lt' hcount
  have hlayersMax : descriptor.model.layers.toNat ≤ 4 :=
    UInt32.le_iff_toNat_le.mp (UInt32.not_lt.mp hfew)
  exact {
    rows := hrows
    width := hwidth
    rowsPower := hrowsPower
    widthPower := hwidthPower
    layersPos := List.length_pos_iff.mpr hdimensions.2.2
    layersMax := hlayersEq ▸ hlayersMax
    layers := hlayersEq
    baseInput := hbase
    baseAllowed := validateValues_eq_ok.mp hbaseAllowed
    weights := fun layer hmem => ⟨hlayers layer hmem,
      allowed_of_mem_flatten (allowed_of_validateLayers hlayersAllowed) hmem⟩
    digest := ⟨manifest, hdigest⟩ }

/-! ## Proofs -/

section

variable {P : Platform} (X : Xof) {reference : ForgeMatrixV2Reference} {block : BlockChallenge}
variable (hreference : reference.WellFormed P)

include hreference

theorem exists_challengeDigest (hnetwork : block.networkId = reference.descriptor.networkId)
    (nonce : UInt64) :
    ∃ challenge, challengeDigest P reference.descriptor block nonce = .ok challenge := by
  obtain ⟨manifest, hmanifest⟩ := hreference.digest
  rw [challengeDigest, require_pos hnetwork, ok_bind, hmanifest, mapErr_ok, ok_bind]
  exact ⟨_, rfl⟩

/-- The initial activation: it can be made, and no other witnesses of it are accepted. -/
theorem initial_agrees {mask : List UInt8} (hmask : IsMask mask reference.rows reference.width) :
    ∃ made, (cells reference.rows reference.width).mapM
        (proveInput mask reference.rows reference.width reference.baseInput) = .ok made ∧
      IsActivation reference.rows reference.width (made.map (·.2)) ∧
      ∀ reductions activation next,
        (reductions.length = reference.rows * reference.width ∧
          activation.length = reference.rows * reference.width ∧
          (cells reference.rows reference.width).mapM (verifyInput mask reference.rows
            reference.width reference.baseInput reductions activation) = .ok next) ↔
          reductions = made.map (·.1) ∧ activation = made.map (·.2) ∧ next = made.map (·.2) := by
  obtain ⟨made, hmade, hlength, hcentered⟩ := exists_mapM_cells fun row col hrow hcol =>
    exists_proveInput hreference.rows hreference.width hmask hrow hcol hreference.baseInput
      hreference.baseAllowed
  refine ⟨made, hmade, ⟨by rw [List.length_map, hlength], ?_⟩, fun reductions activation next => ?_⟩
  · intro value hmem
    obtain ⟨cell, hcell, rfl⟩ := List.mem_map.mp hmem
    exact hcentered cell hcell
  · rw [mapM_cells_iff (·.2)
      (fun i cell => reductions[i]? = some cell.1 ∧ activation[i]? = some cell.2)
      (fun row col hrow hcol => verifyInput_iff hreference.rows hreference.width hmask hrow hcol
        hreference.baseInput hreference.baseAllowed) hmade]
    rw [← hlength]
    constructor
    · rintro ⟨hreductions, hactivation, rfl, hagrees⟩
      exact ⟨(eq_map_iff hreductions).mpr fun i cell hcell => (hagrees i cell hcell).1,
        (eq_map_iff hactivation).mpr fun i cell hcell => (hagrees i cell hcell).2, rfl⟩
    · rintro ⟨rfl, rfl, rfl⟩
      exact ⟨List.length_map _, List.length_map _, rfl, fun i cell hcell =>
        ⟨(eq_map_iff (List.length_map _)).mp rfl i cell hcell,
          (eq_map_iff (List.length_map _)).mp rfl i cell hcell⟩⟩

/-- The prover always has a proof, and the verifier takes it, if its digest meets the target,
and no other proof of its nonce. -/
theorem reference_agrees (nonce : UInt64)
    (hnetwork : block.networkId = reference.descriptor.networkId) :
    ∃ honest, reference.proveReference P X block nonce = .ok honest ∧ honest.nonce = nonce ∧
      ∀ proof : ForgeMatrixV2ReferenceProof, proof.nonce = nonce →
        (reference.verifyReference P X block proof = .ok () ↔
          proof = honest ∧ proof.workDigest ≤ block.target) := by
  obtain ⟨challenge, hchallenge⟩ := exists_challengeDigest hreference hnetwork nonce
  obtain ⟨made, hmade, hinitial, hverifyInitial⟩ := initial_agrees hreference
    (isMask_maskCoefficients X challenge inputMaskIndex reference.rows reference.width)
  obtain ⟨honest, final, hlayers, hfinal, hhonest, hverifyLayers⟩ := layers_agree hreference.rows
    hreference.width X challenge hreference.weights 0 hinitial
  obtain ⟨bytes, hbytes⟩ := exists_activationBytes hfinal.centered
  have hprove : reference.proveReference P X block nonce = .ok {
      nonce
      challengeDigest := challenge
      initialReductions := made.map (·.1)
      initialActivation := made.map (·.2)
      layers := honest
      finalActivationDigest := outputDigest P challenge bytes
      workDigest := workDigest P reference.descriptor challenge
        (outputDigest P challenge bytes) } := by
    rw [ForgeMatrixV2Reference.proveReference, hchallenge, ok_bind]
    dsimp only
    rw [hmade, ok_bind, hlayers, ok_bind]
    dsimp only
    rw [hbytes, ok_bind]
    rfl
  refine ⟨_, hprove, rfl, fun proof hnonce => ?_⟩
  rw [ForgeMatrixV2Reference.verifyReference, hnonce, hchallenge, ok_bind]
  simp only [bind_eq_ok, require_eq_ok]
  push Not
  constructor
  · rintro ⟨_, hdigest, _, ⟨hreductions, hactivation, hcount⟩, next, hloop, last, hlast, final', hfinal',
      _, houtput, _, hwork, htarget⟩
    obtain ⟨hreductions, hactivation, rfl⟩ :=
      (hverifyInitial _ _ next).mp ⟨hreductions, hactivation, hloop⟩
    obtain ⟨hlayers', rfl⟩ := (hverifyLayers _ last hcount).mp hlast
    cases hbytes.symm.trans hfinal'
    refine ⟨?_, htarget⟩
    cases proof
    simp only at *
    rw [hnonce, hdigest, hreductions, hactivation, hlayers', hwork, houtput]
  · rintro ⟨rfl, htarget⟩
    obtain ⟨hreductions, hactivation, hloop⟩ := (hverifyInitial _ _ _).mpr ⟨rfl, rfl, rfl⟩
    exact ⟨(), rfl, (), ⟨hreductions, hactivation, hhonest⟩, _, hloop, final,
      (hverifyLayers _ _ hhonest).mpr ⟨rfl, rfl⟩, bytes, hbytes, (), rfl, (), rfl, htarget⟩

/-- The same for the compact proofs. -/
theorem compact_agrees (nonce : UInt64)
    (hnetwork : block.networkId = reference.descriptor.networkId) :
    ∃ honest, reference.proveCompact P X block nonce = .ok honest ∧ honest.nonce = nonce ∧
      ∀ proof : ForgeMatrixV2CompactProof, proof.nonce = nonce →
        (reference.verifyCompact P X block proof = .ok () ↔
          proof = honest ∧ proof.workDigest ≤ block.target) := by
  obtain ⟨full, hfull, _, _⟩ := reference_agrees X hreference nonce hnetwork
  obtain ⟨manifest, hmanifest⟩ := hreference.digest
  have hprove : reference.proveCompact P X block nonce = .ok {
      algorithmVersion := reference.descriptor.algorithmVersion
      proofVersion := reference.descriptor.proofVersion
      nonce
      modelManifestDigest := manifest
      challengeDigest := full.challengeDigest
      finalActivationDigest := full.finalActivationDigest
      workDigest := full.workDigest } := by
    rw [ForgeMatrixV2Reference.proveCompact, hfull, ok_bind, hmanifest, mapErr_ok, ok_bind]
    rfl
  refine ⟨_, hprove, rfl, fun proof hnonce => ?_⟩
  rw [ForgeMatrixV2Reference.verifyCompact, ForgeMatrixV2Reference.verifyCompactRelation, hnonce,
    require_pos hnetwork, ok_bind, hmanifest, mapErr_ok, hfull]
  simp only [bind_eq_ok, require_eq_ok, Except.ok.injEq, gt_iff_lt, not_lt]
  constructor
  · rintro ⟨_, ⟨_, halgorithm, _, hproof, _, rfl, _, hmanifest', _, rfl, _, hchallenge, _, houtput,
      hwork⟩, htarget⟩
    refine ⟨?_, htarget⟩
    cases proof
    simp only at *
    rw [halgorithm, hproof, hnonce, hmanifest', hchallenge, houtput, hwork]
  · rintro ⟨rfl, htarget⟩
    exact ⟨(), ⟨(), rfl, (), rfl, _, rfl, (), rfl, _, rfl, (), rfl, (), rfl, rfl⟩, htarget⟩

end

/-- For every explicit model and every block of its network, the prover has a proof for every
nonce, and the verifier accepts the proofs of the prover that meet the target and no other. -/
theorem forgematrix_agreement (P : Platform) (X : Xof) (blake3 : List UInt8 → Bytes32)
    {descriptor : ForgeMatrixV2Descriptor} {baseInput : List UInt8} {weights : List (List UInt8)}
    {reference : ForgeMatrixV2Reference} {block : BlockChallenge}
    (hreference : ForgeMatrixV2Reference.fromExplicitModel P blake3 descriptor baseInput weights =
      .ok reference)
    (hnetwork : block.networkId = reference.descriptor.networkId) :
    (∀ nonce, ∃ proof, reference.proveReference P X block nonce = .ok proof) ∧
      (∀ proof, reference.verifyReference P X block proof = .ok () ↔
        reference.proveReference P X block proof.nonce = .ok proof ∧
          proof.workDigest ≤ block.target) ∧
      (∀ nonce, ∃ proof, reference.proveCompact P X block nonce = .ok proof) ∧
      ∀ proof, reference.verifyCompact P X block proof = .ok () ↔
        reference.proveCompact P X block proof.nonce = .ok proof ∧
          proof.workDigest ≤ block.target := by
  have hformed := wellFormed_of_fromExplicitModel hreference
  refine ⟨fun nonce => ?_, fun proof => ?_, fun nonce => ?_, fun proof => ?_⟩
  · obtain ⟨honest, hprove, _⟩ := reference_agrees X hformed nonce hnetwork
    exact ⟨honest, hprove⟩
  · obtain ⟨honest, hprove, _, hverify⟩ := reference_agrees X hformed proof.nonce hnetwork
    rw [hverify proof rfl, hprove, Except.ok.injEq, eq_comm]
  · obtain ⟨honest, hprove, _⟩ := compact_agrees X hformed nonce hnetwork
    exact ⟨honest, hprove⟩
  · obtain ⟨honest, hprove, _, hverify⟩ := compact_agrees X hformed proof.nonce hnetwork
    rw [hverify proof rfl, hprove, Except.ok.injEq, eq_comm]

/-- A model of one layer: a base input of two bytes, and four weights. -/
def sampleDescriptor : ForgeMatrixV2Descriptor where
  networkId := toBytes 1
  algorithmVersion := forgematrixV2AlgorithmVersion
  proofVersion := forgematrixV2ProofVersion
  banks := 1
  layersPerBank := 1
  model := {
    modelVersion := 2
    dimension := 2
    batch := 1
    layers := 1
    baseInputBytes := 2
    bytesPerLayer := 4
    payloadBytes := 6
    rawBlake3Root := sampleDigest [7, 250, 0, 1, 249, 3]
    layerRootsAggregate := sampleDigest (layerRootsPreimage sampleDigest [[0, 1, 249, 3]])
    pcsParameterDigest := toBytes 5
    pcsCommitmentRoot := toBytes 6 }

theorem sampleDescriptor_validateResearch :
    sampleDescriptor.validateResearch samplePlatform = .ok () := by
  have hdigest : sampleDescriptor.model.digest samplePlatform =
      .ok (samplePlatform.deriveKey manifestDomain (encodeHeader sampleDescriptor.model)) := rfl
  simp only [ForgeMatrixV2Descriptor.validateResearch, bind_eq_ok, require_eq_ok, mapErr_eq_ok]
  exact ⟨(), rfl, (), rfl, (), by decide, (), by decide, (), by decide, _,
    hdigest, rfl⟩

theorem sampleDescriptor_built :
    buildSmallModelBank samplePlatform sampleDigest {
      modelVersion := sampleDescriptor.model.modelVersion
      dimension := sampleDescriptor.model.dimension
      batch := sampleDescriptor.model.batch
      baseInput := [7, 250]
      layers := [[0, 1, 249, 3]]
      pcsParameterDigest := sampleDescriptor.model.pcsParameterDigest
      pcsCommitmentRoot := sampleDescriptor.model.pcsCommitmentRoot } =
    .ok {
      bytes := encodeHeader sampleDescriptor.model ++ [7, 250, 0, 1, 249, 3]
      manifest := sampleDescriptor.model } :=
  rfl

/-- A stream whose every byte is a coefficient. -/
def sampleXof : Xof where
  stream _ bytes position := UInt8.ofNat ((bytes.length + position) % 251)
  endless _ bytes n := by
    refine ⟨n, le_rfl, decide_eq_true (UInt8.le_iff_toNat_le.mpr ?_)⟩
    have hlt := Nat.mod_lt (bytes.length + n) (show 0 < 251 by decide)
    have hmax : (250 : UInt8).toNat = 250 := rfl
    rw [UInt8.toNat_ofNat', Nat.mod_eq_of_lt (by omega)]
    omega

/-- The sample model is accepted. -/
theorem sampleReference_built :
    ForgeMatrixV2Reference.fromExplicitModel samplePlatform sampleDigest sampleDescriptor [7, 250]
        [[0, 1, 249, 3]] =
      .ok { descriptor := sampleDescriptor, baseInput := [7, 250],
            weights := [[0, 1, 249, 3]] } := by
  rw [ForgeMatrixV2Reference.fromExplicitModel, sampleDescriptor_validateResearch, ok_bind,
    sampleDescriptor_built, mapErr_ok, ok_bind, require_pos rfl]
  rfl

/-- A block of its network: every nonce has a proof. -/
theorem forgematrix_agreement_sample :
    ∃ reference, ForgeMatrixV2Reference.fromExplicitModel samplePlatform sampleDigest
        sampleDescriptor [7, 250] [[0, 1, 249, 3]] = .ok reference ∧
      ∀ nonce, ∃ proof, reference.proveReference samplePlatform sampleXof
        { networkId := toBytes 1, previousBlock := toBytes 2, transactionRoot := toBytes 3
          height := 1, timestamp := 1, target := toBytes (2 ^ 255) } nonce = .ok proof :=
  ⟨_, sampleReference_built, (forgematrix_agreement samplePlatform sampleXof sampleDigest
    sampleReference_built rfl).1⟩

end CommonFoundry
