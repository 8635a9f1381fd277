/-
# `CommonFoundry.Gpu.Stage` — one thread between two barriers

What a thread of the kernel does in a stage, where nobody else writes what it reads.  The sum
of the products is taken four at a time and then one by one, and is the sum all the same
(`returns_accumulate`); the cell that comes out is the one that the reference makes
(`returns_inputStage`, `returns_layerStage`), and the last stage writes its byte
(`returns_outputStage`).
-/
import CommonFoundry.Gpu.Arithmetic

namespace CommonFoundry

open Lib Lib.Outcome

/-- What a bank of a block holds, as numbers. -/
def Holds (memory : Place → UInt8) (block bank : Nat) (activation : List Int) : Prop :=
  ∀ i value, activation[i]? = some value → (memory (.activation block bank i)).toInt8.toInt = value

/-- The shapes that a context admits. -/
structure CudaShape (rows width : Nat) : Prop where
  rowsMax : rows ≤ 4
  widthMax : width ≤ 32
  rowsPower : 0 < rows ∧ 2 ^ rows.log2 = rows
  widthPower : 0 < width ∧ 2 ^ width.log2 = width

theorem ffs_eq {n : Nat} (hpower : 0 < n ∧ 2 ^ n.log2 = n) (hmax : n ≤ 32) : ffs n - 1 = n.log2 := by
  obtain ⟨hpos, hpow⟩ := hpower
  have hffs := ffs_two_pow ((Nat.log2_lt hpos.ne').mpr (show n < 2 ^ 32 by omega))
  rw [hpow] at hffs
  rw [hffs, Nat.add_sub_cancel]

/-! ## Sums of products -/

/-- The sum of the first products. -/
def dot (x y : Nat → Int) (n : Nat) : Int := ∑ common ∈ Finset.range n, x common * y common

theorem dot_succ (x y : Nat → Int) (n : Nat) : dot x y (n + 1) = dot x y n + x n * y n :=
  Finset.sum_range_succ _ _

theorem natAbs_product_le {a b : Int} (ha : Centered a) (hb : Centered b) :
    (a * b).natAbs ≤ 15625 := by
  obtain ⟨hleft, hright⟩ := ha
  obtain ⟨hleft', hright'⟩ := hb
  rw [Int.natAbs_mul]
  exact Nat.mul_le_mul (show _ ≤ 125 by omega) (show _ ≤ 125 by omega)

theorem natAbs_dot_le {x y : Nat → Int} {n : Nat} (hx : ∀ common < n, Centered (x common))
    (hy : ∀ common < n, Centered (y common)) : (dot x y n).natAbs ≤ 15625 * n := by
  induction n with
  | zero => exact le_rfl
  | succ n ih =>
      have hproduct := natAbs_product_le (hx n (Nat.lt_succ_self n)) (hy n (Nat.lt_succ_self n))
      have hsum := ih (fun common h => hx common (by omega)) fun common h => hy common (by omega)
      rw [dot_succ]
      omega

section

variable {reads writes : Set Place} {memory : Place → UInt8}

theorem returns_loadInt8 {place : Place} (h : place ∈ reads) :
    Returns reads writes memory (loadInt8 place) memory (memory place).toInt8 :=
  (Returns.load h).bind (.pure _)

section

variable {weights : List Int8} {input : Nat → Place} {width : Nat} {x y : Nat → Int}
variable (hinput : ∀ common < width, input common ∈ reads ∧
  (memory (input common)).toInt8.toInt = x common)
variable (hweights : ∀ common < width, ∃ byte, weights[common]? = some byte ∧ byte.toInt = y common)
variable (hx : ∀ common < width, Centered (x common)) (hy : ∀ common < width, Centered (y common))
variable (hwidth : width ≤ 32)

include hinput hweights hx hy hwidth

theorem returns_packedTurn {common : Nat} (hcommon : common + 4 ≤ width) :
    Returns reads writes memory (packedTurn weights input (dot x y common) common) memory
      (dot x y (common + 4)) := by
  obtain ⟨hread₀, hx₀⟩ := hinput common (by omega)
  obtain ⟨hread₁, hx₁⟩ := hinput (common + 1) (by omega)
  obtain ⟨hread₂, hx₂⟩ := hinput (common + 2) (by omega)
  obtain ⟨hread₃, hx₃⟩ := hinput (common + 3) (by omega)
  obtain ⟨byte₀, hbyte₀, hy₀⟩ := hweights common (by omega)
  obtain ⟨byte₁, hbyte₁, hy₁⟩ := hweights (common + 1) (by omega)
  obtain ⟨byte₂, hbyte₂, hy₂⟩ := hweights (common + 2) (by omega)
  obtain ⟨byte₃, hbyte₃, hy₃⟩ := hweights (common + 3) (by omega)
  have hbound := natAbs_dot_le (n := common + 4) (fun c h => hx c (by omega)) fun c h => hy c (by omega)
  refine (returns_loadInt8 hread₀).bind ((returns_loadInt8 hread₁).bind
    ((returns_loadInt8 hread₂).bind ((returns_loadInt8 hread₃).bind ((Returns.ofOption hbyte₀).bind
      ((Returns.ofOption hbyte₁).bind ((Returns.ofOption hbyte₂).bind
        ((Returns.ofOption hbyte₃).bind (Returns.ofOption ?_))))))))
  rw [dp4a_packInt8x4, hx₀, hx₁, hx₂, hx₃, hy₀, hy₁, hy₂, hy₃, ← dot_succ, ← dot_succ, ← dot_succ,
    ← dot_succ]
  refine int32_of_small (show (dot x y (common + 4)).natAbs < v2TransitionModulus from ?_)
  rw [v2TransitionModulus]
  omega

theorem returns_scalarTurn {common : Nat} (hcommon : common < width) :
    Returns reads writes memory (scalarTurn weights input (dot x y common) common) memory
      (dot x y (common + 1)) := by
  obtain ⟨hread, hvalue⟩ := hinput common hcommon
  obtain ⟨byte, hbyte, hweight⟩ := hweights common hcommon
  have hproduct := natAbs_product_le (hx common hcommon) (hy common hcommon)
  have hbound := natAbs_dot_le (n := common + 1) (fun c h => hx c (by omega)) fun c h => hy c (by omega)
  have hfits : int32 ((memory (input common)).toInt8.toInt * byte.toInt) =
      some (x common * y common) := by
    rw [hvalue, hweight]
    refine int32_of_small ?_
    rw [v2TransitionModulus]
    omega
  refine (returns_loadInt8 hread).bind ((Returns.ofOption hbyte).bind
    ((Returns.ofOption hfits).bind (Returns.ofOption ?_)))
  rw [← dot_succ]
  refine int32_of_small ?_
  rw [v2TransitionModulus]
  omega

/-- The packed turns, and the rest. -/
theorem returns_accumulate :
    Returns reads writes memory (accumulate weights input width) memory (dot x y width) := by
  have hpacked : Returns reads writes memory ((List.range (width / 4)).foldlM
      (fun accumulator turn => packedTurn weights input accumulator (4 * turn)) 0) memory
      (dot x y (4 * (width / 4))) := by
    refine Returns.foldlM_range (fun turn => dot x y (4 * turn)) fun turn hturn => ?_
    exact returns_packedTurn hinput hweights hx hy hwidth (by omega)
  have hscalar : Returns reads writes memory ((List.range (width % 4)).foldlM
      (fun accumulator turn => scalarTurn weights input accumulator (4 * (width / 4) + turn))
      (dot x y (4 * (width / 4)))) memory (dot x y (4 * (width / 4) + width % 4)) := by
    refine Returns.foldlM_range (fun turn => dot x y (4 * (width / 4) + turn)) fun turn hturn => ?_
    exact returns_scalarTurn hinput hweights hx hy hwidth (by omega)
  rw [Nat.div_add_mod] at hscalar
  exact hpacked.bind hscalar

end

/-! ## Cells -/

theorem returns_storeReduced {z value : Int} {witness : ReductionWitness} {place : Place}
    (h : Reduced z witness value) (hplace : place ∈ writes) :
    ∃ byte, Returns reads writes memory (storeReduced z place)
      (Function.update memory place byte) () ∧ byte.toInt8.toInt = value := by
  obtain ⟨byte, hbyte, hvalue⟩ := cubicReduce_eq h
  refine ⟨byte.toUInt8, (Returns.ofOption hbyte).bind (Returns.store hplace _), ?_⟩
  rw [Int8.toInt8_toUInt8]
  exact hvalue

theorem checkedI32_eq_ok {n m : Int} (h : checkedI32 n = .ok m) : m = n ∧ int32 n = some n := by
  rw [checkedI32] at h
  split at h
  · next hrange => exact ⟨(Except.ok.inj h).symm, if_pos hrange⟩
  · cases h

/-- The checked sum of the reference. -/
theorem foldlM_checkedI64 {f : Nat → Outcome ForgeMatrixV2Error Int} {x y : Nat → Int} {n : Nat}
    (hf : ∀ common < n, f common = .ok (x common * y common))
    (hx : ∀ common < n, Centered (x common)) (hy : ∀ common < n, Centered (y common))
    (hn : n ≤ 32) :
    (List.range n).foldlM (fun accumulator common => do
      let product ← f common
      checkedI64 (accumulator + product)) 0 = .ok (dot x y n) := by
  induction n with
  | zero => rfl
  | succ n ih =>
      have hbound := natAbs_dot_le hx hy
      rw [List.range_succ, foldlM_append_eq_ok]
      refine ⟨_, ih (fun c h => hf c (by omega)) (fun c h => hx c (by omega))
        (fun c h => hy c (by omega)) (by omega), ?_⟩
      rw [List.foldlM_cons, hf n (Nat.lt_succ_self n), ok_bind, ← dot_succ, checkedI64_of_small]
      · rfl
      · rw [v2TransitionModulus]
        omega

theorem reduced_of_proveCell {mask weights : List UInt8} {rows width row col : Nat}
    {activation : List Int} {made : Int × ReductionWitness × Int} {x y : Nat → Int}
    (hproducts : ∀ common < width,
      productAt width activation weights row col common = .ok (x common * y common))
    (hx : ∀ common < width, Centered (x common)) (hy : ∀ common < width, Centered (y common))
    (hwidth : width ≤ 32)
    (h : proveCell mask rows width activation weights (row, col) = .ok made) :
    ∃ value, maskValue mask row col rows width = .ok value ∧
      int32 (dot x y width + value) = some (dot x y width + value) ∧
      Reduced (dot x y width + value) made.2.1 made.2.2 := by
  rw [proveCell, foldlM_checkedI64 hproducts hx hy hwidth, ok_bind] at h
  simp only [bind_eq_ok, pure_eq_ok] at h
  obtain ⟨accumulator, haccumulator, value, hvalue, z, hz, reduction, hreduction, output, houtput,
    rfl⟩ := h
  obtain ⟨rfl, _⟩ := checkedI32_eq_ok haccumulator
  obtain ⟨rfl, hfits⟩ := checkedI32_eq_ok hz
  exact ⟨value, hvalue, hfits, hreduction, houtput⟩

variable {rows width : Nat} (hshape : CudaShape rows width) {mask rest : List UInt8}
variable (hmask : IsMask mask rows width) {nonceIndex index : Nat} (hindex : index < rows * width)

include hshape hmask hindex

/-- A cell of the input. -/
theorem returns_inputStage {baseInput : List UInt8} {made : ReductionWitness × Int}
    (hmade : proveInput mask rows width baseInput (index / width, index % width) = .ok made)
    (hplace : .activation nonceIndex 0 index ∈ writes) :
    ∃ byte, Returns reads writes memory
        (inputStage baseInput (mask ++ rest) rows width nonceIndex index)
        (Function.update memory (.activation nonceIndex 0 index) byte) () ∧
      byte.toInt8.toInt = made.2 := by
  obtain ⟨z, hz, hreduced⟩ := proveInput_eq_ok.mp hmade
  rw [inputZ] at hz
  obtain ⟨byte, hbyte, hz⟩ := bind_eq_ok.mp hz
  obtain ⟨value, hvalue, hz⟩ := bind_eq_ok.mp hz
  obtain ⟨rfl, hfits⟩ := checkedI32_eq_ok hz
  rw [(div_mod_lt hindex).2.2, itemAt_eq_ok] at hbyte
  obtain ⟨stored, hstored, hmade⟩ := returns_storeReduced hreduced hplace
  refine ⟨stored, ?_, hmade⟩
  rw [inputStage, if_pos hindex, ffs_eq hshape.rowsPower (by have := hshape.rowsMax; omega),
    ffs_eq hshape.widthPower hshape.widthMax]
  exact (Returns.ofOption hbyte).bind ((Returns.ofOption
    (coordinateMask_eq hshape.rowsMax hshape.widthMax hmask hvalue)).bind
      ((Returns.ofOption hfits).bind hstored))

/-- A cell of a layer: the reference sums one by one what the thread sums in two loops. -/
theorem returns_layerStage {activation : List Int} {weights : List UInt8}
    {transposed : List Int8} {nonceCoefficients : List UInt8} {coefficientCount layer : Nat}
    {made : Int × ReductionWitness × Int} (hactivation : IsActivation rows width activation)
    (hweights : IsWeights width weights)
    (htransposed : ∀ col < width, ∀ common < width, ∃ weight byte,
      weights[common * width + col]? = some weight ∧
        transposed[layer * width * width + col * width + common]? = some byte ∧
        byte.toInt = decodeModelByte weight)
    (hcoefficients : nonceCoefficients.drop ((layer + 1) * coefficientCount) = mask ++ rest)
    (hmade : proveCell mask rows width activation weights (index / width, index % width) = .ok made)
    (hholds : Holds memory nonceIndex (layer % 2) activation)
    (hreads : ∀ i, .activation nonceIndex (layer % 2) i ∈ reads)
    (hplace : .activation nonceIndex ((layer + 1) % 2) index ∈ writes) :
    ∃ byte, Returns reads writes memory
        (layerStage transposed nonceCoefficients rows width coefficientCount nonceIndex index layer)
        (Function.update memory (.activation nonceIndex ((layer + 1) % 2) index) byte) () ∧
      byte.toInt8.toInt = made.2.2 := by
  obtain ⟨hrow, hcol, hcell⟩ := div_mod_lt hindex
  -- the factors of the products, as the reference reads them
  have hfactors : ∀ common < width, ∃ value weight,
      activation[index / width * width + common]? = some value ∧
        weights[common * width + index % width]? = some weight ∧ Centered value ∧
        Centered (decodeModelByte weight) := by
    intro common hcommon
    have hvalue : index / width * width + common < activation.length :=
      hactivation.length ▸ index_lt hrow hcommon
    have hweight : common * width + index % width < weights.length :=
      hweights.length ▸ index_lt hcommon hcol
    exact ⟨_, _, List.getElem?_eq_getElem hvalue, List.getElem?_eq_getElem hweight,
      hactivation.centered _ (List.getElem_mem hvalue),
      decodeModelByte_centered (hweights.allowed _ (List.getElem_mem hweight))⟩
  let x common := (activation[index / width * width + common]?).getD 0
  let y common := decodeModelByte ((weights[common * width + index % width]?).getD 0)
  have hx : ∀ common < width, Centered (x common) := by
    intro common hcommon
    obtain ⟨value, _, hvalue, _, hcentered, _⟩ := hfactors common hcommon
    rwa [show x common = value from congrArg (·.getD 0) hvalue]
  have hy : ∀ common < width, Centered (y common) := by
    intro common hcommon
    obtain ⟨_, weight, _, hweight, _, hcentered⟩ := hfactors common hcommon
    rwa [show y common = decodeModelByte weight from
      congrArg (fun found => decodeModelByte (found.getD 0)) hweight]
  have hproducts : ∀ common < width, productAt width activation weights (index / width)
      (index % width) common = .ok (x common * y common) := by
    intro common hcommon
    obtain ⟨value, weight, hvalue, hweight, _⟩ := hfactors common hcommon
    rw [show x common = value from congrArg (·.getD 0) hvalue,
      show y common = decodeModelByte weight from
        congrArg (fun found => decodeModelByte (found.getD 0)) hweight,
      productAt, itemAt_eq_ok.mpr hvalue, ok_bind, itemAt_eq_ok.mpr hweight]
    rfl
  obtain ⟨value, hvalue, hfits, hreduced⟩ :=
    reduced_of_proveCell hproducts hx hy hshape.widthMax hmade
  obtain ⟨stored, hstored, hmade⟩ := returns_storeReduced hreduced hplace
  have haccumulate : Returns reads writes memory (accumulate
      (transposed.drop (layer * width * width + index % width * width))
      (fun common => .activation nonceIndex (layer % 2) (index / width * width + common)) width)
      memory (dot x y width) := by
    refine returns_accumulate (fun common hcommon => ⟨hreads _, ?_⟩) (fun common hcommon => ?_) hx hy
      hshape.widthMax
    · obtain ⟨value, _, hvalue, _⟩ := hfactors common hcommon
      rw [show x common = value from congrArg (·.getD 0) hvalue]
      exact hholds _ value hvalue
    · obtain ⟨weight, byte, hweight, hbyte, hint⟩ := htransposed _ hcol common hcommon
      refine ⟨byte, ?_, ?_⟩
      · rw [List.getElem?_drop]
        exact hbyte
      · rw [hint, show y common = decodeModelByte weight from
          congrArg (fun found => decodeModelByte (found.getD 0)) hweight]
  have hinputBank : layer &&& 1 = layer % 2 := Nat.and_one_is_mod layer
  have houtputBank : (layer % 2) ^^^ 1 = (layer + 1) % 2 := by
    rcases Nat.mod_two_eq_zero_or_one layer with heven | hodd
    · rw [heven, show (layer + 1) % 2 = 1 by omega]
      rfl
    · rw [hodd, show (layer + 1) % 2 = 0 by omega]
      rfl
  refine ⟨stored, ?_, hmade⟩
  rw [layerStage, if_pos hindex, hinputBank, houtputBank, hcoefficients,
    ffs_eq hshape.rowsPower (by have := hshape.rowsMax; omega),
    ffs_eq hshape.widthPower hshape.widthMax]
  exact haccumulate.bind ((Returns.ofOption
    (coordinateMask_eq hshape.rowsMax hshape.widthMax hmask hvalue)).bind
      ((Returns.ofOption hfits).bind hstored))

omit hshape hmask in
/-- A cell of the output. -/
theorem returns_outputStage {layers : Nat} {final : List Int} {bytes : List UInt8}
    (hfinal : final.length = rows * width) (hbytes : activationBytes final = .ok bytes)
    (hholds : Holds memory nonceIndex (layers % 2) final)
    (hreads : ∀ i, .activation nonceIndex (layers % 2) i ∈ reads)
    (hplace : .output (nonceIndex * (rows * width) + index) ∈ writes) :
    ∃ byte, Returns reads writes memory (outputStage rows width layers nonceIndex index)
        (Function.update memory (.output (nonceIndex * (rows * width) + index)) byte) () ∧
      bytes[index]? = some byte := by
  have hcells := List.forall₂_iff_get.mp (mapM_eq_ok.mp hbytes)
  have hvalue : index < final.length := hfinal ▸ hindex
  have hbyte : index < bytes.length := hcells.1 ▸ hvalue
  have hentry := hcells.2 index hvalue hbyte
  simp only [List.get_eq_getElem] at hentry
  split at hentry
  · next hrange =>
      have hcenter : center = 125 := rfl
      have hloaded := hholds index _ (List.getElem?_eq_getElem hvalue)
      have hcast : uint8 ((memory (.activation nonceIndex (layers % 2) index)).toInt8.toInt + 125) =
          some bytes[index] := by
        rw [hloaded, uint8, if_pos (by omega)]
        exact congrArg some (Except.ok.inj hentry)
      refine ⟨bytes[index], ?_, List.getElem?_eq_getElem hbyte⟩
      rw [outputStage, if_pos hindex, show layers &&& 1 = layers % 2 from Nat.and_one_is_mod layers]
      exact (returns_loadInt8 (hreads _)).bind ((Returns.ofOption hcast).bind
        (Returns.store hplace _))
  · cases hentry

end

end CommonFoundry
