/-
# `CommonFoundry.Gpu.Kernel` — the CUDA miner

`gpu/forgematrix_v2_miner.cu`: the model that a context keeps on its device, and the kernel
that evaluates a batch, a block for every nonce and a thread for every cell.

Where a number would not fit into its type, a cast would lose something or an index is out
of range, the thread aborts.  Indexes are natural numbers: all of them are small.  The calls
of the CUDA runtime succeed, and the compute capability of the device is a parameter.
-/
import CommonFoundry.Lib.Barrier
import CommonFoundry.Lib.Grid

namespace CommonFoundry

open Lib Lib.Outcome

def cudaMaxWidth : UInt32 := 32
def cudaMaxRows : UInt32 := 4
def cudaMaxLayers : UInt32 := 4
def cudaMaxBatch : UInt32 := 65536
def cudaThreads : Nat := 128

/-! ## Numbers -/

/-- A result of type `int32_t`. -/
def int32 (n : Int) : Option Int :=
  if -2147483648 ≤ n ∧ n < 2147483648 then some n else none

/-- `static_cast<int8_t>`, where nothing is lost. -/
def int8 (n : Int) : Option Int8 := if -128 ≤ n ∧ n < 128 then some (Int8.ofInt n) else none

/-- `static_cast<uint8_t>`, where nothing is lost. -/
def uint8 (n : Int) : Option UInt8 := if 0 ≤ n ∧ n < 256 then some (UInt8.ofNat n.toNat) else none

/-- `__ffs`: the place of the lowest bit, from one on. -/
def ffs (value : Nat) : Nat :=
  match (List.range 32).find? value.testBit with
  | some bit => bit + 1
  | none => 0

/-- The loop of `coordinate_mask` over the bits of a coordinate. -/
def addCoordinateBits (coefficients : List UInt8) (offset position bits : Nat) (mask : Int) :
    Option Int :=
  (List.range bits).foldlM (fun mask bit =>
    if position.testBit bit then do
      let coefficient ← coefficients[offset + bit]?
      int32 (mask + coefficient.toNat)
    else pure mask) mask

def coordinateMask (coefficients : List UInt8) (row col rowBits colBits : Nat) : Option Int := do
  let mask ← coefficients[0]?
  let mask ← addCoordinateBits coefficients 1 row rowBits mask.toNat
  addCoordinateBits coefficients (1 + rowBits) col colBits mask

def cubicReduce (z : Int) : Option Int8 :=
  let transitionModulus : UInt64 := 134217689
  let encoded := UInt32.ofInt (if z ≥ 0 then z else 134217689 + z)
  let square := encoded.toUInt64 * encoded.toUInt64
  let squareRemainder := (square % transitionModulus).toUInt32
  let cubeProduct := squareRemainder.toUInt64 * encoded.toUInt64
  let cubeRemainder := (cubeProduct % transitionModulus).toUInt32
  int8 ((cubeRemainder % 251).toNat - 125)

def packInt8x4 (value₀ value₁ value₂ value₃ : Int8) : UInt32 :=
  value₀.toUInt8.toUInt32 ||| value₁.toUInt8.toUInt32 <<< 8 ||| value₂.toUInt8.toUInt32 <<< 16 |||
    value₃.toUInt8.toUInt32 <<< 24

/-- The signed byte of a packed number. -/
def packedLane (packed shift : UInt32) : Int := (packed >>> shift).toUInt8.toInt8.toInt

/-- `__dp4a`: the sum of the products of four signed bytes, and an accumulator. -/
def dp4a (left right : UInt32) (accumulator : Int) : Option Int :=
  int32 (accumulator + packedLane left 0 * packedLane right 0 +
    packedLane left 8 * packedLane right 8 + packedLane left 16 * packedLane right 16 +
    packedLane left 24 * packedLane right 24)

/-! ## The kernel -/

/-- What the threads write: the two banks of `activation` that a block shares, and
`outputs`. -/
inductive Place where
  | activation (block bank index : Nat)
  | output (index : Nat)
  deriving DecidableEq

def loadInt8 (place : Place) : Thread Place UInt8 Int8 := do
  let byte ← Thread.load place
  pure byte.toInt8

/-- A turn of the loop that takes four numbers at once. -/
def packedTurn (weights : List Int8) (input : Nat → Place) (accumulator : Int) (common : Nat) :
    Thread Place UInt8 Int := do
  let value₀ ← loadInt8 (input common)
  let value₁ ← loadInt8 (input (common + 1))
  let value₂ ← loadInt8 (input (common + 2))
  let value₃ ← loadInt8 (input (common + 3))
  let weight₀ ← Thread.ofOption weights[common]?
  let weight₁ ← Thread.ofOption weights[common + 1]?
  let weight₂ ← Thread.ofOption weights[common + 2]?
  let weight₃ ← Thread.ofOption weights[common + 3]?
  Thread.ofOption (dp4a (packInt8x4 value₀ value₁ value₂ value₃)
    (packInt8x4 weight₀ weight₁ weight₂ weight₃) accumulator)

/-- A turn of the loop over the rest. -/
def scalarTurn (weights : List Int8) (input : Nat → Place) (accumulator : Int) (common : Nat) :
    Thread Place UInt8 Int := do
  let value ← loadInt8 (input common)
  let weight ← Thread.ofOption weights[common]?
  let product ← Thread.ofOption (int32 (value.toInt * weight.toInt))
  Thread.ofOption (int32 (accumulator + product))

/-- The two loops: `common` is four times the turn in the first, and goes on from there. -/
def accumulate (weights : List Int8) (input : Nat → Place) (width : Nat) :
    Thread Place UInt8 Int := do
  let accumulator ← (List.range (width / 4)).foldlM (fun accumulator turn =>
    packedTurn weights input accumulator (4 * turn)) 0
  (List.range (width % 4)).foldlM (fun accumulator turn =>
    scalarTurn weights input accumulator (4 * (width / 4) + turn)) accumulator

section

variable (base : List UInt8) (transposedWeights : List Int8) (nonceCoefficients : List UInt8)
variable (rows width layers coefficientCount : Nat) (nonceIndex index : Nat)

/-- What a cell of an activation is reduced from, and where it goes. -/
def storeReduced (z : Int) (place : Place) : Thread Place UInt8 Unit := do
  let value ← Thread.ofOption (cubicReduce z)
  Thread.store place value.toUInt8

def inputStage : Thread Place UInt8 Unit :=
  if index < rows * width then do
    let row := index / width
    let col := index % width
    let byte ← Thread.ofOption base[index]?
    let mask ← Thread.ofOption
      (coordinateMask nonceCoefficients row col (ffs rows - 1) (ffs width - 1))
    let z ← Thread.ofOption (int32 (byte.toNat - 125 + mask))
    storeReduced z (.activation nonceIndex 0 index)
  else pure ()

def layerStage (layer : Nat) : Thread Place UInt8 Unit :=
  let inputBank := layer &&& 1
  let outputBank := inputBank ^^^ 1
  if index < rows * width then do
    let row := index / width
    let col := index % width
    let weights := transposedWeights.drop (layer * width * width + col * width)
    let accumulator ← accumulate weights
      (fun common => .activation nonceIndex inputBank (row * width + common)) width
    let mask ← Thread.ofOption (coordinateMask
      (nonceCoefficients.drop ((layer + 1) * coefficientCount)) row col (ffs rows - 1)
      (ffs width - 1))
    let z ← Thread.ofOption (int32 (accumulator + mask))
    storeReduced z (.activation nonceIndex outputBank index)
  else pure ()

def outputStage : Thread Place UInt8 Unit :=
  let activationLen := rows * width
  if index < activationLen then do
    let value ← loadInt8 (.activation nonceIndex (layers &&& 1) index)
    let byte ← Thread.ofOption (uint8 (value.toInt + 125))
    Thread.store (.output (nonceIndex * activationLen + index)) byte
  else pure ()

/-- The layers that remain, each up to its barrier, and the output. -/
def layersFrom : Nat → Nat → Thread Place UInt8 Unit
  | 0, _ => outputStage rows width layers nonceIndex index
  | remaining + 1, layer => do
      layerStage transposedWeights nonceCoefficients rows width coefficientCount nonceIndex index layer
      Thread.barrier
      layersFrom remaining (layer + 1)

end

/-- The kernel, for one thread. -/
def evaluateBatch (base : List UInt8) (transposedWeights : List Int8)
    (allCoefficients : List UInt8) (rows width layers coefficientCount batchCount : Nat)
    (nonceIndex index : Nat) : Thread Place UInt8 Unit :=
  if nonceIndex ≥ batchCount then pure ()
  else do
    let stages := layers + 1
    let nonceCoefficients := allCoefficients.drop (nonceIndex * stages * coefficientCount)
    inputStage base nonceCoefficients rows width nonceIndex index
    Thread.barrier
    layersFrom transposedWeights nonceCoefficients rows width layers coefficientCount nonceIndex
      index layers 0

/-! ## The host -/

/-- A value that is there, or an abort. -/
def orAbort {ε α : Type} : Option α → Outcome ε α
  | some value => .ok value
  | none => .error .panic

def exactLog2 (value : Nat) : Outcome String Nat := do
  require (¬(value = 0 ∨ value &&& (value - 1) ≠ 0)) "dimensions must be powers of two"
  orAbort ((List.range 32).find? fun bits => 1 <<< bits = value)

def validateCanonical (values : List UInt8) (label : String) : Outcome String Unit :=
  require (¬∃ value ∈ values, value > 250) (label ++ " contains a noncanonical byte")

structure CudaContext where
  rows : UInt32
  width : UInt32
  layers : UInt32
  coefficientCount : UInt32
  activationLen : Nat
  base : List UInt8
  weights : List Int8

/-- The loops of `cmfd_cuda_create` that centre the weights and turn each layer. -/
def transposeWeights (layers width : Nat) (weights : List UInt8) : Outcome String (List Int8) :=
  (List.range layers).foldlM (fun transposed layer =>
    (cells width width).foldlM (fun transposed (col, common) => do
      let source := layer * width * width + common * width + col
      let target := layer * width * width + col * width + common
      let weight ← itemAt weights source
      let value ← orAbort (int8 (weight.toNat - 125))
      pure (transposed.set target value)) transposed)
    (List.replicate (layers * width * width) 0)

def cmfdCudaCreate (major : Nat) (rows width layers coefficientCount : UInt32)
    (baseInput weights : List UInt8) : Outcome String CudaContext := do
  require (¬(rows = 0 ∨ rows > cudaMaxRows ∨ width = 0 ∨ width > cudaMaxWidth ∨ layers = 0 ∨
    layers > cudaMaxLayers)) "CUDA backend accepts only the bounded v2 research profile"
  let rowBits ← exactLog2 rows.toNat
  let colBits ← exactLog2 width.toNat
  require (coefficientCount.toNat = 1 + rowBits + colBits) "coefficient count mismatch"
  let activationLen := rows.toNat * width.toNat
  let expectedWeights := layers.toNat * width.toNat * width.toNat
  require (¬(baseInput.length ≠ activationLen ∨ weights.length ≠ expectedWeights))
    "model byte length mismatch"
  validateCanonical baseInput "base input"
  validateCanonical weights "weights"
  require (¬major < 7) "CUDA device must support compute capability 7.0 or newer"
  let transposed ← transposeWeights layers.toNat width.toNat weights
  pure { rows, width, layers, coefficientCount, activationLen, base := baseInput,
         weights := transposed }

namespace CudaContext

variable (context : CudaContext) (coefficients : List UInt8) (count : UInt32)

/-- The checks of `cmfd_cuda_evaluate`. -/
def checkBatch (outputsLen : Nat) : Outcome String Unit := do
  require (¬(count = 0 ∨ count > cudaMaxBatch)) "batch size is out of range"
  let expectedCoefficients :=
    count.toNat * (context.layers.toNat + 1) * context.coefficientCount.toNat
  let expectedOutputs := count.toNat * context.activationLen
  require (¬(coefficients.length ≠ expectedCoefficients ∨ outputsLen ≠ expectedOutputs))
    "batch buffer length mismatch"
  validateCanonical coefficients "mask coefficients"

/-- The grid that is launched, over what the memory holds then. -/
def launch (memory : Place → UInt8) : Grid (Fin count.toNat) (Fin cudaThreads) Place UInt8 where
  memory
  stage _ := 0
  threads block thread := evaluateBatch context.base context.weights coefficients
    context.rows.toNat context.width.toNat context.layers.toNat context.coefficientCount.toNat
    count.toNat block thread

end CudaContext

end CommonFoundry
