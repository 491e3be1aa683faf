import YouRoute.Activations
import YouRoute.NonMaxSuppression
import Mathlib.Data.Fin.VecNotation

/-!
# The detector's decoder

`computeBoundingBoxes` reads three feature arrays through one pointer and three
strides, which are variables re-assigned for each level and captured by `offset`.
A level is a grid of cells; each cell has three slots, one for each anchor pair,
and each slot 85 channels: a box, a confidence and 80 class logits.
-/

namespace YouRoute

universe u v

/-- `strides` counts elements of `dataPointer`, the array's memory as read by
`Float`. -/
structure MLMultiArray (F : Type*) where
  shape : List ℕ
  strides : List ℤ
  dataPointer : ℤ → F
  three_le : 3 ≤ strides.length

/-- `strides[k]` of the first three dimensions. -/
def MLMultiArray.stride {F : Type*} (array : MLMultiArray F) (k : Fin 3) : ℤ :=
  have h := array.three_le
  array.strides[k.val]

/-- The element at a channel, a row and a column, wherever the strides put it. -/
def MLMultiArray.element {F : Type*} (array : MLMultiArray F) (channel y x : ℕ) : F :=
  array.dataPointer (channel * array.stride 0 + y * array.stride 1 + x * array.stride 2)

def MLMultiArray.count {F : Type*} (array : MLMultiArray F) : ℕ := array.shape.prod

def inputWidth : ℕ := 416
def inputHeight : ℕ := 416
def maxBoundingBoxes : ℤ := 10

def gridHeight : Fin 3 → ℕ := ![13, 26, 52]
def gridWidth : Fin 3 → ℕ := ![13, 26, 52]
abbrev boxesPerCell : ℕ := 3
def numClasses : ℕ := 80
def blockSize : ℕ := 32

/-- Width and height of the three anchors of each level. -/
def anchors : Vector (Vector ℕ 6) 3 :=
  #v[#v[116, 90, 156, 198, 373, 326], #v[30, 61, 62, 45, 59, 119], #v[10, 13, 16, 30, 33, 23]]

/-- Three arrays that pass the assertions at the head of `computeBoundingBoxes`. -/
structure Features (F : Type*) where
  level : Fin 3 → MLMultiArray F
  count_eq : ∀ i, (level i).count = 255 * gridHeight i * gridWidth i

/-- The variables that `offset` captures. -/
structure Registers (F : Type*) where
  featurePointer : ℤ → F
  channelStride : ℤ
  yStride : ℤ
  xStride : ℤ

/-- The four assignments made for each level. -/
def Registers.load {F : Type*} (array : MLMultiArray F) : Registers F where
  featurePointer := array.dataPointer
  channelStride := array.stride 0
  yStride := array.stride 1
  xStride := array.stride 2

def Registers.offset {F : Type*} (r : Registers F) (channel x y : ℕ) : ℤ :=
  channel * r.channelStride + y * r.yStride + x * r.xStride

/-- `featurePointer[offset(channel, x, y)]` -/
def Registers.read {F : Type*} (r : Registers F) (channel x y : ℕ) : F :=
  r.featurePointer (r.offset channel x y)

/-- What one slot reads. -/
structure SlotValues (F : Type*) where
  tx : F
  ty : F
  tw : F
  th : F
  tc : F
  classes : List F

/-- The reads of one slot, over any way of reading. -/
def readSlot {F : Type u} {m : Type u → Type v} [Monad m] (read : (channel x y : ℕ) → m F)
    (cx cy b : ℕ) : m (SlotValues F) := do
  let channel := b * (numClasses + 5)
  let tx ← read channel cx cy
  let ty ← read (channel + 1) cx cy
  let tw ← read (channel + 2) cx cy
  let th ← read (channel + 3) cx cy
  let tc ← read (channel + 4) cx cy
  let classes ← (List.range numClasses).mapM fun c => read (channel + 5 + c) cx cy
  pure { tx, ty, tw, th, tc, classes }

section Decode

variable {F : Type*} [Add F] [Sub F] [Mul F] [Div F] [Neg F] [Zero F] [One F] [Max F]
  [LT F] [DecidableLT F] [NatCast F] [OfNat F 2] [OfScientific F] [Pow F ℕ]

def confidenceThreshold : F := 0.6
def iouThreshold : F := 0.4

/-- The rectangle of a slot, in pixels of the square input image. -/
def slotRect (exp : F → F) (i : Fin 3) (cx cy : ℕ) (b : Fin 3) (v : SlotValues F) : CGRect F :=
  let scale := (2 : F) ^ i.val
  let x := ((cx : F) * (blockSize : F) + sigmoid exp v.tx) / scale
  let y := ((cy : F) * (blockSize : F) + sigmoid exp v.ty) / scale
  let w := exp v.tw * ((anchors[i][2 * b.val] : ℕ) : F)
  let h := exp v.th * ((anchors[i][2 * b.val + 1] : ℕ) : F)
  ⟨⟨x - w / 2, y - h / 2⟩, ⟨w, h⟩⟩

/-- The rest of the loop body: the prediction the slot appends, if it appends
one. The outer `none` is the precondition of `argmax`. -/
def decodeSlot (exp : F → F) (i : Fin 3) (cx cy : ℕ) (b : Fin 3) (v : SlotValues F) :
    Option (Option (Prediction F)) := do
  let confidence := sigmoid exp v.tc
  let classes := softmax exp v.classes
  let (detectedClass, bestClassScore) ← argmax classes
  let confidenceInClass := bestClassScore * confidence
  if confidenceThreshold < confidenceInClass then
    some (some ⟨detectedClass, confidenceInClass, slotRect exp i cx cy b v⟩)
  else some none

/-- The body of the innermost loop. -/
def slotBody (exp : F → F) (r : Registers F) (i : Fin 3) (cy cx : ℕ)
    (predictions : List (Prediction F)) (b : Fin 3) : Option (List (Prediction F)) :=
  let v := Id.run (readSlot (fun channel x y => pure (r.read channel x y)) cx cy b.val)
  (decodeSlot exp i cx cy b v).map fun prediction => predictions ++ prediction.toList

def cellBody (exp : F → F) (r : Registers F) (i : Fin 3) (cy : ℕ)
    (predictions : List (Prediction F)) (cx : ℕ) : Option (List (Prediction F)) :=
  (List.finRange boxesPerCell).foldlM (slotBody exp r i cy cx) predictions

def rowBody (exp : F → F) (r : Registers F) (i : Fin 3)
    (predictions : List (Prediction F)) (cy : ℕ) : Option (List (Prediction F)) :=
  (List.range (gridWidth i)).foldlM (cellBody exp r i cy) predictions

/-- The body of the outermost loop, on the captured variables and the list. -/
def levelBody (exp : F → F) (features : Features F)
    (st : Registers F × List (Prediction F)) (i : Fin 3) :
    Option (Registers F × List (Prediction F)) := do
  let r := Registers.load (features.level i)
  let predictions ← (List.range (gridHeight i)).foldlM (rowBody exp r i) st.2
  pure (r, predictions)

/-- The predictions before suppression. -/
def candidates (exp : F → F) (features : Features F) : Option (List (Prediction F)) := do
  let st ← (List.finRange 3).foldlM (levelBody exp features)
    (Registers.load (features.level 0), [])
  pure st.2

/-- `sort` is what the standard library's sort returns for a list of boxes. -/
def computeBoundingBoxes [Min F] [LE F] [DecidableLE F] (exp : F → F)
    (sort : (boxes : List (Prediction F)) → SortedIndices boxes) (features : Features F) :
    Option (List (Prediction F)) := do
  let predictions ← candidates exp features
  pure (nonMaxSuppression predictions (sort predictions) maxBoundingBoxes iouThreshold)

end Decode

theorem anchors_pos : ∀ (i : Fin 3) (k : Fin 6), 0 < anchors[i][k] := by decide

section Exact

variable {F : Type*} [Field F] [LinearOrder F] [IsStrictOrderedRing F] {exp : F → F}

theorem slotRect_size_pos (hexp : ∀ x, 0 < exp x) (i : Fin 3) (cx cy : ℕ) (b : Fin 3)
    (v : SlotValues F) : 0 < (slotRect exp i cx cy b v).size.width ∧
      0 < (slotRect exp i cx cy b v).size.height := by
  have hw := anchors_pos i ⟨2 * b.val, by omega⟩
  have hh := anchors_pos i ⟨2 * b.val + 1, by omega⟩
  exact ⟨mul_pos (hexp _) (Nat.cast_pos.mpr hw), mul_pos (hexp _) (Nat.cast_pos.mpr hh)⟩

end Exact

end YouRoute
