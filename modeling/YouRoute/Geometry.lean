import Mathlib.Algebra.Order.Field.Basic
import Mathlib.Algebra.Order.Group.MinMax

/-!
# Rectangles and their overlap

The functions here use only the operations of the number type, so that they can
be read over machine numbers and over exact ones. Laws of these operations are
assumed only in the theorems.
-/

namespace YouRoute

structure CGPoint (F : Type*) where
  x : F
  y : F
  deriving DecidableEq, Repr

structure CGSize (F : Type*) where
  width : F
  height : F
  deriving DecidableEq, Repr

structure CGRect (F : Type*) where
  origin : CGPoint F
  size : CGSize F
  deriving DecidableEq, Repr

namespace CGRect

section Operations

variable {F : Type*} [Add F] [Neg F] [Max F] [Min F]

/-- The accessors below are those of the standardised rectangle: a negative size
extends the rectangle to the other side of its origin. -/
def width (r : CGRect F) : F := max r.size.width (-r.size.width)
def height (r : CGRect F) : F := max r.size.height (-r.size.height)
def minX (r : CGRect F) : F := min r.origin.x (r.origin.x + r.size.width)
def minY (r : CGRect F) : F := min r.origin.y (r.origin.y + r.size.height)
def maxX (r : CGRect F) : F := max r.origin.x (r.origin.x + r.size.width)
def maxY (r : CGRect F) : F := max r.origin.y (r.origin.y + r.size.height)

end Operations

end CGRect

section IOU

variable {F : Type*} [Add F] [Sub F] [Mul F] [Div F] [Neg F] [Zero F] [Max F] [Min F] [LE F]
  [DecidableLE F]

/-- Intersection over union, zero where one of the rectangles has no area. -/
def IOU (a b : CGRect F) : F :=
  let areaA := a.width * a.height
  if areaA ≤ 0 then 0 else
  let areaB := b.width * b.height
  if areaB ≤ 0 then 0 else
  let intersectionMinX := max a.minX b.minX
  let intersectionMinY := max a.minY b.minY
  let intersectionMaxX := min a.maxX b.maxX
  let intersectionMaxY := min a.maxY b.maxY
  let intersectionArea := max (intersectionMaxY - intersectionMinY) 0 *
    max (intersectionMaxX - intersectionMinX) 0
  intersectionArea / (areaA + areaB - intersectionArea)

end IOU

section Exact

variable {F : Type*} [Field F] [LinearOrder F]

theorem IOU_comm (a b : CGRect F) : IOU a b = IOU b a := by
  simp only [IOU, max_comm a.minX, max_comm a.minY, min_comm a.maxX, min_comm a.maxY,
    add_comm (a.width * a.height)]
  split_ifs <;> rfl

end Exact

end YouRoute
