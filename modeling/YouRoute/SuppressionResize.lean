import YouRoute.Decoder
import YouRoute.RectangleOverlap
import YouRoute.SuppressionOrder

/-!
# Suppression under resizing

A photo is squashed to the square input of the network, and the boxes found in it
are stretched back over the view, with one factor for each axis. Intersection over
union does not see such a map: both overlaps along an axis grow by the factor of
that axis, so the quotient of areas stays the same. Suppression only compares
these quotients, so it commutes with the map.
-/

namespace YouRoute

/-- Scale by a positive factor along each axis, then move. -/
structure Resize (F : Type*) [Zero F] [LT F] where
  sx : F
  sy : F
  dx : F
  dy : F
  sx_pos : 0 < sx
  sy_pos : 0 < sy

namespace Resize
open Intervals RectangleOverlap SuppressionOrder GreedySelection

section Operations

variable {F : Type*} [Add F] [Mul F] [Zero F] [LT F]

def rect (f : Resize F) (r : CGRect F) : CGRect F where
  origin := ⟨f.sx * r.origin.x + f.dx, f.sy * r.origin.y + f.dy⟩
  size := ⟨f.sx * r.size.width, f.sy * r.size.height⟩

def prediction (f : Resize F) (p : Prediction F) : Prediction F :=
  { p with rect := f.rect p.rect }

/-- The positions of the boxes are the same before and after, and so is an order
of them by score. -/
def order (f : Resize F) {boxes : List (Prediction F)} (sortedIndices : SortedIndices boxes) :
    SortedIndices (boxes.map f.prediction) where
  indices := (sortedIndices.indices.map (Fin.cast (List.length_map f.prediction).symm)).cast
    (List.length_map f.prediction).symm
  perm := by
    have hlength : boxes.length = (boxes.map f.prediction).length := (List.length_map _).symm
    have hperm := sortedIndices.perm.map (Fin.cast hlength)
    have hrange : (List.finRange boxes.length).map (Fin.cast hlength) =
        List.finRange (boxes.map f.prediction).length := by
      apply List.ext_getElem
      · simp
      · intro i hi hi'
        simp
    rw [hrange] at hperm
    rw [Vector.toList_cast, Vector.toList_map]
    exact hperm
  sorted := by
    have hsorted := sortedIndices.sorted
    simp only [Vector.toList_cast, Vector.toList_map, List.pairwise_map]
    apply hsorted.imp
    intro k l h
    simpa [prediction] using h

theorem index_order (f : Resize F) {boxes : List (Prediction F)}
    (sortedIndices : SortedIndices boxes) (i : Fin boxes.length) :
    ((f.order sortedIndices).index (Fin.cast (List.length_map f.prediction).symm i)).val =
      (sortedIndices.index i).val := by
  simp [order, SortedIndices.index]

theorem box_order (f : Resize F) {boxes : List (Prediction F)}
    (sortedIndices : SortedIndices boxes) (i : Fin boxes.length) :
    (f.order sortedIndices).box (Fin.cast (List.length_map f.prediction).symm i) =
      f.prediction (sortedIndices.box i) := by
  unfold SortedIndices.box
  simp only [Fin.getElem_fin, index_order, List.getElem_map]

theorem sortedBoxes_order (f : Resize F) {boxes : List (Prediction F)}
    (sortedIndices : SortedIndices boxes) :
    sortedBoxes (f.order sortedIndices) = (sortedBoxes sortedIndices).map f.prediction := by
  apply List.ext_getElem
  · rw [List.length_map, length_sortedBoxes, length_sortedBoxes, List.length_map]
  · intro i hi hi'
    have hlt : i < boxes.length := by simpa [length_sortedBoxes] using hi'
    simp only [sortedBoxes, List.getElem_map, List.getElem_finRange]
    exact f.box_order sortedIndices ⟨i, hlt⟩

end Operations

section Exact

variable {F : Type*} [Field F] [LinearOrder F] [IsStrictOrderedRing F] (f : Resize F)

theorem min_affine {s : F} (hs : 0 < s) (d x w : F) :
    min (s * x + d) (s * x + d + s * w) = s * min x (x + w) + d := by
  rw [mul_min_of_nonneg _ _ hs.le, ← min_add_add_right]
  congr 1
  ring

theorem max_affine {s : F} (hs : 0 < s) (d x w : F) :
    max (s * x + d) (s * x + d + s * w) = s * max x (x + w) + d := by
  rw [mul_max_of_nonneg _ _ hs.le, ← max_add_add_right]
  congr 1
  ring

theorem minX_rect (r : CGRect F) : (f.rect r).minX = f.sx * r.minX + f.dx :=
  min_affine f.sx_pos f.dx r.origin.x r.size.width

theorem maxX_rect (r : CGRect F) : (f.rect r).maxX = f.sx * r.maxX + f.dx :=
  max_affine f.sx_pos f.dx r.origin.x r.size.width

theorem minY_rect (r : CGRect F) : (f.rect r).minY = f.sy * r.minY + f.dy :=
  min_affine f.sy_pos f.dy r.origin.y r.size.height

theorem maxY_rect (r : CGRect F) : (f.rect r).maxY = f.sy * r.maxY + f.dy :=
  max_affine f.sy_pos f.dy r.origin.y r.size.height

theorem area_rect (r : CGRect F) : area (f.rect r) = f.sx * f.sy * area r := by
  unfold area
  rw [width_eq, height_eq, width_eq, height_eq, minX_rect, maxX_rect, minY_rect, maxY_rect]
  ring

theorem intersectionArea_rect (a b : CGRect F) :
    intersectionArea (f.rect a) (f.rect b) = f.sx * f.sy * intersectionArea a b := by
  unfold intersectionArea overlapX overlapY
  rw [minX_rect, maxX_rect, minY_rect, maxY_rect, minX_rect, maxX_rect, minY_rect, maxY_rect,
    overlap_affine f.sx_pos, overlap_affine f.sy_pos]
  ring

theorem unionArea_rect (a b : CGRect F) :
    unionArea (f.rect a) (f.rect b) = f.sx * f.sy * unionArea a b := by
  unfold unionArea
  rw [area_rect, area_rect, intersectionArea_rect]
  ring

/-- The zero-area guards and the quotient are all unchanged. -/
theorem IOU_rect (a b : CGRect F) : IOU (f.rect a) (f.rect b) = IOU a b := by
  have hpos : 0 < f.sx * f.sy := mul_pos f.sx_pos f.sy_pos
  have harea : ∀ r, area (f.rect r) ≤ 0 ↔ area r ≤ 0 := by
    intro r
    rw [area_rect, ← not_lt, ← not_lt, mul_pos_iff_of_pos_left hpos]
  rw [IOU_eq, IOU_eq]
  simp only [harea]
  rw [intersectionArea_rect, unionArea_rect, mul_div_mul_left _ _ hpos.ne']

theorem suppresses_prediction (threshold : F) (p q : Prediction F) :
    Suppresses threshold p q ↔ Suppresses threshold (f.prediction p) (f.prediction q) := by
  unfold Suppresses prediction
  rw [IOU_rect]

theorem select_prediction {boxes : List (Prediction F)} (sortedIndices : SortedIndices boxes)
    (limit : ℕ) (threshold : F) :
    select (Suppresses threshold) limit (sortedBoxes (f.order sortedIndices)) =
      (select (Suppresses threshold) limit (sortedBoxes sortedIndices)).map f.prediction := by
  rw [sortedBoxes_order]
  exact select_map _ _ (f.suppresses_prediction threshold) _

/-- Suppression commutes with resizing. -/
theorem nonMaxSuppression_resize (boxes : List (Prediction F))
    (sortedIndices : SortedIndices boxes) (limit : ℤ) (threshold : F) :
    nonMaxSuppression (boxes.map f.prediction) (f.order sortedIndices) limit threshold =
      (nonMaxSuppression boxes sortedIndices limit threshold).map f.prediction := by
  rw [nonMaxSuppression_eq_select_boxes, nonMaxSuppression_eq_select_boxes]
  exact f.select_prediction sortedIndices _ threshold

end Exact

/-- A photo of 1920 by 1080 pixels squashed to the network's input. -/
def squash : Resize ℚ where
  sx := 416 / 1920
  sy := 416 / 1080
  dx := 0
  dy := 0
  sx_pos := by decide +kernel
  sy_pos := by decide +kernel

theorem nonMaxSuppression_resize_crowd :
    nonMaxSuppression (GreedySuppression.crowd.map squash.prediction)
        (squash.order GreedySuppression.crowdOrder) 10 (2 / 5) =
      (nonMaxSuppression GreedySuppression.crowd GreedySuppression.crowdOrder 10 (2 / 5)).map
        squash.prediction :=
  nonMaxSuppression_resize squash GreedySuppression.crowd GreedySuppression.crowdOrder 10 (2 / 5)

end Resize

namespace StoryController
open SuppressionOrder

variable {F : Type*} [Field F]

/-- Where `show` places a rectangle of the network's input in the view. -/
def showRect (bounds : CGSize F) (rect : CGRect F) : CGRect F :=
  let width := bounds.width
  let height := width * (4 : ℕ) / (3 : ℕ)
  let scaleX := width / inputWidth
  let scaleY := height / inputHeight
  let top := (bounds.height - height) / (2 : ℕ)
  { origin := ⟨rect.origin.x * scaleX, rect.origin.y * scaleY + top⟩
    size := ⟨rect.size.width * scaleX, rect.size.height * scaleY⟩ }

variable [LinearOrder F] [IsStrictOrderedRing F]

/-- The same map in a view of some width. -/
def toView (bounds : CGSize F) (hwidth : 0 < bounds.width) : Resize F where
  sx := bounds.width / inputWidth
  sy := bounds.width * (4 : ℕ) / (3 : ℕ) / inputHeight
  dx := 0
  dy := (bounds.height - bounds.width * (4 : ℕ) / (3 : ℕ)) / (2 : ℕ)
  sx_pos := div_pos hwidth (Nat.cast_pos.mpr (by decide))
  sy_pos := by
    have hheight : 0 < bounds.width * (4 : ℕ) / (3 : ℕ) :=
      div_pos (mul_pos hwidth (Nat.cast_pos.mpr (by decide))) (Nat.cast_pos.mpr (by decide))
    exact div_pos hheight (Nat.cast_pos.mpr (by decide))

theorem showRect_eq (bounds : CGSize F) (hwidth : 0 < bounds.width) :
    showRect bounds = (toView bounds hwidth).rect := by
  funext rect
  simp only [showRect, toView, Resize.rect, mul_comm, add_zero]

/-- Suppressing what `show` would place gives what `show` places of the kept ones. -/
theorem nonMaxSuppression_showRect (bounds : CGSize F) (hwidth : 0 < bounds.width)
    (boxes : List (Prediction F)) (sortedIndices : SortedIndices boxes) (limit : ℤ)
    (threshold : F) :
    (nonMaxSuppression (boxes.map (toView bounds hwidth).prediction)
        ((toView bounds hwidth).order sortedIndices) limit threshold).map (·.rect) =
      (nonMaxSuppression boxes sortedIndices limit threshold).map
        fun p => showRect bounds p.rect := by
  rw [nonMaxSuppression_eq_select_boxes, nonMaxSuppression_eq_select_boxes,
    Resize.select_prediction, List.map_map, showRect_eq bounds hwidth]
  rfl

end StoryController

end YouRoute
