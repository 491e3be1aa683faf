import YouRoute.Geometry
import YouRoute.Intervals
import Mathlib.Data.Set.Prod
import Mathlib.Tactic.Ring

/-!
# Intersection over union

In exact arithmetic the accessors of a rectangle are the ends and the lengths of
two intervals, and `IOU` divides the product of their overlaps by what the two
areas cover. It follows that it is a number between zero and one, with the two
ends reached by disjoint and by equal rectangles.
-/

namespace YouRoute.RectangleOverlap
open Intervals

variable {F : Type*} [Field F] [LinearOrder F] [IsStrictOrderedRing F]

theorem max_sub_min_eq (x w : F) : max x (x + w) - min x (x + w) = max w (-w) := by
  rcases le_total 0 w with hw | hw
  · rw [max_eq_right (by linarith), min_eq_left (by linarith), max_eq_left (by linarith)]
    ring
  · rw [max_eq_left (by linarith), min_eq_right (by linarith), max_eq_right (by linarith)]
    ring

theorem width_eq (r : CGRect F) : r.width = r.maxX - r.minX :=
  (max_sub_min_eq r.origin.x r.size.width).symm

theorem height_eq (r : CGRect F) : r.height = r.maxY - r.minY :=
  (max_sub_min_eq r.origin.y r.size.height).symm

theorem width_nonneg (r : CGRect F) : 0 ≤ r.width := by
  rcases le_total 0 r.size.width with hw | hw
  · exact le_max_of_le_left hw
  · exact le_max_of_le_right (neg_nonneg.mpr hw)

theorem height_nonneg (r : CGRect F) : 0 ≤ r.height := by
  rcases le_total 0 r.size.height with hh | hh
  · exact le_max_of_le_left hh
  · exact le_max_of_le_right (neg_nonneg.mpr hh)

/-- The rectangle with the same points and sizes that are not negative. -/
def standardized (r : CGRect F) : CGRect F := ⟨⟨r.minX, r.minY⟩, ⟨r.width, r.height⟩⟩

/-- The points strictly inside. -/
def interior (r : CGRect F) : Set (F × F) := Set.Ioo r.minX r.maxX ×ˢ Set.Ioo r.minY r.maxY

def area (r : CGRect F) : F := r.width * r.height

/-- The overlaps along the two axes. -/
def overlapX (a b : CGRect F) : F := overlap a.minX a.maxX b.minX b.maxX
def overlapY (a b : CGRect F) : F := overlap a.minY a.maxY b.minY b.maxY

def intersectionArea (a b : CGRect F) : F := overlapY a b * overlapX a b

def unionArea (a b : CGRect F) : F := area a + area b - intersectionArea a b

theorem area_nonneg (r : CGRect F) : 0 ≤ area r := mul_nonneg (width_nonneg r) (height_nonneg r)

theorem area_pos_iff (r : CGRect F) : 0 < area r ↔ 0 < r.width ∧ 0 < r.height := by
  constructor
  · intro h
    constructor
    · exact pos_of_mul_pos_left h (height_nonneg r)
    · exact pos_of_mul_pos_right h (width_nonneg r)
  · intro h
    exact mul_pos h.1 h.2

omit [IsStrictOrderedRing F] in
theorem IOU_eq (a b : CGRect F) : IOU a b =
    if area a ≤ 0 then 0 else if area b ≤ 0 then 0 else intersectionArea a b / unionArea a b := rfl

theorem overlapX_le (a b : CGRect F) : overlapX a b ≤ a.width := by
  have hw := width_nonneg a
  rw [width_eq] at hw ⊢
  exact overlap_le (by linarith)

theorem overlapY_le (a b : CGRect F) : overlapY a b ≤ a.height := by
  have hh := height_nonneg a
  rw [height_eq] at hh ⊢
  exact overlap_le (by linarith)

omit [IsStrictOrderedRing F] in
theorem intersectionArea_comm (a b : CGRect F) : intersectionArea a b = intersectionArea b a := by
  unfold intersectionArea overlapX overlapY
  rw [overlap_comm a.minY, overlap_comm a.minX]

theorem intersectionArea_nonneg (a b : CGRect F) : 0 ≤ intersectionArea a b :=
  mul_nonneg (overlap_nonneg _ _ _ _) (overlap_nonneg _ _ _ _)

theorem intersectionArea_le_left (a b : CGRect F) : intersectionArea a b ≤ area a := by
  rw [area, mul_comm a.width]
  exact mul_le_mul (overlapY_le a b) (overlapX_le a b) (overlap_nonneg _ _ _ _) (height_nonneg a)

theorem intersectionArea_le_right (a b : CGRect F) : intersectionArea a b ≤ area b := by
  rw [intersectionArea_comm]
  exact intersectionArea_le_left b a

theorem unionArea_pos {a b : CGRect F} (ha : 0 < area a) : 0 < unionArea a b := by
  have hle := intersectionArea_le_right a b
  unfold unionArea
  linarith

theorem intersectionArea_eq_zero_iff (a b : CGRect F) :
    intersectionArea a b = 0 ↔ interior a ∩ interior b = ∅ := by
  unfold intersectionArea overlapX overlapY interior
  rw [Set.prod_inter_prod, Set.prod_eq_empty_iff, mul_eq_zero, overlap_eq_zero_iff,
    overlap_eq_zero_iff, or_comm]

/-- Factors below others make the same product only where they reach them. -/
theorem mul_eq_mul_iff_of_le {p q u v : F} (hp : p ≤ u) (hq : q ≤ v) (hpos : 0 ≤ p) (hu : 0 < u)
    (hv : 0 < v) : p * q = u * v ↔ p = u ∧ q = v := by
  rcases hpos.eq_or_lt with hzero | hlt
  · have huv : 0 < u * v := mul_pos hu hv
    rw [← hzero, zero_mul]
    apply iff_of_false huv.ne
    intro h
    exact hu.ne h.1
  · exact mul_eq_mul_iff_eq_and_eq_of_pos hp hq hlt hv

/-- A rectangle that is all in the intersection is part of the other one. -/
theorem intersectionArea_eq_area_iff {a b : CGRect F} (ha : 0 < area a) :
    intersectionArea a b = area a ↔
      (b.minX ≤ a.minX ∧ a.maxX ≤ b.maxX) ∧ (b.minY ≤ a.minY ∧ a.maxY ≤ b.maxY) := by
  obtain ⟨hwidth, hheight⟩ := (area_pos_iff a).mp ha
  have hX : overlapX a b = a.width ↔ b.minX ≤ a.minX ∧ a.maxX ≤ b.maxX := by
    rw [width_eq] at hwidth ⊢
    exact overlap_eq_length_iff (by linarith)
  have hY : overlapY a b = a.height ↔ b.minY ≤ a.minY ∧ a.maxY ≤ b.maxY := by
    rw [height_eq] at hheight ⊢
    exact overlap_eq_length_iff (by linarith)
  rw [← hX, ← hY, area, mul_comm a.width, intersectionArea, and_comm]
  exact mul_eq_mul_iff_of_le (overlapY_le a b) (overlapX_le a b) (overlap_nonneg _ _ _ _) hheight
    hwidth

omit [IsStrictOrderedRing F] in
theorem IOU_of_pos {a b : CGRect F} (ha : 0 < area a) (hb : 0 < area b) :
    IOU a b = intersectionArea a b / unionArea a b := by
  rw [IOU_eq, if_neg (not_le.mpr ha), if_neg (not_le.mpr hb)]

omit [IsStrictOrderedRing F] in
theorem IOU_of_zero {a b : CGRect F} (h : area a = 0 ∨ area b = 0) : IOU a b = 0 := by
  rw [IOU_eq]
  rcases h with ha | hb
  · rw [if_pos ha.le]
  · rw [if_pos hb.le]
    split <;> rfl

theorem standardized_eq_iff (a b : CGRect F) : standardized a = standardized b ↔
    (a.minX = b.minX ∧ a.maxX = b.maxX) ∧ (a.minY = b.minY ∧ a.maxY = b.maxY) := by
  simp only [standardized, CGRect.mk.injEq, CGPoint.mk.injEq, CGSize.mk.injEq, width_eq, height_eq]
  constructor
  · intro h
    obtain ⟨⟨hx, hy⟩, hw, hh⟩ := h
    exact ⟨⟨hx, by linarith⟩, hy, by linarith⟩
  · intro h
    obtain ⟨⟨hx, hX⟩, hy, hY⟩ := h
    exact ⟨⟨hx, hy⟩, by rw [hx, hX], by rw [hy, hY]⟩

theorem IOU_nonneg (a b : CGRect F) : 0 ≤ IOU a b := by
  rw [IOU_eq]
  split_ifs with ha hb
  · exact le_refl 0
  · exact le_refl 0
  · exact div_nonneg (intersectionArea_nonneg a b) (unionArea_pos (not_le.mp ha)).le

theorem IOU_le_one (a b : CGRect F) : IOU a b ≤ 1 := by
  rw [IOU_eq]
  split_ifs with ha hb
  · exact zero_le_one
  · exact zero_le_one
  · rw [div_le_one (unionArea_pos (not_le.mp ha))]
    have hleft := intersectionArea_le_left a b
    have hright := intersectionArea_le_right a b
    unfold unionArea
    linarith

theorem IOU_eq_zero_iff (a b : CGRect F) :
    IOU a b = 0 ↔ area a = 0 ∨ area b = 0 ∨ interior a ∩ interior b = ∅ := by
  rcases (area_nonneg a).eq_or_lt with ha | ha
  · simp [IOU_of_zero (Or.inl ha.symm), ha.symm]
  · rcases (area_nonneg b).eq_or_lt with hb | hb
    · simp [IOU_of_zero (Or.inr hb.symm), hb.symm]
    · rw [IOU_of_pos ha hb, div_eq_zero_iff, or_iff_left (unionArea_pos ha).ne',
        intersectionArea_eq_zero_iff]
      simp [ha.ne', hb.ne']

/-- The intersection is all of the union exactly when it is all of both
rectangles, which then are the same points. -/
theorem IOU_eq_one_iff {a b : CGRect F} (ha : 0 < area a) (hb : 0 < area b) :
    IOU a b = 1 ↔ standardized a = standardized b := by
  have hleft := intersectionArea_le_left a b
  have hright := intersectionArea_le_right a b
  have hboth : intersectionArea a b = unionArea a b ↔
      intersectionArea a b = area a ∧ intersectionArea b a = area b := by
    rw [intersectionArea_comm b a]
    unfold unionArea
    constructor
    · intro h
      constructor <;> linarith
    · intro h
      linarith [h.1, h.2]
  rw [IOU_of_pos ha hb, div_eq_one_iff_eq (unionArea_pos ha).ne', hboth,
    intersectionArea_eq_area_iff ha, intersectionArea_eq_area_iff hb, standardized_eq_iff]
  constructor
  · intro h
    obtain ⟨⟨⟨hba, hab⟩, hba', hab'⟩, ⟨hxa, hxb⟩, hya, hyb⟩ := h
    exact ⟨⟨le_antisymm hxa hba, le_antisymm hab hxb⟩, le_antisymm hya hba', le_antisymm hab' hyb⟩
  · intro h
    obtain ⟨⟨hx, hX⟩, hy, hY⟩ := h
    exact ⟨⟨⟨hx.ge, hX.le⟩, hy.ge, hY.le⟩, ⟨hx.le, hX.ge⟩, hy.le, hY.ge⟩

/-- `IOU` is intersection over union, for rectangles of any size and sign. -/
theorem IOU_is_intersection_over_union (a b : CGRect F) :
    IOU a b = IOU b a ∧ 0 ≤ IOU a b ∧ IOU a b ≤ 1 ∧
    (¬ a.width * a.height ≤ 0 → ¬ b.width * b.height ≤ 0 →
      0 < a.width * a.height + b.width * b.height - intersectionArea a b ∧
      IOU a b = intersectionArea a b /
        (a.width * a.height + b.width * b.height - intersectionArea a b)) ∧
    (IOU a b = 0 ↔ a.width * a.height = 0 ∨ b.width * b.height = 0 ∨
      interior a ∩ interior b = ∅) ∧
    (a.width * a.height ≠ 0 → b.width * b.height ≠ 0 →
      (IOU a b = 1 ↔ standardized a = standardized b)) := by
  refine ⟨IOU_comm a b, IOU_nonneg a b, IOU_le_one a b, ?_, IOU_eq_zero_iff a b, ?_⟩
  · intro ha hb
    exact ⟨unionArea_pos (not_le.mp ha), IOU_of_pos (not_le.mp ha) (not_le.mp hb)⟩
  · intro ha hb
    exact IOU_eq_one_iff ((area_nonneg a).lt_of_ne' ha) ((area_nonneg b).lt_of_ne' hb)

/-- A square, and one that extends to the left of its origin. -/
def corner : CGRect ℚ := ⟨⟨0, 0⟩, ⟨2, 2⟩⟩
def mirrored : CGRect ℚ := ⟨⟨3, 1⟩, ⟨-2, 2⟩⟩

theorem IOU_is_intersection_over_union_mirrored :
    IOU corner mirrored = IOU mirrored corner ∧
      IOU corner mirrored = intersectionArea corner mirrored /
        (corner.width * corner.height + mirrored.width * mirrored.height -
          intersectionArea corner mirrored) := by
  obtain ⟨hcomm, _, _, hquotient, _⟩ := IOU_is_intersection_over_union corner mirrored
  exact ⟨hcomm, (hquotient (by decide +kernel) (by decide +kernel)).2⟩

end YouRoute.RectangleOverlap
