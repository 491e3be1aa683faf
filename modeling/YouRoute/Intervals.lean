import Mathlib.Algebra.Order.Field.Basic
import Mathlib.Order.Interval.Set.Disjoint
import Mathlib.Tactic.Linarith

/-!
# Overlap of intervals

The overlap of two intervals is the length of their intersection, which is zero
where they do not meet. It is bounded by both lengths, it is a whole length
exactly when one interval contains the other, and it scales with the intervals.
-/

namespace Intervals

variable {F : Type*} [Field F] [LinearOrder F]

/-- Overlap of the intervals from `a₁` to `a₂` and from `b₁` to `b₂`. -/
def overlap (a₁ a₂ b₁ b₂ : F) : F := max (min a₂ b₂ - max a₁ b₁) 0

theorem overlap_comm (a₁ a₂ b₁ b₂ : F) : overlap a₁ a₂ b₁ b₂ = overlap b₁ b₂ a₁ a₂ := by
  unfold overlap
  rw [min_comm, max_comm a₁]

theorem overlap_nonneg (a₁ a₂ b₁ b₂ : F) : 0 ≤ overlap a₁ a₂ b₁ b₂ := le_max_right _ _

variable [IsStrictOrderedRing F]

theorem overlap_le {a₁ a₂ b₁ b₂ : F} (ha : a₁ ≤ a₂) : overlap a₁ a₂ b₁ b₂ ≤ a₂ - a₁ := by
  apply max_le
  · have hmin := min_le_left a₂ b₂
    have hmax := le_max_left a₁ b₁
    linarith
  · linarith

/-- The intervals overlap in nothing exactly when no point is inside both. -/
theorem overlap_eq_zero_iff {a₁ a₂ b₁ b₂ : F} :
    overlap a₁ a₂ b₁ b₂ = 0 ↔ Set.Ioo a₁ a₂ ∩ Set.Ioo b₁ b₂ = ∅ := by
  rw [← Set.disjoint_iff_inter_eq_empty, Set.Ioo_disjoint_Ioo, overlap, max_eq_right_iff, sub_nonpos]

/-- An interval overlaps another one in its whole length exactly when it is part
of it. -/
theorem overlap_eq_length_iff {a₁ a₂ b₁ b₂ : F} (ha : a₁ < a₂) :
    overlap a₁ a₂ b₁ b₂ = a₂ - a₁ ↔ b₁ ≤ a₁ ∧ a₂ ≤ b₂ := by
  have hmin := min_le_left a₂ b₂
  have hmax := le_max_left a₁ b₁
  constructor
  · intro h
    have hreach : min a₂ b₂ - max a₁ b₁ = a₂ - a₁ := by
      rcases max_choice (min a₂ b₂ - max a₁ b₁) 0 with hchoice | hchoice
      · rw [← h, overlap, hchoice]
      · rw [overlap, hchoice] at h
        linarith
    constructor
    · apply max_eq_left_iff.mp
      linarith
    · apply min_eq_left_iff.mp
      linarith
  · intro h
    rw [overlap, min_eq_left h.2, max_eq_left h.1, max_eq_left]
    linarith

theorem overlap_affine {s : F} (hs : 0 < s) (d a₁ a₂ b₁ b₂ : F) :
    overlap (s * a₁ + d) (s * a₂ + d) (s * b₁ + d) (s * b₂ + d) = s * overlap a₁ a₂ b₁ b₂ := by
  unfold overlap
  rw [min_add_add_right, max_add_add_right, ← mul_min_of_nonneg _ _ hs.le,
    ← mul_max_of_nonneg _ _ hs.le, add_sub_add_right_eq_sub, ← mul_sub,
    mul_max_of_nonneg _ _ hs.le, mul_zero]

end Intervals
