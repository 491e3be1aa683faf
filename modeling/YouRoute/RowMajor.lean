import Mathlib.Algebra.BigOperators.Group.List.Basic
import Mathlib.Algebra.Order.Group.Nat
import Mathlib.Algebra.Order.Monoid.Unbundled.Basic

/-!
# Row-major buffers

The strides of a densely packed buffer are the products of the extents that come
after each one. An index inside the shape has its offset inside the buffer. When
an index runs over a box of its own extents, which need not be the shape's, all
offsets are below a bound exactly when the offset of the last index is.
-/

namespace RowMajor

def strides : List ℕ → List ℕ
  | [] => []
  | _ :: shape => shape.prod :: strides shape

/-- The offset of an index; an index shorter than the strides uses the first ones. -/
def offset : List ℕ → List ℕ → ℕ
  | s :: strides, k :: index => k * s + offset strides index
  | _, _ => 0

@[simp] theorem offset_nil (strides : List ℕ) : offset strides [] = 0 := by
  cases strides <;> rfl

theorem offset_mono (strides : List ℕ) {index last : List ℕ}
    (h : List.Forall₂ (· ≤ ·) index last) : offset strides index ≤ offset strides last := by
  induction h generalizing strides with
  | nil => exact le_rfl
  | cons hk _ ih =>
      cases strides with
      | nil => exact le_rfl
      | cons s strides => exact Nat.add_le_add (Nat.mul_le_mul_right s hk) (ih strides)

/-- The offset of an index inside the shape is inside the buffer. -/
theorem offset_lt_prod {shape index : List ℕ} (h : List.Forall₂ (· < ·) index shape) :
    offset (strides shape) index < shape.prod := by
  induction h with
  | nil => exact Nat.one_pos
  | @cons k n index shape hk _ ih =>
      have hle : (k + 1) * shape.prod ≤ n * shape.prod := Nat.mul_le_mul_right _ hk
      rw [Nat.add_one_mul] at hle
      rw [strides, offset, List.prod_cons]
      omega

/-- The last index of a box. -/
def last (extents : List ℕ) : List ℕ := extents.map (· - 1)

theorem le_last {extents index : List ℕ} (h : List.Forall₂ (· < ·) index extents) :
    List.Forall₂ (· ≤ ·) index (last extents) := by
  unfold last
  rw [List.forall₂_map_right_iff]
  exact h.imp fun _ _ hlt => Nat.le_sub_one_of_lt hlt

theorem last_lt {extents : List ℕ} (hpos : ∀ n ∈ extents, 0 < n) :
    List.Forall₂ (· < ·) (last extents) extents := by
  unfold last
  rw [List.forall₂_map_left_iff, List.forall₂_same]
  exact fun n hn => Nat.sub_one_lt_of_lt (hpos n hn)

theorem forall_offset_lt_iff {extents strides : List ℕ} (hpos : ∀ n ∈ extents, 0 < n) (bound : ℕ) :
    (∀ index, List.Forall₂ (· < ·) index extents → offset strides index < bound) ↔
      offset strides (last extents) < bound := by
  constructor
  · intro h
    exact h (last extents) (last_lt hpos)
  · intro h index hindex
    exact lt_of_le_of_lt (offset_mono strides (le_last hindex)) h

end RowMajor
