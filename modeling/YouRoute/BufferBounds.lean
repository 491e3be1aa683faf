import YouRoute.RowMajor
import YouRoute.TensorLayout
import Mathlib.Tactic.Ring

/-!
# Raw reads and the size checks

The assertions of `computeBoundingBoxes` compare element counts, which are products
of extents, while its reads go through the first three strides with extents of their
own: 255 channels and a square grid of cells. Whether these reads stay in a densely
packed buffer depends on how its count factors into a shape.
-/

namespace YouRoute.BufferBounds
open TensorLayout

/-- Three densely packed arrays that pass the assertions. -/
structure DenseFeatures (F : Type*) extends Features F where
  dense : ∀ i, (level i).strides = (RowMajor.strides (level i).shape).map Nat.cast

/-- The channels, rows and columns that are read of a level. -/
def readExtents (i : Fin 3) : List ℕ := [255, gridHeight i, gridWidth i]

theorem readExtents_pos (i : Fin 3) : ∀ n ∈ readExtents i, 0 < n := by
  revert i
  decide

section

variable {F : Type*}

/-- The indices that a slot passes to `featurePointer`. -/
def readIndices (features : Features F) (s : Slot) : List ℤ :=
  (slotReads s).map fun (channel, y, x) =>
    (Registers.load (features.level s.level)).offset channel x y

/-- Every raw read of a run is one of an element of its array. -/
def ReadsInside (features : Features F) : Prop :=
  ∀ s ∈ slots, ∀ k ∈ readIndices features s, 0 ≤ k ∧ k < (features.level s.level).count

/-- The loops, with a note of the level and the index of each raw read, note just these
indices. -/
theorem readsInside_iff_noted [Add F] [Sub F] [Mul F] [Div F] [Neg F] [Zero F] [One F] [Max F]
    [LT F] [DecidableLT F] [NatCast F] [OfNat F 2] [OfScientific F] [Pow F ℕ] (exp : F → F)
    (features : Features F) :
    ∃ predictions reads, candidates exp features = some predictions ∧
      loops (notedSlot exp fun r i channel y x => (i, r.offset channel x y)) features ([], []) =
        some (predictions, reads) ∧
      (ReadsInside features ↔
        ∀ read ∈ reads, 0 ≤ read.2 ∧ read.2 < (features.level read.1).count) := by
  have hrun := loops_noted exp (fun r i channel y x => (i, r.offset channel x y)) features
  obtain ⟨predictions, hpredictions⟩ : ∃ predictions, candidates exp features = some predictions :=
    ⟨_, candidates_eq exp features⟩
  rw [hpredictions, Option.map_some] at hrun
  refine ⟨predictions, _, hpredictions, hrun, ?_⟩
  simp only [ReadsInside, readIndices, slotNotes, List.mem_flatMap, List.mem_map]
  constructor
  · rintro h _ ⟨s, hs, element, helement, rfl⟩
    exact h s hs _ ⟨element, helement, rfl⟩
  · rintro h s hs _ ⟨element, helement, rfl⟩
    exact h _ ⟨s, hs, element, helement, rfl⟩

/-- A dense array with three dimensions or more has three leading extents. -/
theorem shape_eq (array : MLMultiArray F)
    (hdense : array.strides = (RowMajor.strides array.shape).map Nat.cast) :
    ∃ d₀ d₁ d₂ rest, array.shape = d₀ :: d₁ :: d₂ :: rest := by
  have hthree := array.three_le
  rw [hdense, List.length_map] at hthree
  match array.shape, hthree with
  | d₀ :: d₁ :: d₂ :: rest, _ => exact ⟨d₀, d₁, d₂, rest, rfl⟩

theorem offset_load (array : MLMultiArray F)
    (hdense : array.strides = (RowMajor.strides array.shape).map Nat.cast) (channel x y : ℕ) :
    (Registers.load array).offset channel x y =
      (RowMajor.offset (RowMajor.strides array.shape) [channel, y, x] : ℕ) := by
  obtain ⟨d₀, d₁, d₂, rest, hshape⟩ := shape_eq array hdense
  obtain ⟨shape, strides, dataPointer, hthree⟩ := array
  simp only at hshape hdense
  subst hdense hshape
  simp only [Registers.load, Registers.offset, MLMultiArray.stride, RowMajor.strides,
    RowMajor.offset, RowMajor.offset_nil, List.map_cons, Fin.val_zero, Fin.val_one, Fin.val_two,
    List.getElem_cons_zero, List.getElem_cons_succ]
  push_cast
  ring

/-- The reads of a run go through all indices of the extents of each level. -/
theorem readsInside_iff (features : DenseFeatures F) :
    ReadsInside features.toFeatures ↔ ∀ i, ∀ index,
      List.Forall₂ (· < ·) index (readExtents i) →
        RowMajor.offset (RowMajor.strides (features.level i).shape) index <
          (features.level i).count := by
  constructor
  · intro h i index hindex
    match index, hindex with
    | [channel, y, x], .cons hchannel (.cons hy (.cons hx .nil)) =>
        obtain ⟨s, ⟨hs, rfl, hread⟩, _⟩ := exists_unique_slot i hchannel hy hx
        have hk := (h s hs _ (List.mem_map.mpr ⟨_, hread, rfl⟩)).2
        simp only [offset_load _ (features.dense s.level)] at hk
        exact_mod_cast hk
  · intro h s hs k hk
    obtain ⟨⟨channel, y, x⟩, hread, rfl⟩ := List.mem_map.mp hk
    obtain ⟨hlow, hhigh, hy, hx⟩ := mem_slotReads.mp hread
    obtain ⟨hcy, hcx⟩ := mem_slots.mp hs
    have hb : s.b.val < 3 := s.b.isLt
    have hchannel : channel < 255 := by omega
    have hindex := h s.level [channel, y, x]
      (.cons hchannel (.cons (hy ▸ hcy) (.cons (hx ▸ hcx) .nil)))
    simp only [offset_load _ (features.dense s.level)]
    exact ⟨Int.natCast_nonneg _, by exact_mod_cast hindex⟩

/-- In arrays of the shapes that the assertions spell out, a read is at an index of
the shape. -/
theorem readsInside_of_shape (features : DenseFeatures F)
    (hshape : ∀ i, (features.level i).shape = readExtents i) :
    ReadsInside features.toFeatures := by
  rw [readsInside_iff]
  intro i index hindex
  rw [MLMultiArray.count, hshape i]
  exact RowMajor.offset_lt_prod hindex

end

def extent (shape : List ℕ) (k : ℕ) : ℕ := shape.getD k 1

/-- The last row and column that are read fit in what the first extent leaves after
the 255 channels but the last. -/
def Roomy (i : Fin 3) (shape : List ℕ) : Prop :=
  (gridHeight i - 1) * extent shape 2 + (gridWidth i - 1) <
    (extent shape 0 - 254) * (extent shape 1 * extent shape 2)

instance (i : Fin 3) (shape : List ℕ) : Decidable (Roomy i shape) :=
  inferInstanceAs (Decidable (_ < _))

theorem add_lt_iff (channels cells d₀ plane volume : ℕ) (hvolume : 0 < volume) :
    channels * (plane * volume) + cells * volume < d₀ * (plane * volume) ↔
      cells < (d₀ - channels) * plane := by
  have hleft : channels * (plane * volume) + cells * volume =
      (channels * plane + cells) * volume := by ring
  have hright : d₀ * (plane * volume) = d₀ * plane * volume := by ring
  rw [hleft, hright, Nat.mul_lt_mul_right hvolume, Nat.sub_mul]
  omega

theorem last_lt_iff {F : Type*} (features : DenseFeatures F) (i : Fin 3) :
    RowMajor.offset (RowMajor.strides (features.level i).shape) (RowMajor.last (readExtents i)) <
      (features.level i).count ↔ Roomy i (features.level i).shape := by
  obtain ⟨d₀, d₁, d₂, rest, hshape⟩ := shape_eq (features.level i) (features.dense i)
  have hcount := features.count_eq i
  have hpos : 0 < rest.prod := by
    apply Nat.pos_of_ne_zero
    intro hzero
    have hlevel : ∀ j, 0 < 255 * gridHeight j * gridWidth j := by decide
    rw [MLMultiArray.count, hshape] at hcount
    simp only [List.prod_cons, hzero, Nat.mul_zero] at hcount
    exact absurd hcount (hlevel i).ne
  have hroom := add_lt_iff 254 ((gridHeight i - 1) * d₂ + (gridWidth i - 1)) d₀ (d₁ * d₂)
    rest.prod hpos
  rw [MLMultiArray.count, hshape]
  simp only [readExtents, RowMajor.last, RowMajor.strides, RowMajor.offset, RowMajor.offset_nil,
    List.map_cons, List.map_nil, List.prod_cons, Roomy, extent, List.getD_cons_zero,
    List.getD_cons_succ]
  rw [← hroom]
  apply iff_of_eq
  congr 1 <;> ring

/-- The reads of three densely packed arrays that pass the assertions stay inside
exactly when each shape leaves room after its first 254 channels. -/
theorem reads_inside_iff_roomy {F : Type*} (features : DenseFeatures F) :
    ReadsInside features.toFeatures ↔ ∀ i, Roomy i (features.level i).shape := by
  rw [readsInside_iff]
  apply forall_congr'
  intro i
  rw [RowMajor.forall_offset_lt_iff (readExtents_pos i), last_lt_iff]

example : Roomy 0 [255, 13, 13] ∧ ¬ Roomy 0 [1, 255, 13, 13] := by decide

/-- The layout of a model exported with its channels last. -/
def channelsLast : DenseFeatures ℚ where
  level i :=
    { shape := [gridHeight i, gridWidth i, 255]
      strides := [gridWidth i * 255, 255, 1]
      dataPointer := fun _ => 0
      three_le := le_rfl }
  count_eq := by decide
  dense := by decide

theorem channels_last_read_outside : ¬ ReadsInside channelsLast.toFeatures := by
  intro h
  have hs : (⟨0, 0, 0, 2⟩ : Slot) ∈ slots := mem_slots.mpr (by decide)
  have hread : (254, 0, 0) ∈ slotReads ⟨0, 0, 0, 2⟩ := mem_slotReads.mpr (by decide)
  have hk := (h _ hs _ (List.mem_map.mpr ⟨_, hread, rfl⟩)).2
  revert hk
  decide

end YouRoute.BufferBounds
