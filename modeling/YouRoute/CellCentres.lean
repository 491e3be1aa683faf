import YouRoute.Decoder
import Mathlib.Analysis.SpecialFunctions.Sigmoid

/-!
# Where in a cell a detection is placed

Over the real numbers, a cell of a level is a square whose side is the input
width divided by the number of cells in a row. The decoder scales the cell's
index by that side but adds the sigmoid offset before it divides by the level's
scale only, so a decoded centre lies in the corner of its cell that is one
thirty-second of the side wide and high.
-/

namespace YouRoute.CellCentres

/-- The centre of the standardised rectangle. -/
noncomputable def centre (r : CGRect ℝ) : ℝ × ℝ :=
  (r.minX + r.width / 2, r.minY + r.height / 2)

/-- Side of a cell in pixels. -/
noncomputable def cellSide (i : Fin 3) : ℝ := (inputWidth : ℝ) / (gridWidth i : ℝ)

theorem cellSide_eq (i : Fin 3) : cellSide i = 32 / 2 ^ i.val := by
  fin_cases i <;> norm_num [cellSide, inputWidth, gridWidth]

theorem cellSide_pos (i : Fin 3) : 0 < cellSide i := by
  rw [cellSide_eq]
  positivity

theorem sigmoid_eq (x : ℝ) : sigmoid Real.exp x = Real.sigmoid x := by
  rw [sigmoid, Real.sigmoid_def, one_div]

theorem slotRect_centre (i : Fin 3) (cx cy : ℕ) (b : Fin 3) (v : SlotValues ℝ) :
    centre (slotRect Real.exp i cx cy b v) =
      (cx * cellSide i + v.tx.sigmoid / 2 ^ i.val, cy * cellSide i + v.ty.sigmoid / 2 ^ i.val) := by
  have hsize := slotRect_size_pos Real.exp_pos i cx cy b v
  have hw : (slotRect Real.exp i cx cy b v).minX + (slotRect Real.exp i cx cy b v).width / 2 =
      (cx * blockSize + sigmoid Real.exp v.tx) / 2 ^ i.val := by
    unfold CGRect.minX CGRect.width
    rw [min_eq_left (by linarith [hsize.1]), max_eq_left (by linarith [hsize.1])]
    simp only [slotRect]
    ring
  have hh : (slotRect Real.exp i cx cy b v).minY + (slotRect Real.exp i cx cy b v).height / 2 =
      (cy * blockSize + sigmoid Real.exp v.ty) / 2 ^ i.val := by
    unfold CGRect.minY CGRect.height
    rw [min_eq_left (by linarith [hsize.2]), max_eq_left (by linarith [hsize.2])]
    simp only [slotRect]
    ring
  rw [centre, hw, hh, sigmoid_eq, sigmoid_eq, cellSide_eq, blockSize]
  push_cast
  rw [Prod.mk.injEq]
  constructor <;> ring

/-- The centre a detection of the cell should have. -/
noncomputable def cellCentre (i : Fin 3) (cx cy : ℕ) (v : SlotValues ℝ) : ℝ × ℝ :=
  ((cx + sigmoid Real.exp v.tx) * cellSide i, (cy + sigmoid Real.exp v.ty) * cellSide i)

theorem offset_ne (i : Fin 3) (c : ℕ) (t : ℝ) :
    c * cellSide i + t.sigmoid / 2 ^ i.val ≠ (c + sigmoid Real.exp t) * cellSide i := by
  have hpos := div_pos (Real.sigmoid_pos t) (pow_pos (two_pos (α := ℝ)) i.val)
  rw [sigmoid_eq, cellSide_eq, add_mul, ne_eq, add_right_inj]
  intro h
  have h32 : t.sigmoid * (32 / 2 ^ i.val) = 32 * (t.sigmoid / 2 ^ i.val) := by ring
  linarith

/-- The decoded centres along one axis of a cell: the first thirty-second of it. -/
theorem offset_range (i : Fin 3) (c : ℕ) (p : ℝ) :
    (∃ t : ℝ, c * cellSide i + t.sigmoid / 2 ^ i.val = p) ↔
      c * cellSide i < p ∧ p < c * cellSide i + cellSide i / 32 := by
  have hscale : (0 : ℝ) < 2 ^ i.val := by positivity
  have hside : cellSide i / 32 = 1 / 2 ^ i.val := by
    rw [cellSide_eq]
    ring
  rw [hside]
  constructor
  · intro h
    obtain ⟨t, rfl⟩ := h
    have hpos := div_pos (Real.sigmoid_pos t) hscale
    have hlt := div_lt_div_of_pos_right (Real.sigmoid_lt_one t) hscale
    constructor <;> linarith
  · intro h
    have hmem : (p - c * cellSide i) * 2 ^ i.val ∈ Set.Ioo (0 : ℝ) 1 := by
      refine ⟨mul_pos (by linarith [h.1]) hscale, ?_⟩
      rw [← lt_div_iff₀ hscale]
      linarith [h.2]
    rw [← Real.range_sigmoid] at hmem
    obtain ⟨t, ht⟩ := hmem
    refine ⟨t, ?_⟩
    rw [ht, mul_div_assoc, div_self hscale.ne']
    ring

theorem not_offset_middle (i : Fin 3) (c : ℕ) (t : ℝ) :
    c * cellSide i + t.sigmoid / 2 ^ i.val ≠ cellSide i / 2 := by
  intro h
  have hpos := cellSide_pos i
  obtain ⟨hlow, hhigh⟩ := (offset_range i c _).mp ⟨t, h⟩
  rcases Nat.eq_zero_or_pos c with hc | hc
  · rw [hc] at hhigh
    norm_num at hhigh
    linarith
  · have hone : (1 : ℝ) ≤ c := by exact_mod_cast hc
    nlinarith

/-- The middle of the first cell is inside the image and on no cell boundary, and
is decoded from no cell. -/
theorem middle_not_decoded (i : Fin 3) : ∃ p : ℝ × ℝ,
    (0 < p.1 ∧ p.1 < inputWidth ∧ 0 < p.2 ∧ p.2 < inputHeight) ∧
    (∀ k : ℕ, p.1 ≠ k * cellSide i ∧ p.2 ≠ k * cellSide i) ∧
    ∀ (cx cy : ℕ) (b : Fin 3) (v : SlotValues ℝ),
      centre (slotRect Real.exp i cx cy b v) ≠ p := by
  have hpos := cellSide_pos i
  have hle : cellSide i ≤ 32 := by
    rw [cellSide_eq]
    exact div_le_self (by norm_num) (one_le_pow₀ (by norm_num))
  have hmiddle : ∀ k : ℕ, cellSide i / 2 ≠ k * cellSide i := by
    intro k h
    have h2 : cellSide i * 1 = cellSide i * (2 * k) := by linarith
    have hk : (1 : ℝ) = 2 * k := mul_left_cancel₀ hpos.ne' h2
    have hk' : 1 = 2 * k := by exact_mod_cast hk
    omega
  refine ⟨(cellSide i / 2, cellSide i / 2), ?_, fun k => ⟨hmiddle k, hmiddle k⟩, ?_⟩
  · have hwidth : (inputWidth : ℝ) = 416 := by norm_num [inputWidth]
    have hheight : (inputHeight : ℝ) = 416 := by norm_num [inputHeight]
    rw [hwidth, hheight]
    exact ⟨by linarith, by linarith, by linarith, by linarith⟩
  · intro cx cy b v h
    rw [slotRect_centre] at h
    exact not_offset_middle i cx v.tx (congrArg Prod.fst h)

theorem centre_range (i : Fin 3) (cx cy : ℕ) (b : Fin 3) (p : ℝ × ℝ) :
    (∃ v, centre (slotRect Real.exp i cx cy b v) = p) ↔
      (cx * cellSide i < p.1 ∧ p.1 < cx * cellSide i + cellSide i / 32) ∧
      (cy * cellSide i < p.2 ∧ p.2 < cy * cellSide i + cellSide i / 32) := by
  rw [← offset_range i cx p.1, ← offset_range i cy p.2]
  constructor
  · intro h
    obtain ⟨v, hv⟩ := h
    rw [slotRect_centre] at hv
    exact ⟨⟨v.tx, congrArg Prod.fst hv⟩, ⟨v.ty, congrArg Prod.snd hv⟩⟩
  · intro h
    obtain ⟨⟨tx, hx⟩, ⟨ty, hy⟩⟩ := h
    refine ⟨⟨tx, ty, 0, 0, 0, []⟩, ?_⟩
    rw [slotRect_centre]
    exact Prod.ext hx hy

/-- No input is decoded to the centre its cell and offset name. At every level
some point of the image is decoded from no cell, as the centres of a cell fill
just its corner. -/
theorem cell_placement_never (i : Fin 3) (cx cy : ℕ) (b : Fin 3) (v : SlotValues ℝ) :
    ((centre (slotRect Real.exp i cx cy b v)).1 ≠ (cellCentre i cx cy v).1 ∧
      (centre (slotRect Real.exp i cx cy b v)).2 ≠ (cellCentre i cx cy v).2) ∧
    (∃ p : ℝ × ℝ,
      (0 < p.1 ∧ p.1 < inputWidth ∧ 0 < p.2 ∧ p.2 < inputHeight) ∧
      (∀ k : ℕ, p.1 ≠ k * cellSide i ∧ p.2 ≠ k * cellSide i) ∧
      ∀ (cx' cy' : ℕ) (b' : Fin 3) (v' : SlotValues ℝ),
        centre (slotRect Real.exp i cx' cy' b' v') ≠ p) ∧
    ∀ p : ℝ × ℝ, (∃ v', centre (slotRect Real.exp i cx cy b v') = p) ↔
      (cx * cellSide i < p.1 ∧ p.1 < cx * cellSide i + cellSide i / 32) ∧
      (cy * cellSide i < p.2 ∧ p.2 < cy * cellSide i + cellSide i / 32) := by
  have hoffset : (centre (slotRect Real.exp i cx cy b v)).1 ≠ (cellCentre i cx cy v).1 ∧
      (centre (slotRect Real.exp i cx cy b v)).2 ≠ (cellCentre i cx cy v).2 := by
    rw [slotRect_centre]
    exact ⟨offset_ne i cx v.tx, offset_ne i cy v.ty⟩
  exact ⟨hoffset, middle_not_decoded i, centre_range i cx cy b⟩

/-- The raw values of a slot that are all zero. -/
def zeroValues : SlotValues ℝ := ⟨0, 0, 0, 0, 0, List.replicate 80 0⟩

/-- The first slot of the coarsest level places the middle of its cell at the
cell's corner. -/
theorem first_cell_misplaced :
    centre (slotRect Real.exp 0 0 0 0 zeroValues) = (1 / 2, 1 / 2) ∧
      cellCentre 0 0 0 zeroValues = (16, 16) ∧
      centre (slotRect Real.exp 0 0 0 0 zeroValues) ≠ cellCentre 0 0 0 zeroValues := by
  have hdecoded : centre (slotRect Real.exp 0 0 0 0 zeroValues) = (1 / 2, 1 / 2) := by
    rw [slotRect_centre]
    norm_num [zeroValues]
  have hnamed : cellCentre 0 0 0 zeroValues = (16, 16) := by
    norm_num [cellCentre, zeroValues, sigmoid_eq, cellSide_eq]
  refine ⟨hdecoded, hnamed, ?_⟩
  rw [hdecoded, hnamed]
  norm_num

end YouRoute.CellCentres
