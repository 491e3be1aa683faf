import YouRoute.GreedySuppression
import YouRoute.StoryLabels
import YouRoute.TensorLayout
import Mathlib.Analysis.SpecialFunctions.Exp

/-!
# From feature arrays to labels

What the decoder guarantees of each prediction, and that the number of
predictions kept, the number of overlays and the number of labels agree, so that
`show` labels every prediction. The decoder's part is stated over any ordered
field with a positive exponential and then read over the real numbers.
-/

namespace YouRoute.DetectionSafety
open GreedySuppression TensorLayout StoryController

section Suppressed

variable {F : Type*} [Add F] [Sub F] [Mul F] [Div F] [Neg F] [Zero F] [Max F] [Min F] [LE F]
  [DecidableLE F] [LT F] [DecidableLT F]

theorem mem_of_mem_nonMaxSuppression {boxes : List (Prediction F)}
    {sortedIndices : SortedIndices boxes} {limit : ℤ} {threshold : F} {p : Prediction F}
    (h : p ∈ nonMaxSuppression boxes sortedIndices limit threshold) : p ∈ boxes := by
  rw [nonMaxSuppression_eq_select] at h
  obtain ⟨i, _, rfl⟩ := List.mem_map.mp h
  exact List.getElem_mem _

theorem nonMaxSuppression_length_le (boxes : List (Prediction F))
    (sortedIndices : SortedIndices boxes) (limit : ℤ) (threshold : F) :
    (nonMaxSuppression boxes sortedIndices limit threshold).length ≤ boxLimit limit := by
  rw [nonMaxSuppression_eq_select, List.length_map]
  exact GreedySelection.select_length_le _ _ _

end Suppressed

/-- A score above the threshold and below one, a rectangle with an area and a
class that has a label. -/
structure IsSound {F : Type*} [Field F] [LinearOrder F] (p : Prediction F) : Prop where
  score_gt : 0.6 < p.score
  score_lt : p.score < 1
  width_pos : 0 < p.rect.width
  height_pos : 0 < p.rect.height
  class_lt : p.classIndex < labels.length

section Exact

variable {F : Type*} [Field F] [LinearOrder F] [IsStrictOrderedRing F] {exp : F → F}

theorem detection_isSound (hexp : ∀ x, 0 < exp x) {T : Tensors F} {s : Slot} {p : Prediction F}
    (h : detection exp T s = some p) : IsSound p := by
  simp only [detection, Option.bind_eq_some_iff] at h
  obtain ⟨best, hbest, hp⟩ := h
  split at hp
  next hscore =>
      cases hp
      have hmax := argmax_isFirstMax hbest
      have hprob := mem_softmax hexp hmax.mem
      have hconfidence := sigmoid_lt_one hexp (T s.level (85 * s.b.val + 4) s.cy s.cx)
      have hpos := sigmoid_pos hexp (T s.level (85 * s.b.val + 4) s.cy s.cx)
      have hsize := slotRect_size_pos hexp s.level s.cx s.cy s.b (slotValues T s)
      have hclass := hmax.lt_length
      rw [length_softmax] at hclass
      refine ⟨hscore, ?_, lt_max_of_lt_left hsize.1, lt_max_of_lt_left hsize.2, ?_⟩
      · calc best.2 * sigmoid exp (T s.level (85 * s.b.val + 4) s.cy s.cx)
            ≤ 1 * sigmoid exp (T s.level (85 * s.b.val + 4) s.cy s.cx) :=
              mul_le_mul_of_nonneg_right hprob.2 hpos.le
          _ < 1 := by rwa [one_mul]
      · simpa [slotValues, numClasses] using hclass
  next => simp at hp

theorem candidates_isSound (hexp : ∀ x, 0 < exp x) (features : Features F) :
    ∃ boxes, candidates exp features = some boxes ∧ ∀ p ∈ boxes, IsSound p := by
  refine ⟨_, candidates_eq exp features, ?_⟩
  intro p hp
  obtain ⟨s, _, hs⟩ := List.mem_filterMap.mp hp
  exact detection_isSound hexp hs

/-- Neither rectangle has a zero area, so the overlap is the quotient. -/
theorem IsSound.area_pos {p : Prediction F} (h : IsSound p) :
    0 < p.rect.width * p.rect.height :=
  mul_pos h.width_pos h.height_pos

end Exact

/-- Every prediction has an overlay and every overlay's prediction a label, so
the loop of `show` adds the labels of all predictions. -/
theorem showPredictions_labels {F : Type*} (order : Finset String → List String)
    {predictions : List (Prediction F)} (hclass : ∀ p ∈ predictions, p.classIndex < labels.length)
    {c : StoryController} (hlength : predictions.length ≤ c.boundingBoxes.length) :
    ∃ c', showPredictions order predictions c = some c' ∧
      c'.labelArray = c.labelArray ∪ (predictions.filterMap labelOf).toFinset := by
  obtain ⟨c', hshow, hset, _⟩ := showPredictions_spec order hclass hlength
  exact ⟨c', hshow, hset⟩

theorem length_setUpBoundingBoxes (c : StoryController) :
    c.setUpBoundingBoxes.boundingBoxes.length =
      c.boundingBoxes.length + maxBoundingBoxes.toNat := by
  have hloop : ∀ m, ((List.range m).foldl (fun (c : StoryController) _ =>
      { c with boundingBoxes := c.boundingBoxes ++ [{}] }) c).boundingBoxes.length =
        c.boundingBoxes.length + m := by
    intro m
    induction m with
    | zero => rfl
    | succ m ih =>
        rw [List.range_succ, List.foldl_append]
        simp only [List.foldl_cons, List.foldl_nil, List.length_append, List.length_singleton, ih]
        omega
  exact hloop _

theorem labelArray_setUpBoundingBoxes (c : StoryController) :
    c.setUpBoundingBoxes.labelArray = c.labelArray := by
  unfold setUpBoundingBoxes
  generalize List.range maxBoundingBoxes.toNat = rounds
  induction rounds generalizing c with
  | nil => rfl
  | cons round rounds ih => exact ih _

/-- Over the real numbers, the detector returns sound predictions only, at most
as many as there are overlays, and `show` then labels every one of them. -/
theorem detection_end_to_end (sort : (boxes : List (Prediction ℝ)) → SortedIndices boxes)
    (features : Features ℝ) (order : Finset String → List String) (c : StoryController) :
    ∃ boxes predictions, candidates Real.exp features = some boxes ∧
      computeBoundingBoxes Real.exp sort features = some predictions ∧
      (∀ p ∈ boxes, ¬ p.rect.width * p.rect.height ≤ 0) ∧
      (∀ p ∈ predictions, 0.6 < p.score ∧ p.score < 1 ∧ 0 < p.rect.width ∧
        0 < p.rect.height ∧ p.classIndex < labels.length) ∧
      predictions.length ≤ c.setUpBoundingBoxes.boundingBoxes.length ∧
      ∃ c', showPredictions order predictions c.setUpBoundingBoxes = some c' ∧
        c'.labelArray = c.labelArray ∪ (predictions.filterMap labelOf).toFinset ∧
        ∀ p ∈ predictions, ∃ label, labels[p.classIndex]? = some label ∧
          label ∈ c'.labelArray := by
  obtain ⟨boxes, hboxes, hsound⟩ := candidates_isSound Real.exp_pos features
  have hpredictions : ∀ p ∈ nonMaxSuppression boxes (sort boxes) maxBoundingBoxes iouThreshold,
      IsSound p := fun p hp => hsound p (mem_of_mem_nonMaxSuppression hp)
  have hlength : (nonMaxSuppression boxes (sort boxes) maxBoundingBoxes iouThreshold).length ≤
      c.setUpBoundingBoxes.boundingBoxes.length := by
    rw [length_setUpBoundingBoxes]
    exact (nonMaxSuppression_length_le _ _ _ _).trans (Nat.le_add_left _ _)
  obtain ⟨c', hshow, hset⟩ :=
    showPredictions_labels order (fun p hp => (hpredictions p hp).class_lt) hlength
  rw [labelArray_setUpBoundingBoxes] at hset
  refine ⟨boxes, _, hboxes, by simp only [computeBoundingBoxes, hboxes]; rfl,
    fun p hp => not_le.mpr (hsound p hp).area_pos, ?_, hlength, c', hshow, hset, ?_⟩
  · intro p hp
    have h := hpredictions p hp
    exact ⟨h.score_gt, h.score_lt, h.width_pos, h.height_pos, h.class_lt⟩
  · intro p hp
    have hlabel := List.getElem?_eq_getElem (hpredictions p hp).class_lt
    refine ⟨_, hlabel, ?_⟩
    rw [hset, Finset.mem_union, List.mem_toFinset, List.mem_filterMap]
    exact Or.inr ⟨p, hp, by simp only [labelOf, hlabel]; rfl⟩

end YouRoute.DetectionSafety
