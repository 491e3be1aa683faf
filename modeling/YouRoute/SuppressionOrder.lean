import YouRoute.GreedySuppression

/-!
# Suppression in terms of the sorted boxes

The positions that the loops work with are forgotten: what is returned is a
greedy selection from the boxes in sorted order. So the listing order matters
only through ties between scores, and the limit ends the walk without changing
it before, down to a limit of one: the code takes a box before it looks at the
limit.
-/

namespace YouRoute.SuppressionOrder
open GreedySelection GreedySuppression

section Sorted

variable {F : Type*} [LT F] {boxes : List (Prediction F)}

/-- The boxes in the order in which the outer loop meets them. -/
def sortedBoxes (sortedIndices : SortedIndices boxes) : List (Prediction F) :=
  (List.finRange boxes.length).map sortedIndices.box

theorem map_index (sortedIndices : SortedIndices boxes) :
    (List.finRange boxes.length).map sortedIndices.index = sortedIndices.indices.toList := by
  apply List.ext_getElem
  · simp
  · intro i hi hi'
    simp [SortedIndices.index]

theorem sortedBoxes_perm (sortedIndices : SortedIndices boxes) :
    (sortedBoxes sortedIndices).Perm boxes := by
  have hfetch : sortedBoxes sortedIndices = sortedIndices.indices.toList.map boxes.get := by
    rw [← map_index, List.map_map]
    rfl
  have hperm := sortedIndices.perm.map boxes.get
  rw [List.map_get_finRange] at hperm
  rwa [hfetch]

theorem length_sortedBoxes (sortedIndices : SortedIndices boxes) :
    (sortedBoxes sortedIndices).length = boxes.length :=
  (sortedBoxes_perm sortedIndices).length_eq

end Sorted

section Loops

variable {F : Type*} [Add F] [Sub F] [Mul F] [Div F] [Neg F] [Zero F] [Max F] [Min F] [LE F]
  [DecidableLE F] [LT F] [DecidableLT F]

/-- A taken box suppresses another one. -/
def Suppresses (threshold : F) (p q : Prediction F) : Prop := threshold < IOU p.rect q.rect

instance (threshold : F) : DecidableRel (Suppresses threshold) :=
  fun p q => inferInstanceAs (Decidable (threshold < IOU p.rect q.rect))

theorem nonMaxSuppression_eq_select_boxes (boxes : List (Prediction F))
    (sortedIndices : SortedIndices boxes) (limit : ℤ) (threshold : F) :
    nonMaxSuppression boxes sortedIndices limit threshold =
      select (Suppresses threshold) (boxLimit limit) (sortedBoxes sortedIndices) := by
  rw [nonMaxSuppression_eq_select]
  exact (select_map (Suppresses threshold) _ (fun _ _ => Iff.rfl) _).symm

theorem boxLimit_natCast (k : ℕ) : boxLimit k = max 1 k := by
  unfold boxLimit
  omega

theorem boxLimit_mono {k l : ℕ} (h : k ≤ l) : boxLimit k ≤ boxLimit l := by
  rw [boxLimit_natCast, boxLimit_natCast]
  omega

/-- Some box is returned whenever there is one, whatever the limit is. -/
theorem nonMaxSuppression_ne_nil {boxes : List (Prediction F)}
    (sortedIndices : SortedIndices boxes) (limit : ℤ) (threshold : F) (h : boxes ≠ []) :
    nonMaxSuppression boxes sortedIndices limit threshold ≠ [] := by
  have hlimit : 0 < boxLimit limit := by
    unfold boxLimit
    omega
  have hsorted : sortedBoxes sortedIndices ≠ [] := by
    rw [← List.length_pos_iff_ne_nil, length_sortedBoxes, List.length_pos_iff_ne_nil]
    exact h
  rw [nonMaxSuppression_eq_select_boxes]
  exact select_ne_nil (Suppresses threshold) _ hlimit hsorted

/-- The smaller of two limits truncates what the larger one returns, exactly when
it is positive or there are no boxes. -/
theorem limit_truncates_iff (boxes : List (Prediction F)) (sortedIndices : SortedIndices boxes)
    (threshold : F) (k l : ℕ) (hkl : k ≤ l) :
    ((nonMaxSuppression boxes sortedIndices k threshold).length ≤ k ∧
      nonMaxSuppression boxes sortedIndices k threshold =
        (nonMaxSuppression boxes sortedIndices l threshold).take
          (min k (nonMaxSuppression boxes sortedIndices l threshold).length)) ↔
      1 ≤ k ∨ boxes = [] := by
  constructor
  · intro h
    by_contra hnot
    obtain ⟨hk, hboxes⟩ := not_or.mp hnot
    have hne := nonMaxSuppression_ne_nil sortedIndices k threshold hboxes
    have hpos := List.length_pos_iff_ne_nil.mpr hne
    omega
  · intro h
    rcases h with hk | hboxes
    · have htruncate := select_take (Suppresses threshold) (boxLimit_mono hkl)
        (sortedBoxes sortedIndices)
      have hlimit : boxLimit k = k := by
        rw [boxLimit_natCast]
        omega
      rw [← nonMaxSuppression_eq_select_boxes, ← nonMaxSuppression_eq_select_boxes, hlimit]
        at htruncate
      rw [htruncate]
      constructor
      · exact List.length_take_le _ _
      · rw [List.take_eq_take_iff]
        omega
    · subst hboxes
      have hnone : ∀ limit, nonMaxSuppression [] sortedIndices limit threshold = [] :=
        fun _ => rfl
      simp [hnone]

end Loops

theorem limit_truncates_crowd :
    nonMaxSuppression crowd crowdOrder 1 (2 / 5) =
      (nonMaxSuppression crowd crowdOrder 10 (2 / 5)).take
        (min 1 (nonMaxSuppression crowd crowdOrder 10 (2 / 5)).length) :=
  ((limit_truncates_iff crowd crowdOrder (2 / 5) 1 10 (by decide)).mpr (Or.inl (by decide))).2

/-- A limit of zero still returns the best box. -/
theorem limit_zero_returns_one :
    (nonMaxSuppression crowd crowdOrder 0 (2 / 5)).length = 1 ∧
      ¬ ((nonMaxSuppression crowd crowdOrder 0 (2 / 5)).length ≤ 0 ∧
        nonMaxSuppression crowd crowdOrder 0 (2 / 5) =
          (nonMaxSuppression crowd crowdOrder 10 (2 / 5)).take
            (min 0 (nonMaxSuppression crowd crowdOrder 10 (2 / 5)).length)) := by
  have hone : (nonMaxSuppression crowd crowdOrder 0 (2 / 5)).length = 1 := by decide +kernel
  refine ⟨hone, ?_⟩
  intro h
  omega

section Order

variable {F : Type*} [LinearOrder F] {boxes : List (Prediction F)}

theorem sortedBoxes_pairwise (sortedIndices : SortedIndices boxes) :
    (sortedBoxes sortedIndices).Pairwise fun p q => q.score ≤ p.score := by
  rw [sortedBoxes, List.pairwise_map]
  exact (List.pairwise_lt_finRange _).imp sortedIndices.score_le

/-- With distinct scores there is one sorted order. -/
theorem sortedBoxes_eq {boxes' : List (Prediction F)} (hperm : boxes.Perm boxes')
    (hscores : (boxes.map (·.score)).Nodup) (sortedIndices : SortedIndices boxes)
    (sortedIndices' : SortedIndices boxes') :
    sortedBoxes sortedIndices = sortedBoxes sortedIndices' := by
  have hsame := ((sortedBoxes_perm sortedIndices).trans hperm).trans
    (sortedBoxes_perm sortedIndices').symm
  apply List.Perm.eq_of_pairwise _ (sortedBoxes_pairwise sortedIndices)
    (sortedBoxes_pairwise sortedIndices') hsame
  intro p q hp hq hqp hpq
  have hp' := (sortedBoxes_perm sortedIndices).mem_iff.mp hp
  have hq' := hperm.mem_iff.mpr ((sortedBoxes_perm sortedIndices').mem_iff.mp hq)
  exact List.inj_on_of_nodup_map hscores hp' hq' (le_antisymm hpq hqp)

variable [Add F] [Sub F] [Mul F] [Div F] [Neg F] [Zero F]

theorem listing_order_irrelevant {boxes' : List (Prediction F)} (hperm : boxes.Perm boxes')
    (hscores : (boxes.map (·.score)).Nodup) (sortedIndices : SortedIndices boxes)
    (sortedIndices' : SortedIndices boxes') (limit : ℤ) (threshold : F) :
    nonMaxSuppression boxes sortedIndices limit threshold =
      nonMaxSuppression boxes' sortedIndices' limit threshold := by
  rw [nonMaxSuppression_eq_select_boxes, nonMaxSuppression_eq_select_boxes,
    sortedBoxes_eq hperm hscores sortedIndices sortedIndices']

end Order

/-- The crowd with its first two boxes exchanged. -/
def crowd' : List (Prediction ℚ) :=
  [⟨0, 9 / 10, ⟨⟨1, 0⟩, ⟨10, 10⟩⟩⟩, ⟨0, 7 / 10, ⟨⟨0, 0⟩, ⟨10, 10⟩⟩⟩,
    ⟨1, 4 / 5, ⟨⟨30, 30⟩, ⟨10, 10⟩⟩⟩]

def crowdOrder' : SortedIndices crowd' where
  indices := #v[⟨0, by decide⟩, ⟨2, by decide⟩, ⟨1, by decide⟩]
  perm := by decide
  sorted := by decide +kernel

theorem listing_order_irrelevant_crowd :
    nonMaxSuppression crowd crowdOrder 10 (2 / 5) =
      nonMaxSuppression crowd' crowdOrder' 10 (2 / 5) :=
  listing_order_irrelevant (List.Perm.swap _ _ _) (by decide +kernel) crowdOrder crowdOrder' 10
    (2 / 5)

end YouRoute.SuppressionOrder
