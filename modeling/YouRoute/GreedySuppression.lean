import YouRoute.NonMaxSuppression
import Mathlib.Tactic.Linarith

/-!
# Suppression is greedy selection

The loops are compared with `GreedySelection.select` over the sorted positions,
where a taken position conflicts with a later one whose box it overlaps by more
than the threshold. Between two steps of the outer loop a flag is up exactly when
no taken box overlaps the box at its position, and the counter is the number of
flags that are up. The box just taken keeps its own flag, so the counter stays
positive and the inner loop never leaves the outer one.
-/

namespace YouRoute.GreedySuppression
open GreedySelection

section Loops

variable {F : Type*} [Add F] [Sub F] [Mul F] [Div F] [Neg F] [Zero F] [Max F] [Min F] [LE F]
  [DecidableLE F] [LT F] [DecidableLT F] {n : ℕ}

/-- The later box is suppressed by the taken one. -/
def Overlaps (box : Fin n → Prediction F) (threshold : F) (i j : Fin n) : Prop :=
  threshold < IOU (box i).rect (box j).rect

instance (box : Fin n → Prediction F) (threshold : F) : DecidableRel (Overlaps box threshold) :=
  fun i j => inferInstanceAs (Decidable (threshold < IOU (box i).rect (box j).rect))

/-- While the flag of another position is up, clearing one leaves the counter above
zero and equal to the number of flags that are up. -/
theorem innerLoop_clear (box : Fin n → Prediction F) (threshold : F) (i j : Fin n)
    (js : List (Fin n)) (active : Vector Bool n) (hi : isActive active i = true) (hne : i ≠ j)
    (hup : isActive active j = true) (hover : Overlaps box threshold i j) :
    innerLoop box threshold (box i) (j :: js) active (active.count true) =
      innerLoop box threshold (box i) js (deactivate active j)
        ((deactivate active j).count true) := by
  have hpos := count_pos ((isActive_deactivate active j i).mpr ⟨hi, hne⟩)
  have hnum := count_deactivate hup
  have hleave : ¬ (active.count true : ℤ) - 1 ≤ 0 := by omega
  unfold Overlaps at hover
  simp only [innerLoop, hup, hover, hleave, hnum, if_true, if_false]

theorem innerLoop_keep (box : Fin n → Prediction F) (threshold : F) (i j : Fin n)
    (js : List (Fin n)) (active : Vector Bool n) (numActive : ℤ)
    (h : ¬ (isActive active j = true ∧ Overlaps box threshold i j)) :
    innerLoop box threshold (box i) (j :: js) active numActive =
      innerLoop box threshold (box i) js active numActive := by
  unfold Overlaps at h
  by_cases hup : isActive active j = true
  · have hover : ¬ threshold < IOU (box i).rect (box j).rect := fun hover => h ⟨hup, hover⟩
    simp only [innerLoop, hup, hover, if_true, if_false]
  · rw [innerLoop, if_neg hup]

/-- The inner loop ends at the end of its range as long as some flag outside the
range is up, which the one of the box just taken is. -/
theorem innerLoop_spec (box : Fin n → Prediction F) (threshold : F) (i : Fin n)
    (js : List (Fin n)) (active : Vector Bool n) (hi : isActive active i = true) (hjs : i ∉ js) :
    ∃ active' : Vector Bool n,
      innerLoop box threshold (box i) js active (active.count true) =
        .finished active' (active'.count true) ∧
      ∀ j, isActive active' j = true ↔
        isActive active j = true ∧ (j ∈ js → ¬ Overlaps box threshold i j) := by
  induction js generalizing active with
  | nil => exact ⟨active, rfl, by simp⟩
  | cons k js ih =>
      have hne : i ≠ k := fun h => hjs (h ▸ List.mem_cons_self)
      have htail : i ∉ js := fun h => hjs (List.mem_cons_of_mem k h)
      by_cases hk : isActive active k = true ∧ Overlaps box threshold i k
      · have hi' : isActive (deactivate active k) i = true :=
          (isActive_deactivate active k i).mpr ⟨hi, hne⟩
        obtain ⟨active', hloop, hflags⟩ := ih (deactivate active k) hi' htail
        refine ⟨active', ?_, ?_⟩
        · rw [innerLoop_clear box threshold i k js active hi hne hk.1 hk.2]
          exact hloop
        · intro j
          rw [hflags j, isActive_deactivate]
          constructor
          · intro h
            refine ⟨h.1.1, fun hj => ?_⟩
            rcases List.mem_cons.mp hj with hj | hj
            · exact absurd hj h.1.2
            · exact h.2 hj
          · intro h
            refine ⟨⟨h.1, fun hj => ?_⟩, fun hj => h.2 (List.mem_cons_of_mem k hj)⟩
            exact h.2 (hj ▸ List.mem_cons_self) (hj ▸ hk.2)
      · obtain ⟨active', hloop, hflags⟩ := ih active hi htail
        refine ⟨active', ?_, ?_⟩
        · rw [innerLoop_keep box threshold i k js active _ hk]
          exact hloop
        · intro j
          rw [hflags j]
          constructor
          · intro h
            refine ⟨h.1, fun hj => ?_⟩
            rcases List.mem_cons.mp hj with hj | hj
            · exact fun hover => hk ⟨hj ▸ h.1, hj ▸ hover⟩
            · exact h.2 hj
          · intro h
            exact ⟨h.1, fun hj => h.2 (List.mem_cons_of_mem k hj)⟩

/-- What holds between two steps of the outer loop, `taken` being the positions
of the boxes selected so far and `is` those still to come. -/
structure Invariant (box : Fin n → Prediction F) (threshold : F) (limit : ℕ)
    (taken is : List (Fin n)) (active : Vector Bool n) : Prop where
  room : taken.length < limit
  active_iff : ∀ j ∈ is, isActive active j = true ↔ ∀ t ∈ taken, ¬ Overlaps box threshold t j

omit [DecidableLT F] in
theorem Invariant.admits_iff {box : Fin n → Prediction F} {threshold : F} {limit : ℕ}
    {taken is : List (Fin n)} {i : Fin n} {active : Vector Bool n}
    (h : Invariant box threshold limit taken (i :: is) active) :
    Admits (Overlaps box threshold) limit taken i ↔ isActive active i = true := by
  rw [h.active_iff i List.mem_cons_self]
  exact ⟨fun ha => ha.2, fun ha => ⟨h.room, ha⟩⟩

/-- The code checks its limit after it took a box, so it takes one box even at a
limit below one. -/
def boxLimit (limit : ℤ) : ℕ := (max 1 limit).toNat

theorem boxLimit_le_iff (limit : ℤ) (m : ℕ) : boxLimit limit ≤ m + 1 ↔ limit ≤ (m + 1 : ℕ) := by
  unfold boxLimit
  omega

theorem outerLoop_eq_walk (box : Fin n → Prediction F) (limit : ℤ) (threshold : F)
    (is : List (Fin n)) (his : is.Nodup) (taken : List (Fin n)) (active : Vector Bool n)
    (h : Invariant box threshold (boxLimit limit) taken is active) :
    outerLoop box limit threshold is (taken.map box) active (active.count true) =
      (walk (Overlaps box threshold) (boxLimit limit) taken is).map box := by
  induction is generalizing taken active with
  | nil => rfl
  | cons i is ih =>
      obtain ⟨hi, htail⟩ := List.nodup_cons.mp his
      rw [walk, outerLoop]
      by_cases hup : isActive active i = true
      · rw [if_pos (h.admits_iff.mpr hup), if_pos hup]
        have hselected : taken.map box ++ [box i] = (taken ++ [i]).map box := by simp
        simp only [hselected, List.length_map]
        by_cases hfull : limit ≤ ((taken ++ [i]).length : ℤ)
        · have hlen : boxLimit limit ≤ (taken ++ [i]).length := by
            simpa using (boxLimit_le_iff limit taken.length).mpr (by simpa using hfull)
          rw [if_pos hfull, walk_full _ _ hlen]
        · obtain ⟨active', hloop, hflags⟩ := innerLoop_spec box threshold i is active hup hi
          rw [if_neg hfull]
          simp only [hloop]
          refine ih htail (taken ++ [i]) active' ⟨?_, ?_⟩
          · have hnot := (boxLimit_le_iff limit taken.length).not.mpr (by simpa using hfull)
            simpa using Nat.lt_of_not_le hnot
          · intro j hj
            rw [hflags j, h.active_iff j (List.mem_cons_of_mem i hj)]
            simp only [List.mem_append, List.mem_singleton]
            constructor
            · intro hall t ht
              rcases ht with ht | ht
              · exact hall.1 t ht
              · exact ht ▸ hall.2 hj
            · intro hall
              exact ⟨fun t ht => hall t (Or.inl ht), fun _ => hall i (Or.inr rfl)⟩
      · have hnot := h.admits_iff.not.mpr hup
        rw [if_neg hnot, if_neg hup]
        exact ih htail taken active
          ⟨h.room, fun j hj => h.active_iff j (List.mem_cons_of_mem i hj)⟩

/-- The sorted positions of the boxes the code returns, in their order. -/
def takenPositions {boxes : List (Prediction F)} (sortedIndices : SortedIndices boxes)
    (limit : ℕ) (threshold : F) : List (Fin boxes.length) :=
  select (Overlaps sortedIndices.box threshold) limit (List.finRange boxes.length)

theorem nonMaxSuppression_eq_select (boxes : List (Prediction F))
    (sortedIndices : SortedIndices boxes) (limit : ℤ) (threshold : F) :
    nonMaxSuppression boxes sortedIndices limit threshold =
      (takenPositions sortedIndices (boxLimit limit) threshold).map sortedIndices.box := by
  unfold nonMaxSuppression
  simp only [← count_replicate boxes.length]
  apply outerLoop_eq_walk sortedIndices.box limit threshold _ (List.nodup_finRange _) []
  refine ⟨?_, ?_⟩
  · unfold boxLimit
    simp
  · intro j _
    simp [isActive_replicate]

end Loops

theorem finRange_split {n : ℕ} (i : Fin n) :
    ∃ pre post, List.finRange n = pre ++ i :: post ∧
      (∀ j ∈ pre, j < i) ∧ (∀ j ∈ post, i < j) := by
  obtain ⟨pre, post, h⟩ := List.append_of_mem (List.mem_finRange i)
  have hlt := List.pairwise_append.mp (h ▸ List.pairwise_lt_finRange n)
  exact ⟨pre, post, h, fun j hj => hlt.2.2 j hj i List.mem_cons_self,
    (List.pairwise_cons.mp hlt.2.1).1⟩

section Exact

variable {F : Type*} [Field F] [LinearOrder F]

/-- The sorted positions a greedy walk takes: a position is taken exactly when
fewer than `limit` positions were taken before it and its box overlaps none of
theirs by more than the threshold. -/
structure IsGreedy {n : ℕ} (box : Fin n → Prediction F) (limit : ℤ) (threshold : F)
    (taken : List (Fin n)) : Prop where
  increasing : taken.Pairwise (· < ·)
  mem_iff : ∀ i, i ∈ taken ↔ ((taken.filter (· < i)).length : ℤ) < limit ∧
    ∀ t ∈ taken, t < i → IOU (box t).rect (box i).rect ≤ threshold

variable {boxes : List (Prediction F)} (sortedIndices : SortedIndices boxes) (threshold : F)

theorem takenPositions_isGreedy (limit : ℕ) :
    IsGreedy sortedIndices.box limit threshold
      (takenPositions sortedIndices limit threshold) := by
  refine ⟨(List.pairwise_lt_finRange _).sublist (select_sublist _ _ _), ?_⟩
  intro i
  obtain ⟨pre, post, hsplit, hpre, hpost⟩ := finRange_split i
  have hnodup := hsplit ▸ List.nodup_finRange boxes.length
  have hbefore := filter_select (Overlaps sortedIndices.box threshold) limit pre post i
    (fun j => j < i) (by simpa using hpre) (by simp)
    (fun j hj => by simpa using (hpost j hj).le)
  unfold takenPositions
  rw [hsplit, mem_select_iff _ _ hnodup, hbefore, Admits, ← hbefore, Nat.cast_lt]
  simp only [List.mem_filter, decide_eq_true_eq, Overlaps, not_lt, and_imp]

theorem length_le_of_boxLimit {limit : ℤ} (hlimit : 1 ≤ limit) :
    ((takenPositions sortedIndices (boxLimit limit) threshold).length : ℤ) ≤ limit := by
  have h := select_length_le (Overlaps sortedIndices.box threshold) (boxLimit limit)
    (List.finRange boxes.length)
  unfold boxLimit at h
  unfold takenPositions boxLimit
  omega

/-- A box left out by a selection below its limit overlaps a kept box before it. -/
theorem IsGreedy.left_out {n : ℕ} {box : Fin n → Prediction F} {limit : ℤ} {threshold : F}
    {taken : List (Fin n)} (h : IsGreedy box limit threshold taken)
    (hroom : (taken.length : ℤ) < limit) {i : Fin n} (hi : i ∉ taken) :
    ∃ t ∈ taken, t < i ∧ threshold < IOU (box t).rect (box i).rect := by
  have hfew : ((taken.filter (· < i)).length : ℤ) < limit := by
    have hle := List.length_filter_le (· < i) taken
    omega
  by_contra hnone
  apply hi
  refine (h.mem_iff i).mpr ⟨hfew, ?_⟩
  intro t ht hlt
  exact not_lt.mp fun hover => hnone ⟨t, ht, hlt, hover⟩

theorem IsGreedy.overlap_le {n : ℕ} {box : Fin n → Prediction F} {limit : ℤ} {threshold : F}
    {taken : List (Fin n)} (h : IsGreedy box limit threshold taken) {i j : Fin n}
    (hi : i ∈ taken) (hj : j ∈ taken) (hne : i ≠ j) :
    IOU (box i).rect (box j).rect ≤ threshold := by
  rcases lt_or_gt_of_ne hne with hlt | hlt
  · exact ((h.mem_iff j).mp hj).2 i hi hlt
  · rw [IOU_comm]
    exact ((h.mem_iff i).mp hi).2 j hj hlt

theorem nonMaxSuppression_greedy (limit : ℤ) (hlimit : 1 ≤ limit) :
    ∃ taken : List (Fin boxes.length),
      nonMaxSuppression boxes sortedIndices limit threshold = taken.map sortedIndices.box ∧
      IsGreedy sortedIndices.box limit threshold taken ∧
      (taken.map fun i => sortedIndices.index i).Nodup ∧
      (nonMaxSuppression boxes sortedIndices limit threshold).Pairwise
        (fun p q => q.score ≤ p.score) ∧
      ((nonMaxSuppression boxes sortedIndices limit threshold).length : ℤ) ≤ limit ∧
      (∀ i ∈ taken, ∀ j ∈ taken, i ≠ j →
        IOU (sortedIndices.box i).rect (sortedIndices.box j).rect ≤ threshold) ∧
      (((nonMaxSuppression boxes sortedIndices limit threshold).length : ℤ) < limit →
        ∀ k : Fin boxes.length, k ∉ (taken.map fun i => sortedIndices.index i) →
          ∃ t ∈ taken, threshold < IOU (sortedIndices.box t).rect boxes[k].rect ∧
            boxes[k].score ≤ (sortedIndices.box t).score) := by
  have hresult := nonMaxSuppression_eq_select boxes sortedIndices limit threshold
  have hgreedy := takenPositions_isGreedy sortedIndices threshold (boxLimit limit)
  have hcast : ((boxLimit limit : ℕ) : ℤ) = limit := by
    unfold boxLimit
    omega
  rw [hcast] at hgreedy
  refine ⟨takenPositions sortedIndices (boxLimit limit) threshold, hresult, hgreedy,
    ?_, ?_, ?_, ?_, ?_⟩
  · exact List.Nodup.map sortedIndices.index_injective (hgreedy.increasing.imp ne_of_lt)
  · rw [hresult, List.pairwise_map]
    exact hgreedy.increasing.imp sortedIndices.score_le
  · rw [hresult, List.length_map]
    exact length_le_of_boxLimit sortedIndices threshold hlimit
  · intro i hi j hj hne
    exact hgreedy.overlap_le hi hj hne
  · rw [hresult, List.length_map]
    intro hroom k hk
    obtain ⟨i, rfl⟩ := sortedIndices.exists_index k
    have hi : i ∉ takenPositions sortedIndices (boxLimit limit) threshold := fun hi =>
      hk (List.mem_map.mpr ⟨i, hi, rfl⟩)
    obtain ⟨t, ht, hlt, hover⟩ := hgreedy.left_out hroom hi
    exact ⟨t, ht, hover, sortedIndices.score_le hlt⟩

end Exact

/-- Two boxes that share most of their area and one apart from them. -/
def crowd : List (Prediction ℚ) :=
  [⟨0, 7 / 10, ⟨⟨0, 0⟩, ⟨10, 10⟩⟩⟩, ⟨0, 9 / 10, ⟨⟨1, 0⟩, ⟨10, 10⟩⟩⟩,
    ⟨1, 4 / 5, ⟨⟨30, 30⟩, ⟨10, 10⟩⟩⟩]

def crowdOrder : SortedIndices crowd where
  indices := #v[⟨1, by decide⟩, ⟨2, by decide⟩, ⟨0, by decide⟩]
  perm := by decide
  sorted := by decide +kernel

theorem nonMaxSuppression_greedy_crowd :
    ∃ taken : List (Fin crowd.length),
      nonMaxSuppression crowd crowdOrder 10 (2 / 5) = taken.map crowdOrder.box ∧
      IsGreedy crowdOrder.box 10 (2 / 5) taken := by
  obtain ⟨taken, hresult, hgreedy, _⟩ :=
    nonMaxSuppression_greedy crowdOrder (2 / 5) 10 (by decide)
  exact ⟨taken, hresult, hgreedy⟩

example : (nonMaxSuppression crowd crowdOrder 10 (2 / 5)).map (·.score) = [9 / 10, 4 / 5] := by
  decide +kernel

end YouRoute.GreedySuppression
