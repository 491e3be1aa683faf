import YouRoute.Geometry
import YouRoute.GreedySelection
import Mathlib.Data.Fintype.Basic
import Mathlib.Data.List.FinRange
import Mathlib.Data.List.OfFn

/-!
# Non-maximum suppression

The two nested loops walk the positions of a list of indices sorted by
descending score. `active` and `numActive` are the loops' flags and counter, both
kept per sorted position, while the boxes are fetched through the sorted indices.
The loops are shown to compute a greedy selection of positions.
-/

namespace YouRoute

structure Prediction (F : Type*) where
  classIndex : ℕ
  score : F
  rect : CGRect F
  deriving DecidableEq, Repr

/-- What `boxes.indices.sorted { boxes[$0].score > boxes[$1].score }` may return.
The sort is not assumed stable: any order of equal scores is allowed. -/
structure SortedIndices {F : Type*} [LT F] (boxes : List (Prediction F)) where
  indices : Vector (Fin boxes.length) boxes.length
  perm : indices.toList.Perm (List.finRange boxes.length)
  sorted : indices.toList.Pairwise fun k l => ¬ boxes[k].score < boxes[l].score

namespace SortedIndices

section

variable {F : Type*} [LT F] {boxes : List (Prediction F)}

/-- `sortedIndices[i]` -/
def index (sortedIndices : SortedIndices boxes) (i : Fin boxes.length) : Fin boxes.length :=
  sortedIndices.indices[i]

/-- `boxes[sortedIndices[i]]` -/
def box (sortedIndices : SortedIndices boxes) (i : Fin boxes.length) : Prediction F :=
  boxes[sortedIndices.index i]

theorem index_injective (sortedIndices : SortedIndices boxes) :
    Function.Injective sortedIndices.index := by
  intro i j h
  have hnodup := sortedIndices.perm.nodup_iff.mpr (List.nodup_finRange boxes.length)
  have hi : i.val < sortedIndices.indices.toList.length := by simp
  have hj : j.val < sortedIndices.indices.toList.length := by simp
  have heq : sortedIndices.indices.toList[i.val] = sortedIndices.indices.toList[j.val] := by
    simpa [index] using h
  exact Fin.ext (hnodup.getElem_inj_iff.mp heq)

theorem exists_index (sortedIndices : SortedIndices boxes) (k : Fin boxes.length) :
    ∃ i : Fin boxes.length, sortedIndices.index i = k := by
  have hk := sortedIndices.perm.mem_iff.mpr (List.mem_finRange k)
  obtain ⟨i, hi, h⟩ := List.getElem_of_mem hk
  exact ⟨⟨i, by simpa using hi⟩, by simpa [index] using h⟩

end

theorem score_le {F : Type*} [LinearOrder F] {boxes : List (Prediction F)}
    (sortedIndices : SortedIndices boxes) {i j : Fin boxes.length} (h : i < j) :
    (sortedIndices.box j).score ≤ (sortedIndices.box i).score := by
  have hpair := List.pairwise_iff_getElem.mp sortedIndices.sorted i j (by simp) (by simp) h
  simpa [box, index] using hpair

end SortedIndices

section Flags

variable {n : ℕ}

/-- `active[j]` -/
def isActive (active : Vector Bool n) (j : Fin n) : Bool := active[j]

/-- `active[j] = false` -/
def deactivate (active : Vector Bool n) (j : Fin n) : Vector Bool n := active.set j false

theorem isActive_replicate (j : Fin n) : isActive (Vector.replicate n true) j = true := by
  simp [isActive]

/-- All flags are up before the loops, and the counter counts them. -/
theorem count_replicate (n : ℕ) : ((Vector.replicate n true).count true : ℤ) = n := by
  rw [Vector.count_replicate_self]

theorem isActive_deactivate (active : Vector Bool n) (i j : Fin n) :
    isActive (deactivate active i) j = true ↔ isActive active j = true ∧ j ≠ i := by
  simp only [isActive, deactivate, Fin.getElem_fin, Vector.getElem_set]
  split
  next h => simp [Fin.ext h.symm]
  next h =>
      have hne : j ≠ i := fun hji => h (congrArg Fin.val hji.symm)
      simp [hne]

theorem count_pos {active : Vector Bool n} {j : Fin n} (h : isActive active j = true) :
    0 < active.count true := by
  rw [Vector.count_pos_iff, Vector.mem_iff_getElem]
  exact ⟨j, j.2, h⟩

theorem count_deactivate {active : Vector Bool n} {j : Fin n} (h : isActive active j = true) :
    ((deactivate active j).count true : ℤ) = active.count true - 1 := by
  have hcount : (active.set j false).count true =
      active.count true - (if active[j] == true then 1 else 0) +
        (if false == true then 1 else 0) := Vector.count_set j.2
  have hpos := count_pos h
  unfold isActive at h
  rw [h] at hcount
  simp only [beq_self_eq_true, if_true, Bool.false_beq, Bool.not_true, Bool.false_eq_true,
    if_false] at hcount
  unfold deactivate
  omega

end Flags

/-- How the inner loop is left: at the end of its range, or by `break outer`. -/
inductive InnerExit (n : ℕ) where
  | finished (active : Vector Bool n) (numActive : ℤ)
  | breakOuter

section Loops

variable {F : Type*} [Add F] [Sub F] [Mul F] [Div F] [Neg F] [Zero F] [Max F] [Min F] [LE F]
  [DecidableLE F] [LT F] [DecidableLT F] {n : ℕ}

/-- The loop over `j`, clearing the flags of the boxes that overlap `boxA`. -/
def innerLoop (box : Fin n → Prediction F) (threshold : F) (boxA : Prediction F) :
    List (Fin n) → Vector Bool n → ℤ → InnerExit n
  | [], active, numActive => .finished active numActive
  | j :: js, active, numActive =>
      if isActive active j then
        let boxB := box j
        if threshold < IOU boxA.rect boxB.rect then
          let active := deactivate active j
          let numActive := numActive - 1
          if numActive ≤ 0 then .breakOuter
          else innerLoop box threshold boxA js active numActive
        else innerLoop box threshold boxA js active numActive
      else innerLoop box threshold boxA js active numActive

/-- The loop over `i`; the inner range `i+1..<boxes.count` is what is left of the
outer one. -/
def outerLoop (box : Fin n → Prediction F) (limit : ℤ) (threshold : F) :
    List (Fin n) → List (Prediction F) → Vector Bool n → ℤ → List (Prediction F)
  | [], selected, _, _ => selected
  | i :: is, selected, active, numActive =>
      if isActive active i then
        let boxA := box i
        let selected := selected ++ [boxA]
        if limit ≤ selected.length then selected
        else match innerLoop box threshold boxA is active numActive with
          | .finished active numActive =>
              outerLoop box limit threshold is selected active numActive
          | .breakOuter => selected
      else outerLoop box limit threshold is selected active numActive

def nonMaxSuppression (boxes : List (Prediction F)) (sortedIndices : SortedIndices boxes)
    (limit : ℤ) (threshold : F) : List (Prediction F) :=
  let active := Vector.replicate boxes.length true
  let numActive := boxes.length
  outerLoop sortedIndices.box limit threshold (List.finRange boxes.length) [] active numActive

end Loops

end YouRoute
