import YouRoute.TensorLayout
import Mathlib.Algebra.BigOperators.Ring.List
import Mathlib.Analysis.SpecialFunctions.Exp
import Mathlib.Logic.Equiv.Fin.Basic

/-!
# Which class a detection gets

Softmax maps the logits through one strictly increasing function, so the first
largest probability is at the first largest logit. The probabilities sum to one
and an accepted slot has one above a half; no other can be as large. So the class
of an accepted slot is decided by the logits alone, and not by the order in which
`argmax` looks at them.
-/

namespace YouRoute.ClassScores
open TensorLayout

section Maximum

variable {F : Type*} [LinearOrder F]

/-- The element at `k` is larger than all others. -/
def IsStrictMax (xs : List F) (k : ℕ) : Prop :=
  ∃ m, xs[k]? = some m ∧ ∀ j x, j ≠ k → xs[j]? = some x → x < m

theorem IsStrictMax.unique {xs : List F} {k l : ℕ} (hk : IsStrictMax xs k)
    (hl : IsStrictMax xs l) : k = l := by
  obtain ⟨m, hm, hltm⟩ := hk
  obtain ⟨n, hn, hltn⟩ := hl
  by_contra hne
  exact lt_asymm (hltm l n (Ne.symm hne) hn) (hltn k m hne hm)

theorem isStrictMax_map {G : Type*} [LinearOrder G] {w : F → G} (hw : StrictMono w)
    {xs : List F} {k : ℕ} (h : IsStrictMax (xs.map w) k) : IsStrictMax xs k := by
  obtain ⟨m, hm, hlt⟩ := h
  rw [List.getElem?_map, Option.map_eq_some_iff] at hm
  obtain ⟨a, ha, rfl⟩ := hm
  refine ⟨a, ha, ?_⟩
  intro j x hj hx
  apply hw.lt_iff_lt.mp
  exact hlt j (w x) hj (by rw [List.getElem?_map, hx, Option.map_some])

theorem isFirstMax_map {G : Type*} [LinearOrder G] {w : F → G} (hw : StrictMono w)
    {xs : List F} {best : ℕ × G} (h : IsFirstMax (xs.map w) best) :
    ∃ m, IsFirstMax xs (best.1, m) := by
  have hget := h.get
  rw [List.getElem?_map, Option.map_eq_some_iff] at hget
  obtain ⟨a, ha, hbest⟩ := hget
  refine ⟨a, ha, ?_, ?_⟩
  · intro x hx
    apply hw.le_iff_le.mp
    rw [hbest]
    exact h.le (w x) (List.mem_map_of_mem hx)
  · intro j x hj hx
    apply hw.lt_iff_lt.mp
    rw [hbest]
    exact h.first j (w x) hj (by rw [List.getElem?_map, hx, Option.map_some])

/-- The value does not depend on the order of the elements. -/
theorem isFirstMax_perm {xs ys : List F} (hperm : xs.Perm ys) {best best' : ℕ × F}
    (h : IsFirstMax xs best) (h' : IsFirstMax ys best') : best.2 = best'.2 := by
  apply le_antisymm
  · exact h'.le _ (hperm.mem_iff.mp h.mem)
  · exact h.le _ (hperm.mem_iff.mpr h'.mem)

theorem vDSP_maxv_eq_iff [Zero F] {xs : List F} (hxs : xs ≠ []) {m : F} :
    vDSP_maxv xs = m ↔ m ∈ xs ∧ ∀ x ∈ xs, x ≤ m := by
  have hmax : xs.max? = some (vDSP_maxv xs) := by
    cases xs with
    | nil => exact absurd rfl hxs
    | cons x xs => rfl
  rw [← List.max?_eq_some_iff, hmax, Option.some.injEq]

theorem vDSP_maxv_perm [Zero F] {xs ys : List F} (hperm : xs.Perm ys) :
    vDSP_maxv xs = vDSP_maxv ys := by
  by_cases hys : ys = []
  · subst hys
    rw [hperm.eq_nil]
  · have hxs : xs ≠ [] := fun h => hys (h ▸ hperm).nil_eq.symm
    obtain ⟨hmem, hle⟩ := (vDSP_maxv_eq_iff hys).mp rfl
    rw [vDSP_maxv_eq_iff hxs]
    exact ⟨hperm.mem_iff.mpr hmem, fun x hx => hle x (hperm.mem_iff.mp hx)⟩

end Maximum

section Weights

variable {F : Type*} [Field F] [LinearOrder F] [IsStrictOrderedRing F]

/-- Of numbers that are not negative, no two make more than the sum. -/
theorem add_le_sum {xs : List F} (hpos : ∀ x ∈ xs, 0 ≤ x) {i j : ℕ} {p q : F} (hne : i ≠ j)
    (hi : xs[i]? = some p) (hj : xs[j]? = some q) : p + q ≤ xs.sum := by
  induction xs generalizing i j with
  | nil => simp at hi
  | cons x xs ih =>
      have htail : ∀ y ∈ xs, 0 ≤ y := fun y hy => hpos y (List.mem_cons_of_mem x hy)
      have hsum : ∀ y ∈ xs, y ≤ xs.sum := List.single_le_sum htail
      rw [List.sum_cons]
      cases i with
      | zero =>
          cases j with
          | zero => exact absurd rfl hne
          | succ j =>
              rw [List.getElem?_cons_zero, Option.some.injEq] at hi
              have hq := hsum q (List.mem_of_getElem? hj)
              linarith
      | succ i =>
          cases j with
          | zero =>
              rw [List.getElem?_cons_zero, Option.some.injEq] at hj
              have hp := hsum p (List.mem_of_getElem? hi)
              linarith
          | succ j =>
              have hx := hpos x List.mem_cons_self
              have hrest := ih htail (fun h => hne (congrArg Nat.succ h)) hi hj
              linarith

/-- A weight above a half has no equal. -/
theorem isStrictMax_of_half {xs : List F} (hpos : ∀ x ∈ xs, 0 ≤ x) (hsum : xs.sum = 1) {k : ℕ}
    {m : F} (hk : xs[k]? = some m) (hhalf : 1 / 2 < m) : IsStrictMax xs k := by
  refine ⟨m, hk, ?_⟩
  intro j x hj hx
  have hle := add_le_sum hpos (Ne.symm hj) hk hx
  linarith

variable {exp : F → F}

/-- The number that softmax puts in the place of `a`. -/
def weight (exp : F → F) (x : List F) (a : F) : F :=
  exp (a - vDSP_maxv x) / (x.map fun a => exp (a - vDSP_maxv x)).sum

omit [IsStrictOrderedRing F] in
theorem softmax_eq_map (x : List F) : softmax exp x = x.map (weight exp x) := by
  rw [softmax_eq, List.map_map]
  rfl

/-- The number that softmax divides by. -/
def divisor (exp : F → F) (x : List F) : F :=
  vDSP_sve ((x.map (· + -vDSP_maxv x)).map exp)

omit [IsStrictOrderedRing F] in
theorem divisor_eq (x : List F) :
    divisor exp x = (x.map fun a => exp (a - vDSP_maxv x)).sum := by
  rw [divisor, vDSP_sve_eq_sum, List.map_map]
  simp only [Function.comp_def, sub_eq_add_neg]

theorem divisor_pos (hexp : ∀ x, 0 < exp x) {x : List F} (hx : x ≠ []) : 0 < divisor exp x := by
  rw [divisor_eq]
  apply List.sum_pos
  · intro y hy
    obtain ⟨a, _, rfl⟩ := List.mem_map.mp hy
    exact hexp _
  · simpa using hx

theorem weight_strictMono (hexp : ∀ x, 0 < exp x) (hmono : StrictMono exp) {x : List F}
    (hx : x ≠ []) : StrictMono (weight exp x) := by
  have hpos := divisor_pos hexp hx
  rw [divisor_eq] at hpos
  intro a b hab
  apply div_lt_div_of_pos_right _ hpos
  apply hmono
  linarith

theorem sum_softmax (hexp : ∀ x, 0 < exp x) {x : List F} (hx : x ≠ []) :
    (softmax exp x).sum = 1 := by
  have hpos := divisor_pos hexp hx
  rw [divisor_eq] at hpos
  rw [softmax_eq]
  simp only [div_eq_mul_inv]
  rw [List.sum_map_mul_right, List.map_id', mul_inv_cancel₀ hpos.ne']

omit [IsStrictOrderedRing F] in
theorem weight_perm {x y : List F} (hperm : x.Perm y) : weight exp x = weight exp y := by
  funext a
  unfold weight
  rw [vDSP_maxv_perm hperm, (hperm.map _).sum_eq]

theorem vDSP_maxv_shift {x : List F} (hx : x ≠ []) (c : F) :
    vDSP_maxv (x.map (· + c)) = vDSP_maxv x + c := by
  obtain ⟨hmem, hle⟩ := (vDSP_maxv_eq_iff hx).mp rfl
  rw [vDSP_maxv_eq_iff (by simpa using hx)]
  refine ⟨List.mem_map_of_mem hmem, ?_⟩
  intro y hy
  obtain ⟨a, ha, rfl⟩ := List.mem_map.mp hy
  exact add_le_add_left (hle a ha) c

theorem softmax_shift (x : List F) (c : F) : softmax exp (x.map (· + c)) = softmax exp x := by
  by_cases hx : x = []
  · subst hx
    rfl
  · rw [softmax_eq, softmax_eq, vDSP_maxv_shift hx]
    simp only [List.map_map, Function.comp_def, add_sub_add_right_eq_sub]

theorem argmax_softmax (hexp : ∀ x, 0 < exp x) (hmono : StrictMono exp) {x : List F}
    (hx : x ≠ []) : ∃ best m, argmax (softmax exp x) = some best ∧ IsFirstMax x (best.1, m) := by
  have hne : x.map (weight exp x) ≠ [] := by simpa using hx
  rw [softmax_eq_map]
  obtain ⟨best, hbest⟩ := argmax_isSome hne
  obtain ⟨m, hm⟩ := isFirstMax_map (weight_strictMono hexp hmono hx) (argmax_isFirstMax hbest)
  exact ⟨best, m, hbest, hm⟩

end Weights

section Permuted

variable {F : Type*}

/-- Where the class of a channel is after the class channels were permuted. -/
def permuteClass (π : Equiv.Perm (Fin numClasses)) (c : ℕ) : ℕ :=
  if h : c < numClasses then (π ⟨c, h⟩).val else c

/-- The same prediction, of the permuted class. -/
def permutePrediction (π : Equiv.Perm (Fin numClasses)) (p : Prediction F) : Prediction F :=
  { p with classIndex := permuteClass π p.classIndex }

/-- In every slot, the class channels of `U` are those of `T` moved by `π`, and the
other channels are the same. -/
structure ClassesPermuted (π : Equiv.Perm (Fin numClasses)) (T U : Tensors F) : Prop where
  box : ∀ s ∈ slots, ∀ k < 5, U s.level (85 * s.b.val + k) s.cy s.cx =
    T s.level (85 * s.b.val + k) s.cy s.cx
  classes : ∀ s ∈ slots, ∀ c : Fin numClasses,
    U s.level (85 * s.b.val + 5 + (π c).val) s.cy s.cx =
      T s.level (85 * s.b.val + 5 + c.val) s.cy s.cx

theorem slotValues_classes (T : Tensors F) (s : Slot) : (slotValues T s).classes =
    (List.finRange numClasses).map fun c => T s.level (85 * s.b.val + 5 + c.val) s.cy s.cx := by
  have hrange : List.range 80 = (List.finRange numClasses).map Fin.val :=
    (List.map_coe_finRange_eq_range (n := 80)).symm
  simp only [slotValues, hrange, List.map_map, Function.comp_def]

theorem classes_getElem? (T : Tensors F) (s : Slot) {c : ℕ} {x : F} :
    (slotValues T s).classes[c]? = some x ↔
      ∃ k : Fin numClasses, k.val = c ∧ T s.level (85 * s.b.val + 5 + k.val) s.cy s.cx = x := by
  rw [slotValues_classes, List.getElem?_map, Option.map_eq_some_iff]
  simp only [List.getElem?_eq_some_iff, List.length_finRange, List.getElem_finRange]
  constructor
  · intro h
    obtain ⟨k, ⟨_, hk⟩, hx⟩ := h
    exact ⟨k, congrArg Fin.val hk.symm, hx⟩
  · intro h
    obtain ⟨k, rfl, hx⟩ := h
    exact ⟨k, ⟨k.2, rfl⟩, hx⟩

variable {π : Equiv.Perm (Fin numClasses)} {T U : Tensors F} {s : Slot}

theorem ClassesPermuted.perm (h : ClassesPermuted π T U) (hs : s ∈ slots) :
    (slotValues U s).classes.Perm (slotValues T s).classes := by
  have hmoved : (slotValues T s).classes = ((List.finRange numClasses).map π).map
      fun c => U s.level (85 * s.b.val + 5 + c.val) s.cy s.cx := by
    rw [slotValues_classes, List.map_map]
    apply List.map_congr_left
    intro c _
    exact (h.classes s hs c).symm
  rw [hmoved, slotValues_classes]
  exact (π.map_finRange_perm.map _).symm

theorem ClassesPermuted.isStrictMax [LinearOrder F] (h : ClassesPermuted π T U)
    (hs : s ∈ slots) {k : ℕ} (hk : IsStrictMax (slotValues T s).classes k) :
    IsStrictMax (slotValues U s).classes (permuteClass π k) := by
  obtain ⟨m, hm, hlt⟩ := hk
  obtain ⟨c, rfl, hc⟩ := (classes_getElem? T s).mp hm
  have hclass : permuteClass π c.val = (π c).val := dif_pos c.2
  rw [hclass]
  refine ⟨m, (classes_getElem? U s).mpr ⟨π c, rfl, (h.classes s hs c).trans hc⟩, ?_⟩
  intro j x hj hx
  obtain ⟨d, rfl, hd⟩ := (classes_getElem? U s).mp hx
  have hback := h.classes s hs (π.symm d)
  rw [Equiv.apply_symm_apply, hd] at hback
  apply hlt (π.symm d).val x _ ((classes_getElem? T s).mpr ⟨_, rfl, hback.symm⟩)
  intro heq
  apply hj
  rw [← Fin.ext heq, Equiv.apply_symm_apply]

theorem ClassesPermuted.tc_eq (h : ClassesPermuted π T U) (hs : s ∈ slots) :
    T s.level (85 * s.b.val + 4) s.cy s.cx = U s.level (85 * s.b.val + 4) s.cy s.cx :=
  (h.box s hs 4 (by decide)).symm

end Permuted

section Slots

variable {F : Type*} [Field F] [LinearOrder F] [IsStrictOrderedRing F] {exp : F → F}

/-- A probability that passes the threshold with a factor below one is above a
half. -/
theorem isStrictMax_of_accepted (hexp : ∀ x, 0 < exp x) (hmono : StrictMono exp) {x : List F}
    {best : ℕ × F} (hbest : argmax (softmax exp x) = some best) {t : F}
    (haccept : 0.6 < best.2 * sigmoid exp t) : IsStrictMax x best.1 := by
  have hmax := argmax_isFirstMax hbest
  have hx : x ≠ [] := by
    intro hnil
    subst hnil
    simp [softmax, argmax] at hbest
  have hhalf : 1 / 2 < best.2 := by
    have hlt := mul_lt_mul_of_pos_left (sigmoid_lt_one hexp t) (mem_softmax hexp hmax.mem).1
    norm_num at haccept
    linarith
  have hpos : ∀ p ∈ softmax exp x, 0 ≤ p := fun p hp => (mem_softmax hexp hp).1.le
  have hstrict := isStrictMax_of_half hpos (sum_softmax hexp hx) hmax.get hhalf
  rw [softmax_eq_map] at hstrict
  exact isStrictMax_map (weight_strictMono hexp hmono hx) hstrict

theorem decodeSlot_isStrictMax (hexp : ∀ x, 0 < exp x) (hmono : StrictMono exp) {i : Fin 3}
    {cx cy : ℕ} {b : Fin 3} {v : SlotValues F} {p : Prediction F}
    (h : decodeSlot exp i cx cy b v = some (some p)) : IsStrictMax v.classes p.classIndex := by
  simp only [decodeSlot, Option.bind_eq_bind, Option.bind_eq_some_iff] at h
  obtain ⟨best, hbest, hslot⟩ := h
  by_cases haccept : confidenceThreshold < best.2 * sigmoid exp v.tc
  · rw [if_pos haccept, Option.some.injEq, Option.some.injEq] at hslot
    rw [← hslot]
    exact isStrictMax_of_accepted hexp hmono hbest haccept
  · rw [if_neg haccept] at hslot
    simp at hslot

variable {π : Equiv.Perm (Fin numClasses)} {T U : Tensors F} {s : Slot}

omit [LinearOrder F] [IsStrictOrderedRing F] in
theorem ClassesPermuted.slotRect_eq (h : ClassesPermuted π T U) (hs : s ∈ slots) :
    slotRect exp s.level s.cx s.cy s.b (slotValues U s) =
      slotRect exp s.level s.cx s.cy s.b (slotValues T s) := by
  have hx := h.box s hs 0 (by decide)
  have hy := h.box s hs 1 (by decide)
  have hw := h.box s hs 2 (by decide)
  have hh := h.box s hs 3 (by decide)
  simp only [add_zero] at hx
  simp only [slotRect, slotValues, hx, hy, hw, hh]

theorem ClassesPermuted.detection_eq (hexp : ∀ x, 0 < exp x) (hmono : StrictMono exp)
    (h : ClassesPermuted π T U) (hs : s ∈ slots) :
    detection exp U s = (detection exp T s).map (permutePrediction π) := by
  have hne : ∀ V : Tensors F, softmax exp (slotValues V s).classes ≠ [] := by
    intro V
    rw [← List.length_pos_iff_ne_nil, length_softmax]
    simp [slotValues]
  obtain ⟨best, hbest⟩ := argmax_isSome (hne T)
  obtain ⟨best', hbest'⟩ := argmax_isSome (hne U)
  have hvalue : best'.2 = best.2 := by
    apply isFirstMax_perm _ (argmax_isFirstMax hbest') (argmax_isFirstMax hbest)
    rw [softmax_eq_map, softmax_eq_map, weight_perm (h.perm hs)]
    exact (h.perm hs).map _
  simp only [detection, hbest, hbest', Option.bind_some, hvalue, ← h.tc_eq hs, h.slotRect_eq hs]
  by_cases haccept : 0.6 < best.2 * sigmoid exp (T s.level (85 * s.b.val + 4) s.cy s.cx)
  · have hmax := h.isStrictMax hs (isStrictMax_of_accepted hexp hmono hbest haccept)
    rw [if_pos haccept, if_pos haccept]
    rw [← hvalue, h.tc_eq hs] at haccept
    have hclass := hmax.unique (isStrictMax_of_accepted hexp hmono hbest' haccept)
    simp only [Option.map_some, permutePrediction, hclass]
  · rw [if_neg haccept, if_neg haccept, Option.map_none]

theorem candidates_permuted (hexp : ∀ x, 0 < exp x) (hmono : StrictMono exp)
    {π : Equiv.Perm (Fin numClasses)} {features features' : Features F}
    (h : ClassesPermuted π (logical features) (logical features')) :
    candidates exp features' = (candidates exp features).map (List.map (permutePrediction π)) := by
  rw [candidates_eq, candidates_eq, Option.map_some, List.map_filterMap]
  congr 1
  apply List.filterMap_congr
  intro s hs
  exact h.detection_eq hexp hmono hs

end Slots

/-- The laws of softmax over the real numbers, and what they say of the classes of
accepted slots. -/
theorem class_is_strict_maximum :
    (∀ x : List ℝ, x ≠ [] →
      (softmax Real.exp x).length = x.length ∧
      (∀ p ∈ softmax Real.exp x, 0 < p ∧ p ≤ 1) ∧
      (softmax Real.exp x).sum = 1 ∧
      softmax Real.exp x =
        ((x.map (· + -vDSP_maxv x)).map Real.exp).map (· / divisor Real.exp x) ∧
      divisor Real.exp x ≠ 0 ∧
      (∃ w : ℝ → ℝ, StrictMono w ∧ softmax Real.exp x = x.map w) ∧
      (∀ c, softmax Real.exp (x.map (· + c)) = softmax Real.exp x) ∧
      ∃ best m, argmax (softmax Real.exp x) = some best ∧ IsFirstMax x (best.1, m)) ∧
    (∀ (i : Fin 3) (cx cy : ℕ) (b : Fin 3) (v : SlotValues ℝ) (p : Prediction ℝ),
      decodeSlot Real.exp i cx cy b v = some (some p) → IsStrictMax v.classes p.classIndex) ∧
    ∀ (π : Equiv.Perm (Fin numClasses)) (features features' : Features ℝ),
      ClassesPermuted π (logical features) (logical features') →
      candidates Real.exp features' =
        (candidates Real.exp features).map (List.map (permutePrediction π)) := by
  refine ⟨?_, ?_, ?_⟩
  · intro x hx
    refine ⟨length_softmax _ x, fun p hp => mem_softmax Real.exp_pos hp,
      sum_softmax Real.exp_pos hx, rfl, (divisor_pos Real.exp_pos hx).ne', ?_, softmax_shift x,
      argmax_softmax Real.exp_pos Real.exp_strictMono hx⟩
    exact ⟨weight Real.exp x, weight_strictMono Real.exp_pos Real.exp_strictMono hx,
      softmax_eq_map x⟩
  · intro i cx cy b v p h
    exact decodeSlot_isStrictMax Real.exp_pos Real.exp_strictMono h
  · intro π features features' h
    exact candidates_permuted Real.exp_pos Real.exp_strictMono h

/-- Feature arrays in which each slot has a large confidence and one large class logit. -/
def dominant (channel : ℕ) : Features ℝ where
  level i := {
    shape := [255, gridHeight i, gridWidth i]
    strides := [1, 0, 0]
    dataPointer := fun k => if k % 85 = channel ∨ k % 85 = 4 then 1000 else 0
    three_le := by decide }
  count_eq i := by fin_cases i <;> rfl

theorem dominant_element (channel k y x : ℕ) (i : Fin 3) :
    ((dominant channel).level i).element k y x =
      if k % 85 = channel ∨ k % 85 = 4 then 1000 else 0 := by
  have hcast : ((k : ℤ) % 85 = channel ∨ (k : ℤ) % 85 = 4) ↔ k % 85 = channel ∨ k % 85 = 4 := by
    omega
  simp [dominant, MLMultiArray.element, MLMultiArray.stride, hcast]

/-- One logit of a thousand among at most 80 leaves no doubt about the class. -/
theorem first_dominates {n : ℕ} (hn : n ≤ 79) {best : ℕ × ℝ}
    (h : argmax (softmax Real.exp (1000 :: List.replicate n 0)) = some best) :
    0.6 < best.2 * sigmoid Real.exp 1000 := by
  have hmax : vDSP_maxv (1000 :: List.replicate n (0 : ℝ)) = 1000 := by
    rw [vDSP_maxv_eq_iff (List.cons_ne_nil _ _)]
    refine ⟨List.mem_cons_self, ?_⟩
    intro x hx
    rcases List.mem_cons.mp hx with rfl | hx
    · exact le_rfl
    · rw [List.eq_of_mem_replicate hx]
      norm_num
  have hlarge : 1001 ≤ Real.exp 1000 := by
    have hexp := Real.add_one_le_exp (1000 : ℝ)
    linarith
  have hsmall : Real.exp (-1000) ≤ 1 / 1001 := by
    rw [Real.exp_neg, ← one_div]
    exact one_div_le_one_div_of_le (by norm_num) hlarge
  have hothers : n * Real.exp (-1000) ≤ 79 / 1001 := by
    have hcast : (n : ℝ) ≤ 79 := by exact_mod_cast hn
    have hmul := mul_le_mul hcast hsmall (Real.exp_pos _).le (by norm_num)
    linarith
  have hfirst : 1 / (1 + n * Real.exp (-1000)) ≤ best.2 := by
    apply (argmax_isFirstMax h).le
    rw [softmax_eq, hmax]
    simp
  have hbest : 1 / (1 + 79 / 1001) ≤ best.2 :=
    (one_div_le_one_div_of_le (by positivity) (by linarith)).trans hfirst
  have hsigmoid : 1 / (1 + 1 / 1001) ≤ sigmoid Real.exp 1000 :=
    one_div_le_one_div_of_le (by positivity) (by linarith)
  have hproduct := mul_le_mul hbest hsigmoid (by positivity) (le_trans (by positivity) hbest)
  norm_num at hproduct ⊢
  linarith

theorem dominant_classes (s : Slot) : (slotValues (logical (dominant 5)) s).classes =
    1000 :: List.replicate 79 0 := by
  have hrange : List.range 80 = 0 :: List.range' 1 79 := by decide
  rw [slotValues, hrange, List.map_cons]
  dsimp only [logical]
  rw [dominant_element, if_pos (by omega), List.cons.injEq]
  refine ⟨rfl, List.eq_replicate_iff.mpr ⟨by rw [List.length_map, List.length_range'], ?_⟩⟩
  intro x hx
  obtain ⟨c, hc, rfl⟩ := List.mem_map.mp hx
  rw [List.mem_range'_1] at hc
  rw [dominant_element, if_neg (by omega)]

/-- Every slot of these arrays is accepted. -/
theorem dominant_accepted (s : Slot) : ∃ p, decodeSlot Real.exp s.level s.cx s.cy s.b
    (slotValues (logical (dominant 5)) s) = some (some p) := by
  have htc : (slotValues (logical (dominant 5)) s).tc = 1000 := by
    dsimp only [slotValues, logical]
    rw [dominant_element, if_pos (by omega)]
  obtain ⟨best, hbest⟩ : ∃ best, argmax (softmax Real.exp (1000 :: List.replicate 79 0)) =
      some best := by
    apply argmax_isSome
    rw [← List.length_pos_iff_ne_nil, length_softmax]
    exact Nat.succ_pos _
  have haccept : confidenceThreshold < best.2 * sigmoid Real.exp 1000 :=
    first_dominates le_rfl hbest
  refine ⟨⟨best.1, best.2 * sigmoid Real.exp 1000,
    slotRect Real.exp s.level s.cx s.cy s.b (slotValues (logical (dominant 5)) s)⟩, ?_⟩
  rw [decodeSlot, dominant_classes, htc, hbest]
  exact if_pos haccept

def firstTwo : Equiv.Perm (Fin numClasses) := Equiv.swap ⟨0, by decide⟩ ⟨1, by decide⟩

theorem firstTwo_permutes :
    ClassesPermuted firstTwo (logical (dominant 5)) (logical (dominant 6)) := by
  refine ⟨?_, ?_⟩
  · intro s _ k hk
    have hiff : (85 * s.b.val + k) % 85 = 6 ∨ (85 * s.b.val + k) % 85 = 4 ↔
        (85 * s.b.val + k) % 85 = 5 ∨ (85 * s.b.val + k) % 85 = 4 := by omega
    simp only [logical, dominant_element, hiff]
  · intro s _ c
    have hmoved : (firstTwo c).val = 1 ↔ c.val = 0 := by
      revert c
      decide
    have hc := c.2
    have hc' := (firstTwo c).2
    simp only [logical, dominant_element]
    unfold numClasses at hc hc'
    have hiff : (85 * s.b.val + 5 + (firstTwo c).val) % 85 = 6 ∨
        (85 * s.b.val + 5 + (firstTwo c).val) % 85 = 4 ↔
        (85 * s.b.val + 5 + c.val) % 85 = 5 ∨ (85 * s.b.val + 5 + c.val) % 85 = 4 := by omega
    simp only [hiff]

/-- A slot of these arrays is accepted with the class of its large logit, and there are
candidates whose classes are exchanged. -/
theorem class_is_strict_maximum_swap :
    (softmax Real.exp [1, 1]).sum = 1 ∧
    (∃ p, decodeSlot Real.exp 0 0 0 0 (slotValues (logical (dominant 5)) ⟨0, 0, 0, 0⟩) =
        some (some p) ∧
      IsStrictMax (slotValues (logical (dominant 5)) ⟨0, 0, 0, 0⟩).classes p.classIndex) ∧
    ∃ predictions, predictions ≠ [] ∧ candidates Real.exp (dominant 5) = some predictions ∧
      candidates Real.exp (dominant 6) = some (predictions.map (permutePrediction firstTwo)) := by
  refine ⟨(class_is_strict_maximum.1 [1, 1] (by simp)).2.2.1, ?_, ?_⟩
  · obtain ⟨p, hp⟩ := dominant_accepted ⟨0, 0, 0, 0⟩
    exact ⟨p, hp, class_is_strict_maximum.2.1 0 0 0 0 _ p hp⟩
  · have hfirst : (⟨0, 0, 0, 0⟩ : Slot) ∈ slots := mem_slots.mpr (by decide)
    obtain ⟨p, hp⟩ := dominant_accepted ⟨0, 0, 0, 0⟩
    have hcandidates := candidates_eq Real.exp (dominant 5)
    refine ⟨_, ?_, hcandidates, ?_⟩
    · rw [decodeSlot_eq, Option.some.injEq] at hp
      exact List.ne_nil_of_mem (List.mem_filterMap.mpr ⟨_, hfirst, hp⟩)
    · have hswap := class_is_strict_maximum.2.2 firstTwo _ _ firstTwo_permutes
      rw [hswap, hcandidates]
      rfl

end YouRoute.ClassScores
