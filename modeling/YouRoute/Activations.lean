import Mathlib.Algebra.BigOperators.Group.List.Lemmas
import Mathlib.Algebra.Order.BigOperators.Group.List
import Mathlib.Algebra.Order.Field.Basic
import Mathlib.Tactic.Linarith
import Mathlib.Tactic.Positivity

/-!
# Sigmoid, softmax and argmax

The vector routines are read element by element, in the order of their
arguments. The exponential is a parameter; where its values are positive,
softmax gives positive numbers that sum to one, and the first largest of them is
at most one.
-/

namespace YouRoute

section Operations

variable {F : Type*} [Add F] [Mul F] [Div F] [Neg F] [Zero F] [One F] [Max F]

def sigmoid (exp : F → F) (x : F) : F := 1 / (1 + exp (-x))

/-- The largest element. The value for no elements is never read: `softmax` uses
it on the elements only. -/
def vDSP_maxv : List F → F
  | [] => 0
  | x :: xs => xs.foldl max x

def vDSP_sve (x : List F) : F := x.foldl (· + ·) 0

def softmax (exp : F → F) (x : List F) : List F :=
  let max := vDSP_maxv x
  let max := -max
  let x := x.map (· + max)
  let x := x.map exp
  let sum := vDSP_sve x
  x.map (· / sum)

omit [Mul F] [One F] in
@[simp] theorem length_softmax (exp : F → F) (x : List F) :
    (softmax exp x).length = x.length := by
  simp [softmax]

end Operations

section Argmax

variable {F : Type*} [LT F] [DecidableLT F]

/-- The loop over the elements from index `i` on. -/
def argmaxLoop : List F → ℕ → ℕ × F → ℕ × F
  | [], _, best => best
  | x :: xs, i, (maxIndex, maxValue) =>
      if maxValue < x then argmaxLoop xs (i + 1) (i, x)
      else argmaxLoop xs (i + 1) (maxIndex, maxValue)

/-- Index and value of the largest element; nothing where the precondition that
there is an element fires. -/
def argmax : List F → Option (ℕ × F)
  | [] => none
  | x :: xs => some (argmaxLoop xs 1 (0, x))

theorem argmax_isSome {xs : List F} (h : xs ≠ []) : ∃ best, argmax xs = some best := by
  cases xs with
  | nil => exact absurd rfl h
  | cons x xs => exact ⟨_, rfl⟩

end Argmax

section FirstMax

variable {F : Type*} [LinearOrder F]

/-- The first position of a largest element, and its value. -/
structure IsFirstMax (xs : List F) (best : ℕ × F) : Prop where
  get : xs[best.1]? = some best.2
  le : ∀ x ∈ xs, x ≤ best.2
  first : ∀ j x, j < best.1 → xs[j]? = some x → x < best.2

theorem IsFirstMax.lt_length {xs : List F} {best : ℕ × F} (h : IsFirstMax xs best) :
    best.1 < xs.length := (List.getElem?_eq_some_iff.mp h.get).choose

theorem IsFirstMax.mem {xs : List F} {best : ℕ × F} (h : IsFirstMax xs best) : best.2 ∈ xs :=
  List.mem_of_getElem? h.get

theorem IsFirstMax.append_le {xs : List F} {best : ℕ × F} (h : IsFirstMax xs best) {x : F}
    (hx : ¬ best.2 < x) : IsFirstMax (xs ++ [x]) best := by
  refine ⟨?_, ?_, ?_⟩
  · rw [List.getElem?_append_left h.lt_length]
    exact h.get
  · intro y hy
    rcases List.mem_append.mp hy with hy | hy
    · exact h.le y hy
    · exact not_lt.mp (List.mem_singleton.mp hy ▸ hx)
  · intro j y hj hy
    rw [List.getElem?_append_left (hj.trans h.lt_length)] at hy
    exact h.first j y hj hy

theorem IsFirstMax.append_lt {xs : List F} {best : ℕ × F} (h : IsFirstMax xs best) {x : F}
    (hx : best.2 < x) : IsFirstMax (xs ++ [x]) (xs.length, x) := by
  refine ⟨by simp, ?_, ?_⟩
  · intro y hy
    rcases List.mem_append.mp hy with hy | hy
    · exact (h.le y hy).trans hx.le
    · exact (List.mem_singleton.mp hy).le
  · intro j y hj hy
    rw [List.getElem?_append_left hj] at hy
    exact (h.le y (List.mem_of_getElem? hy)).trans_lt hx

theorem argmaxLoop_isFirstMax (xs ys : List F) (best : ℕ × F) (h : IsFirstMax xs best) :
    IsFirstMax (xs ++ ys) (argmaxLoop ys xs.length best) := by
  induction ys generalizing xs best with
  | nil => simpa [argmaxLoop] using h
  | cons y ys ih =>
      obtain ⟨maxIndex, maxValue⟩ := best
      have hlen : xs.length + 1 = (xs ++ [y]).length := by simp
      rw [argmaxLoop, hlen, List.append_cons]
      split
      next hy => exact ih (xs ++ [y]) _ (h.append_lt hy)
      next hy => exact ih (xs ++ [y]) _ (h.append_le hy)

theorem argmax_isFirstMax {xs : List F} {best : ℕ × F} (h : argmax xs = some best) :
    IsFirstMax xs best := by
  cases xs with
  | nil => simp [argmax] at h
  | cons x xs =>
      have hone : IsFirstMax [x] (0, x) := ⟨rfl, by simp, by simp⟩
      have hloop := argmaxLoop_isFirstMax [x] xs (0, x) hone
      rw [argmax, Option.some.injEq] at h
      exact h ▸ hloop

end FirstMax

section Exact

variable {F : Type*} [Field F] [LinearOrder F] [IsStrictOrderedRing F] {exp : F → F}

theorem sigmoid_pos (hexp : ∀ x, 0 < exp x) (x : F) : 0 < sigmoid exp x := by
  have h := hexp (-x)
  unfold sigmoid
  positivity

theorem sigmoid_lt_one (hexp : ∀ x, 0 < exp x) (x : F) : sigmoid exp x < 1 := by
  have h := hexp (-x)
  unfold sigmoid
  rw [div_lt_one (by positivity)]
  linarith

omit [LinearOrder F] [IsStrictOrderedRing F] in
theorem vDSP_sve_eq_sum (x : List F) : vDSP_sve x = x.sum := List.sum_eq_foldl.symm

omit [IsStrictOrderedRing F] in
/-- The exponentials that softmax divides by their sum. -/
theorem softmax_eq (x : List F) :
    softmax exp x = (x.map fun a => exp (a - vDSP_maxv x)).map
      (· / (x.map fun a => exp (a - vDSP_maxv x)).sum) := by
  simp only [softmax, vDSP_sve_eq_sum, List.map_map, sub_eq_add_neg]
  rfl

theorem mem_softmax (hexp : ∀ x, 0 < exp x) {x : List F} {p : F} (h : p ∈ softmax exp x) :
    0 < p ∧ p ≤ 1 := by
  rw [softmax_eq] at h
  obtain ⟨e, he, rfl⟩ := List.mem_map.mp h
  obtain ⟨a, _, rfl⟩ := List.mem_map.mp he
  have hpos := hexp (a - vDSP_maxv x)
  have hle : exp (a - vDSP_maxv x) ≤ (x.map fun a => exp (a - vDSP_maxv x)).sum := by
    apply List.single_le_sum _ _ he
    intro y hy
    obtain ⟨b, _, rfl⟩ := List.mem_map.mp hy
    exact (hexp _).le
  exact ⟨div_pos hpos (hpos.trans_le hle), (div_le_one (hpos.trans_le hle)).mpr hle⟩

end Exact

end YouRoute
