import Mathlib.Data.List.Infix
import Mathlib.Data.List.Nodup

/-!
# Greedy selection with a limit

Elements are offered in order. One is taken when fewer than `limit` elements
were taken before it and it conflicts with none of them. Nothing is assumed of
the conflict relation; in particular it may be asymmetric, the taken element
being the first argument.
-/

namespace GreedySelection

variable {α : Type*} (conflict : α → α → Prop) [DecidableRel conflict] (limit : ℕ)

/-- Whether an element is taken after the elements `taken`. -/
def Admits (taken : List α) (x : α) : Prop :=
  taken.length < limit ∧ ∀ t ∈ taken, ¬ conflict t x

instance (taken : List α) (x : α) : Decidable (Admits conflict limit taken x) :=
  inferInstanceAs (Decidable (_ ∧ _))

/-- Offer the remaining elements in order. -/
def walk : List α → List α → List α
  | taken, [] => taken
  | taken, x :: xs =>
      if Admits conflict limit taken x then walk (taken ++ [x]) xs else walk taken xs

def select (xs : List α) : List α := walk conflict limit [] xs

theorem walk_append (taken xs ys : List α) :
    walk conflict limit taken (xs ++ ys) =
      walk conflict limit (walk conflict limit taken xs) ys := by
  induction xs generalizing taken with
  | nil => rfl
  | cons x xs ih =>
      simp only [List.cons_append, walk]
      split <;> exact ih _

/-- Elements once taken are kept, and those added come from the offered ones in
their order. -/
theorem walk_eq_append (taken xs : List α) :
    ∃ ys, ys.Sublist xs ∧ walk conflict limit taken xs = taken ++ ys := by
  induction xs generalizing taken with
  | nil => exact ⟨[], List.Sublist.refl _, by simp [walk]⟩
  | cons x xs ih =>
      simp only [walk]
      split
      · obtain ⟨ys, hys, h⟩ := ih (taken ++ [x])
        exact ⟨x :: ys, hys.cons_cons x, by simpa using h⟩
      · obtain ⟨ys, hys, h⟩ := ih taken
        exact ⟨ys, hys.cons x, h⟩

theorem select_sublist (xs : List α) : (select conflict limit xs).Sublist xs := by
  obtain ⟨ys, hys, h⟩ := walk_eq_append conflict limit [] xs
  rw [select, h, List.nil_append]
  exact hys

theorem walk_length_le (taken xs : List α) (h : taken.length ≤ limit) :
    (walk conflict limit taken xs).length ≤ limit := by
  induction xs generalizing taken with
  | nil => exact h
  | cons x xs ih =>
      simp only [walk]
      split
      next hx => exact ih _ (by simpa using Nat.succ_le_of_lt hx.1)
      next => exact ih _ h

theorem select_length_le (xs : List α) : (select conflict limit xs).length ≤ limit :=
  walk_length_le conflict limit [] xs (Nat.zero_le limit)

theorem walk_full {taken : List α} (h : limit ≤ taken.length) (xs : List α) :
    walk conflict limit taken xs = taken := by
  induction xs with
  | nil => rfl
  | cons x xs ih =>
      have hx : ¬ Admits conflict limit taken x := fun hx => absurd hx.1 (by omega)
      simp only [walk, hx, if_false, ih]

/-- The first element offered conflicts with nothing. -/
theorem select_ne_nil {xs : List α} (hlimit : 0 < limit) (h : xs ≠ []) :
    select conflict limit xs ≠ [] := by
  cases xs with
  | nil => exact absurd rfl h
  | cons x xs =>
      have hx : Admits conflict limit [] x := ⟨hlimit, by simp⟩
      obtain ⟨ys, _, hys⟩ := walk_eq_append conflict limit [x] xs
      rw [select, walk, if_pos hx, List.nil_append, hys]
      simp

/-- The elements taken up to an offered one, and what happens to it. -/
theorem select_split (pre post : List α) (x : α) :
    ∃ ys, ys.Sublist post ∧ select conflict limit (pre ++ x :: post) =
      select conflict limit pre ++
        (if Admits conflict limit (select conflict limit pre) x then [x] else []) ++ ys := by
  have hsel : select conflict limit (pre ++ x :: post) =
      walk conflict limit (select conflict limit pre) (x :: post) :=
    walk_append conflict limit [] pre (x :: post)
  rw [hsel, walk]
  by_cases h : Admits conflict limit (select conflict limit pre) x
  · rw [if_pos h, if_pos h]
    exact walk_eq_append conflict limit _ post
  · rw [if_neg h, if_neg h, List.append_nil]
    exact walk_eq_append conflict limit _ post

/-- The part of a selection that was offered before `x` is the selection of what
was offered before `x`; `before` tells the two parts apart. -/
theorem filter_select (pre post : List α) (x : α) (before : α → Bool)
    (hpre : ∀ y ∈ pre, before y = true) (hx : before x = false)
    (hpost : ∀ y ∈ post, before y = false) :
    (select conflict limit (pre ++ x :: post)).filter before = select conflict limit pre := by
  obtain ⟨ys, hys, hsel⟩ := select_split conflict limit pre post x
  have hkeep : (select conflict limit pre).filter before = select conflict limit pre :=
    List.filter_eq_self.mpr fun y hy =>
      hpre y ((select_sublist conflict limit pre).subset hy)
  have hdrop : ys.filter before = [] :=
    List.filter_eq_nil_iff.mpr fun y hy => by simp [hpost y (hys.subset hy)]
  rw [hsel, List.filter_append, List.filter_append, hkeep, hdrop]
  split <;> simp [hx]

theorem mem_select_iff {pre post : List α} {x : α} (h : (pre ++ x :: post).Nodup) :
    x ∈ select conflict limit (pre ++ x :: post) ↔
      Admits conflict limit (select conflict limit pre) x := by
  obtain ⟨ys, hys, hsel⟩ := select_split conflict limit pre post x
  have hx : x ∉ select conflict limit pre := fun hx =>
    (List.nodup_append.mp h).2.2 x ((select_sublist conflict limit pre).subset hx) x
      (by simp) rfl
  have hxys : x ∉ ys := fun hx =>
    (List.nodup_cons.mp (List.nodup_append.mp h).2.1).1 (hys.subset hx)
  rw [hsel]
  split
  next ha => simp [ha]
  next ha => simp [ha, hx, hxys]

/-- With a smaller limit the walk ends earlier and is the same until then. -/
theorem walk_take {small large : ℕ} (h : small ≤ large) (taken xs : List α)
    (htaken : taken.length ≤ small) :
    walk conflict small taken xs = (walk conflict large taken xs).take small := by
  induction xs generalizing taken with
  | nil => exact (List.take_of_length_le htaken).symm
  | cons x xs ih =>
      by_cases hroom : taken.length < small
      · have hadmits : Admits conflict small taken x ↔ Admits conflict large taken x := by
          unfold Admits
          constructor
          · intro ha
            exact ⟨by omega, ha.2⟩
          · intro ha
            exact ⟨hroom, ha.2⟩
        simp only [walk, hadmits]
        split
        · apply ih
          rw [List.length_append, List.length_singleton]
          omega
        · exact ih taken htaken
      · obtain ⟨ys, _, hlarge⟩ := walk_eq_append conflict large taken (x :: xs)
        have hfull : taken.length = small := by omega
        rw [walk_full conflict small (by omega), hlarge, ← hfull, List.take_left]

theorem select_take {small large : ℕ} (h : small ≤ large) (xs : List α) :
    select conflict small xs = (select conflict large xs).take small :=
  walk_take conflict h [] xs (Nat.zero_le small)

section Map

variable {β : Type*} {f : β → α} {r : β → β → Prop} [DecidableRel r]

omit [DecidableRel conflict] [DecidableRel r] in
theorem admits_map (h : ∀ x y, r x y ↔ conflict (f x) (f y)) (taken : List β) (x : β) :
    Admits conflict limit (taken.map f) (f x) ↔ Admits r limit taken x := by
  unfold Admits
  rw [List.length_map, List.forall_mem_map]
  simp only [h]

theorem walk_map (h : ∀ x y, r x y ↔ conflict (f x) (f y)) (taken xs : List β) :
    walk conflict limit (taken.map f) (xs.map f) = (walk r limit taken xs).map f := by
  induction xs generalizing taken with
  | nil => rfl
  | cons x xs ih =>
      simp only [List.map_cons, walk, admits_map conflict limit h]
      split
      · have happend : taken.map f ++ [f x] = (taken ++ [x]).map f := by simp
        rw [happend, ih]
      · exact ih taken

/-- Selecting commutes with a map that keeps and reflects conflicts. -/
theorem select_map (h : ∀ x y, r x y ↔ conflict (f x) (f y)) (xs : List β) :
    select conflict limit (xs.map f) = (select r limit xs).map f :=
  walk_map conflict limit h [] xs

end Map

end GreedySelection
