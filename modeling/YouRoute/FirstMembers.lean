import Mathlib.Data.List.Perm.Subperm
import Mathlib.Data.List.Nodup
import Mathlib.Data.Set.Basic
import YouRoute.SortedLists

/-!
# The first members of a set

In an order, the first `n` members of a set are those that fewer than `n` others
precede. A list that holds them need not be computed from the whole set again
when the set changes. It is enough to know that nothing outside the list was
forgotten, and that the members of a full list stay before its old end.
-/

namespace Comparator

variable {α : Type*}

def flip (c : Comparator α) : Comparator α where
  compare a b := c.compare b a
  trans :=
    { eq_swap := Std.OrientedCmp.eq_swap
      isLE_trans := fun hab hbc => Std.TransCmp.isLE_trans hbc hab }

@[simp] theorem flip_compare (c : Comparator α) (a b : α) :
    c.flip.compare a b = c.compare b a := rfl

end Comparator

namespace FirstMembers

variable {α : Type*} (c : Comparator α)

structure IsFirst (n : ℕ) (members : Set α) (xs : List α) : Prop where
  sorted : xs.Pairwise fun a b => c.compare a b = .lt
  mem : ∀ x ∈ xs, x ∈ members
  length_le : xs.length ≤ n
  full : ∀ x ∈ members, x ∉ xs → xs.length = n ∧ ∀ y ∈ xs, c.compare y x = .lt

/-- In a sorted list the first `n` precede a bound as soon as any `n` members do. -/
theorem take_lt_of_subset {xs ys : List α} (hxs : xs.Pairwise fun a b => c.compare a b = .lt)
    (hys : ys.Nodup) {x : α} (hsub : ∀ y ∈ ys, y ∈ xs ∧ c.compare y x = .lt) :
    ys.length ≤ xs.length ∧ ∀ y ∈ xs.take ys.length, c.compare y x = .lt := by
  have hlen : ys.length ≤ xs.length := (hys.subperm fun y hy => (hsub y hy).1).length_le
  refine ⟨hlen, ?_⟩
  intro y hy
  by_contra hyx
  obtain ⟨i, hi, hget⟩ := List.getElem_of_mem hy
  rw [List.length_take] at hi
  rw [List.getElem_take] at hget
  have hbefore : ys ⊆ xs.take i := by
    intro z hz
    obtain ⟨hzxs, hzx⟩ := hsub z hz
    obtain ⟨j, hj, rfl⟩ := List.getElem_of_mem hzxs
    have hji : j < i := by
      by_contra hij
      rcases Nat.lt_or_ge i j with hlt | hge
      · have hyz := List.pairwise_iff_getElem.mp hxs i j (by omega) hj hlt
        rw [hget] at hyz
        exact hyx (Std.TransCmp.lt_trans hyz hzx)
      · have heq : j = i := by omega
        subst heq
        exact hyx (hget ▸ hzx)
    exact List.mem_take_iff_getElem.mpr ⟨j, by omega, rfl⟩
  have hle : ys.length ≤ (xs.take i).length := (hys.subperm hbefore).length_le
  rw [List.length_take] at hle
  omega

theorem isFirst_take {n : ℕ} {members : Set α} {xs : List α}
    (hsorted : xs.Pairwise fun a b => c.compare a b = .lt) (hmem : ∀ x ∈ xs, x ∈ members)
    (hrest : ∀ x ∈ members, x ∉ xs →
      n ≤ xs.length ∧ ∀ y ∈ xs.take n, c.compare y x = .lt) :
    IsFirst c n members (xs.take n) where
  sorted := hsorted.sublist (List.take_sublist n xs)
  mem x hx := hmem x (List.mem_of_mem_take hx)
  length_le := List.length_take_le n xs
  full := by
    intro x hx hnot
    by_cases hin : x ∈ xs
    · have hdrop : x ∈ xs.drop n := by
        rw [← List.take_append_drop n xs, List.mem_append] at hin
        exact hin.resolve_left hnot
      have hlen : n < xs.length := by
        by_contra hge
        rw [List.drop_of_length_le (by omega)] at hdrop
        cases hdrop
      refine ⟨List.length_take_of_le hlen.le, ?_⟩
      rw [← List.take_append_drop n xs] at hsorted
      intro y hy
      exact (List.pairwise_append.mp hsorted).2.2 y hy x hdrop
    · obtain ⟨hlen, hlt⟩ := hrest x hx hin
      exact ⟨List.length_take_of_le hlen, hlt⟩

/-- The first members of a changed set, from a list that holds all its members except old
ones from beyond the limit, when the members of a full list stay before its old end. -/
theorem isFirst_take_of_stays {n : ℕ} {members newMembers : Set α} {xs ys : List α}
    (hxs : IsFirst c n members xs) (hys : ys.Pairwise fun a b => c.compare a b = .lt)
    (hmem : ∀ y ∈ ys, y ∈ newMembers)
    (hrest : ∀ x ∈ newMembers, x ∉ ys → x ∈ members ∧ x ∉ xs)
    (hstays : xs.length = n → ∃ stayed : List α, stayed.Nodup ∧ stayed.length = n ∧
      ∀ y ∈ stayed, y ∈ ys ∧ ∀ last, xs.getLast? = some last → c.compare y last ≠ .gt) :
    IsFirst c n newMembers (ys.take n) := by
  refine isFirst_take c hys hmem ?_
  intro x hx hnot
  obtain ⟨hold, hout⟩ := hrest x hx hnot
  obtain ⟨hfull, hlt⟩ := hxs.full x hold hout
  obtain ⟨stayed, hnodup, hlen, hstay⟩ := hstays hfull
  rw [← hlen]
  refine take_lt_of_subset c hys hnodup ?_
  intro y hy
  obtain ⟨hyys, hlast⟩ := hstay y hy
  refine ⟨hyys, ?_⟩
  have hpos : xs ≠ [] := by
    rintro rfl
    have hzero : stayed.length = 0 := hlen.trans hfull.symm
    rw [List.length_eq_zero_iff.mp hzero] at hy
    cases hy
  have hend := List.getLast?_eq_some_getLast hpos
  have hle := hlast _ hend
  have hendlt := hlt _ (List.getLast_mem hpos)
  cases hcmp : c.compare y (xs.getLast hpos) with
  | lt => exact Std.TransCmp.lt_trans hcmp hendlt
  | eq => exact Std.TransCmp.lt_of_eq_of_lt hcmp hendlt
  | gt => exact (hle hcmp).elim

end FirstMembers
