import Mathlib.Data.List.Basic

/-!
# Texts split at a separator

The components of a list are what stands between its separators, less what is
empty. Joining components gives a standardized list, which has no separator at
either end and no two in a row. Standardizing never lengthens a list, and a
standardized list is determined by its components.
-/

namespace Separators

variable {α : Type*} [DecidableEq α] (sep : α)

/-- What stands between the separators and is not empty. -/
def components (xs : List α) : List (List α) :=
  (xs.splitOn sep).filter fun x => !x.isEmpty

def join (xss : List (List α)) : List α := [sep].intercalate xss

def standardize (xs : List α) : List α := join sep (components sep xs)

/-- A component is not empty and has no separator. -/
structure IsComponent (x : List α) : Prop where
  ne_nil : x ≠ []
  notMem : sep ∉ x

variable {sep} {xs ys : List α} {xss yss : List (List α)}

theorem notMem_of_mem_splitOn {x : List α} (h : x ∈ xs.splitOn sep) : sep ∉ x := by
  induction xs generalizing x with
  | nil =>
      rw [List.splitOn_nil, List.mem_singleton] at h
      rw [h]
      exact List.not_mem_nil
  | cons a xs ih =>
      rw [List.splitOn_cons_eq_if_modifyHead] at h
      cases hsplit : xs.splitOn sep with
      | nil => exact (List.splitOn_ne_nil sep xs hsplit).elim
      | cons head rest =>
          rw [hsplit] at h ih
          split_ifs at h with ha
          · cases List.mem_cons.mp h with
            | inl heq => rw [heq]; exact List.not_mem_nil
            | inr hin => exact ih hin
          · rw [List.modifyHead_cons] at h
            cases List.mem_cons.mp h with
            | inl heq =>
                rw [heq, List.mem_cons, not_or]
                exact ⟨fun hsep => ha (beq_iff_eq.mpr hsep.symm), ih List.mem_cons_self⟩
            | inr hin => exact ih (List.mem_cons_of_mem head hin)

theorem isComponent_of_mem {x : List α} (h : x ∈ components sep xs) : IsComponent sep x := by
  obtain ⟨hsplit, hne⟩ := List.mem_filter.mp h
  exact ⟨by simpa using hne, notMem_of_mem_splitOn hsplit⟩

@[simp] theorem components_nil : components sep ([] : List α) = [] := by
  rw [components, List.splitOn_nil]
  rfl

omit [DecidableEq α] in
@[simp] theorem join_nil : join sep [] = [] := rfl

omit [DecidableEq α] in
@[simp] theorem join_singleton (x : List α) : join sep [x] = x := List.intercalate_singleton

omit [DecidableEq α] in
theorem join_cons (x : List α) (h : xss ≠ []) : join sep (x :: xss) = x ++ sep :: join sep xss := by
  rw [join, List.intercalate_cons_of_ne_nil h, List.append_assoc, List.singleton_append]
  rfl

/-- Joined components are found again. -/
theorem components_join (h : ∀ x ∈ xss, IsComponent sep x) :
    components sep (join sep xss) = xss := by
  cases xss with
  | nil => exact components_nil
  | cons x xss =>
      rw [components, join,
        List.splitOn_intercalate sep (fun y hy => (h y hy).notMem) (List.cons_ne_nil x xss)]
      refine List.filter_eq_self.mpr ?_
      intro y hy
      simpa using (h y hy).ne_nil

theorem components_standardize (xs : List α) :
    components sep (standardize sep xs) = components sep xs :=
  components_join fun _ hx => isComponent_of_mem hx

@[simp] theorem standardize_standardize (xs : List α) :
    standardize sep (standardize sep xs) = standardize sep xs :=
  congrArg (join sep) (components_standardize xs)

theorem components_append (xs ys : List α) :
    components sep (xs ++ sep :: ys) = components sep xs ++ components sep ys := by
  rw [components, List.splitOn_append_cons_self, List.filter_append]
  rfl

theorem components_of_isComponent {x : List α} (h : IsComponent sep x) :
    components sep x = [x] := by
  rw [components, List.splitOn_eq_singleton h.notMem]
  exact List.filter_eq_self.mpr (by simpa using h.ne_nil)

/-- A standardized list is determined by its components. -/
theorem eq_of_components (hxs : standardize sep xs = xs) (hys : standardize sep ys = ys)
    (h : components sep xs = components sep ys) : xs = ys := by
  rw [← hxs, ← hys, standardize, standardize, h]

omit [DecidableEq α] in
/-- Leaving out components leaves a sublist. -/
theorem join_sublist (h : yss.Sublist xss) : (join sep yss).Sublist (join sep xss) := by
  induction h with
  | slnil => exact List.Sublist.refl _
  | @cons yss xss x _ ih =>
      cases xss with
      | nil =>
          rw [List.sublist_nil.mp ih]
          exact List.nil_sublist _
      | cons z xss =>
          rw [join_cons x (List.cons_ne_nil z xss)]
          exact (ih.cons sep).trans (List.sublist_append_right x _)
  | @cons_cons yss xss x hsub ih =>
      cases yss with
      | nil =>
          cases xss with
          | nil => exact List.Sublist.refl _
          | cons z xss =>
              rw [join_cons x (List.cons_ne_nil z xss), join_singleton]
              exact List.sublist_append_left x _
      | cons y yss =>
          have hne : xss ≠ [] := by
            intro hnil
            rw [hnil] at hsub
            cases hsub
          rw [join_cons x (List.cons_ne_nil y yss), join_cons x hne]
          exact (List.Sublist.refl x).append (ih.cons_cons sep)

theorem standardize_sublist (xs : List α) : (standardize sep xs).Sublist xs := by
  have hsub : (join sep (components sep xs)).Sublist (join sep (xs.splitOn sep)) :=
    join_sublist List.filter_sublist
  have hjoin : join sep (xs.splitOn sep) = xs := List.intercalate_splitOn sep
  rw [hjoin] at hsub
  exact hsub

end Separators
