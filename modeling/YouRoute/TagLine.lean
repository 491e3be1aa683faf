import YouRoute.SnapshotMirrors
import YouRoute.StoryLabels

/-!
# The tag line over several detections

The set of labels and the tag line both live as long as the screen. The set takes
each label once, but every call of `show` appends the whole set to the line, so
only the first call that finds something leaves a line that names each label once.
-/

namespace YouRoute.TagLine
open StepSystem StoryController

/-- An order in which a set can be iterated. -/
structure SetOrder where
  enumerate : Finset String → List String
  nodup : ∀ s, (enumerate s).Nodup
  toFinset : ∀ s, (enumerate s).toFinset = s

/-- One call of `show` on a screen with `overlays` overlays. -/
structure Call (F : Type*) (overlays : ℕ) where
  predictions : List (Prediction F)
  order : SetOrder
  length_le : predictions.length ≤ overlays
  class_lt : ∀ p ∈ predictions, p.classIndex < labels.length

def hashed (label : String) : String := "#" ++ label ++ " "

/-- The text has one word for each label of the set, and nothing else. -/
def ListsOnce (detected : Finset String) (text : String) : Prop :=
  ∃ ls : List String, ls.Nodup ∧ ls.toFinset = detected ∧ text = String.join (ls.map hashed)

theorem tagLine_eq (tag : String) (ls : List String) :
    tagLine tag ls = tag ++ String.join (ls.map hashed) := by
  unfold tagLine
  induction ls generalizing tag with
  | nil => simp
  | cons l ls ih =>
      rw [List.foldl_cons, ih, List.map_cons, String.join_cons]
      simp only [hashed, String.append_assoc]

/-- The length does not depend on the order of the labels. -/
theorem length_join_hashed {ls ls' : List String} (hls : ls.Nodup) (hls' : ls'.Nodup)
    (h : ls.toFinset = ls'.toFinset) :
    (String.join (ls.map hashed)).length = (String.join (ls'.map hashed)).length := by
  have hperm : ls.Perm ls' := List.perm_of_nodup_nodup_toFinset_eq hls hls' h
  rw [String.length_join, String.length_join]
  exact ((hperm.map hashed).map String.length).sum_eq

theorem join_hashed_eq_empty_iff {ls : List String} :
    String.join (ls.map hashed) = "" ↔ ls = [] := by
  cases ls with
  | nil => simp
  | cons l ls => simp [hashed]

/-- Nothing can stand before a line that already has all the words. -/
theorem listsOnce_append_iff (tag : String) (order : SetOrder) (detected : Finset String) :
    ListsOnce detected (tag ++ String.join ((order.enumerate detected).map hashed)) ↔ tag = "" := by
  constructor
  · intro h
    obtain ⟨ls, hnodup, hset, htext⟩ := h
    have hlength := congrArg String.length htext
    rw [String.length_append,
      length_join_hashed hnodup (order.nodup detected) (hset.trans (order.toFinset detected).symm)]
      at hlength
    apply String.length_eq_zero_iff.mp
    omega
  · intro h
    subst h
    exact ⟨order.enumerate detected, order.nodup detected, order.toFinset detected,
      String.empty_append⟩

variable {F : Type*} {overlays : ℕ}

/-- The labels of the predictions shown by some calls. -/
def detected (calls : List (Call F overlays)) : Finset String :=
  (calls.flatMap fun call => call.predictions.filterMap labelOf).toFinset

def showCall (c : StoryController) (call : Call F overlays) : Option StoryController :=
  showPredictions call.order.enumerate call.predictions c

def opened (c : StoryController) : StoryController := { c with labelArray := ∅, tag := "" }

theorem detected_append (calls : List (Call F overlays)) (call : Call F overlays) :
    detected (calls ++ [call]) =
      detected calls ∪ (call.predictions.filterMap labelOf).toFinset := by
  simp [detected]

theorem labels_eq_nil_iff (call : Call F overlays) :
    call.predictions.filterMap labelOf = [] ↔ call.predictions = [] := by
  constructor
  · intro h
    rw [List.filterMap_eq_nil_iff] at h
    rw [List.eq_nil_iff_forall_not_mem]
    intro p hp
    have hnone := h p hp
    rw [labelOf, List.getElem?_eq_getElem (call.class_lt p hp)] at hnone
    simp at hnone
  · intro h
    rw [h]
    rfl

theorem detected_eq_empty_iff (calls : List (Call F overlays)) :
    detected calls = ∅ ↔ ∀ call ∈ calls, call.predictions = [] := by
  rw [detected, List.toFinset_eq_empty_iff, List.flatMap_eq_nil_iff]
  simp only [labels_eq_nil_iff]

theorem enumerate_eq_nil_iff (order : SetOrder) (s : Finset String) :
    order.enumerate s = [] ↔ s = ∅ := by
  rw [← List.toFinset_eq_empty_iff, order.toFinset]

/-- What some calls leave. -/
structure After (calls : List (Call F overlays)) (t : StoryController) : Prop where
  overlays_eq : t.boundingBoxes.length = overlays
  labelArray : t.labelArray = detected calls
  tag_eq : t.tag = "" ↔ detected calls = ∅

theorem after_nil (c : StoryController) :
    After ([] : List (Call F c.boundingBoxes.length)) (opened c) :=
  ⟨rfl, rfl, by simp [opened, detected]⟩

/-- One more call writes all words after the line there was. -/
theorem After.showCall {calls : List (Call F overlays)} {t : StoryController}
    (h : After calls t) (call : Call F overlays) :
    ∃ u, showCall t call = some u ∧ After (calls ++ [call]) u ∧ u.label1 = u.tag ∧
      u.tag = t.tag ++
        String.join ((call.order.enumerate (detected (calls ++ [call]))).map hashed) := by
  obtain ⟨u, hshow, hset, htag, hlabel, hlength⟩ := showPredictions_spec call.order.enumerate
    call.class_lt (c := t) (by rw [h.overlays_eq]; exact call.length_le)
  have hdetected : u.labelArray = detected (calls ++ [call]) := by
    rw [hset, h.labelArray, detected_append]
  rw [hdetected, tagLine_eq] at htag
  refine ⟨u, hshow, ⟨hlength.trans h.overlays_eq, hdetected, ?_⟩, hlabel, htag⟩
  rw [htag, String.append_eq_empty_iff, join_hashed_eq_empty_iff, enumerate_eq_nil_iff, h.tag_eq,
    detected_append, Finset.union_eq_empty, and_self_left]

section Run

variable {c : StoryController}

theorem run_after (calls : List (Call F c.boundingBoxes.length)) :
    ∃ t, run showCall (opened c) calls = some t ∧ After calls t := by
  induction calls using List.reverseRecOn with
  | nil => exact ⟨opened c, rfl, after_nil c⟩
  | append_singleton calls call ih =>
      obtain ⟨t, ht, hafter⟩ := ih
      obtain ⟨u, hu, hafter', _⟩ := hafter.showCall call
      exact ⟨u, run_snoc_eq_some.mpr ⟨t, ht, hu⟩, hafter'⟩

/-- The line is right after a call exactly when no call before found anything. -/
theorem run_snoc_listsOnce_iff (calls : List (Call F c.boundingBoxes.length))
    (call : Call F c.boundingBoxes.length) :
    (∃ t, run showCall (opened c) (calls ++ [call]) = some t ∧
      ListsOnce (detected (calls ++ [call])) t.label1) ↔
      ∀ call ∈ calls, call.predictions = [] := by
  obtain ⟨t, ht, hafter⟩ := run_after calls
  obtain ⟨u, hu, _, hlabel, htag⟩ := hafter.showCall call
  have hrun : run showCall (opened c) (calls ++ [call]) = some u :=
    run_snoc_eq_some.mpr ⟨t, ht, hu⟩
  rw [← detected_eq_empty_iff, ← hafter.tag_eq, ← listsOnce_append_iff t.tag call.order, ← htag,
    ← hlabel, hrun]
  simp

end Run

/-- After every call the tag line names each label detected so far once, exactly
when all calls but the last find nothing. -/
theorem lists_once_iff (c : StoryController) (calls : List (Call F c.boundingBoxes.length)) :
    (∀ pre call, pre ++ [call] <+: calls →
      ∃ t, run showCall (opened c) (pre ++ [call]) = some t ∧
        ListsOnce (detected (pre ++ [call])) t.label1) ↔
      ∀ call ∈ calls.dropLast, call.predictions = [] := by
  simp only [run_snoc_listsOnce_iff]
  constructor
  · intro h call hcall
    rcases calls.eq_nil_or_concat with hnil | ⟨init, last, hsnoc⟩
    · subst hnil
      simp at hcall
    · subst hsnoc
      rw [List.concat_eq_append, List.dropLast_concat] at hcall
      rw [List.concat_eq_append] at h
      exact h init last List.prefix_rfl call hcall
  · intro h pre last hpre call hcall
    exact h call (SnapshotMirrors.mem_dropLast_of_append hpre hcall)

/-- The screen with its overlays. -/
def screen : StoryController := setUpBoundingBoxes {}

noncomputable def person : Call ℚ screen.boundingBoxes.length where
  predictions := [⟨0, 9 / 10, ⟨⟨100, 100⟩, ⟨50, 120⟩⟩⟩]
  order := {
    enumerate := Finset.toList
    nodup := Finset.nodup_toList
    toFinset := Finset.toList_toFinset }
  length_le := by decide
  class_lt := by simp [numClasses]

/-- The same detection shown twice is named twice. -/
theorem person_named_twice :
    ∃ t, run showCall (opened screen) [person, person] = some t ∧
      t.label1 = "#사람 #사람 " ∧
      ¬ ListsOnce (detected [person, person]) t.label1 := by
  have hone : detected [person] = {"사람"} := by decide
  have htwo : detected [person, person] = {"사람"} := by decide
  have hword : String.join ((person.order.enumerate {"사람"}).map hashed) = "#사람 " := by
    simp [person, hashed]
  obtain ⟨s, hs, hfirst, _, hstag⟩ := (after_nil screen).showCall person
  obtain ⟨t, ht, _, hlabel, htag⟩ := hfirst.showCall person
  have htext : t.tag = "#사람 " ++ String.join ((person.order.enumerate {"사람"}).map hashed) := by
    rw [htag, hstag]
    simp only [List.nil_append, List.singleton_append, hone, htwo, hword]
    rfl
  refine ⟨t, ?_, ?_, ?_⟩
  · exact run_cons_eq_some.mpr ⟨s, hs, run_cons_eq_some.mpr ⟨t, ht, rfl⟩⟩
  · rw [hlabel, htext, hword]
    rfl
  · rw [hlabel, htext, htwo, listsOnce_append_iff]
    decide

end YouRoute.TagLine
