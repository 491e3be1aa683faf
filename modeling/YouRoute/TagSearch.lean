import YouRoute.SnapshotMirrors

/-!
# Tag search as a step system

Each search adds a listener for its tag and keeps the listeners of earlier
searches, which go on answering. The list that should be shown is followed along
the same events. The two agree in a run exactly when each step meets a condition
on the list shown before it: the code appends where it should replace, and
appends what it should drop.
-/

namespace YouRoute.TagSearch
open StepSystem SnapshotMirrors

/-- The controller and the tags of the listeners added so far. -/
structure Search where
  controller : SearchController := {}
  listeners : List String := []
  deriving DecidableEq

inductive Event where
  | search (text : String)
  | cancel
  | deliver (listener : ℕ) (snapshot : StringArraySnapshot "Picture")

/-- A search whose text is refused as a path ends the app, and only a listener
that was added is called. -/
def step (s : Search) : Event → Option Search
  | .search text =>
      match SearchController.searchBarSearchButtonClicked.exec
          { s.controller with searchText := text } with
      | (.ok tag, c) => some { controller := c, listeners := s.listeners ++ [tag] }
      | (.error _, _) => none
  | .cancel => some { s with controller := s.controller.searchBarCancelButtonClicked }
  | .deliver listener snapshot =>
      if listener < s.listeners.length then
        (deliver SearchController.searchListener s.controller snapshot.document).map fun c =>
          { s with controller := c }
      else none

/-- What should be shown: `tags` are those searched so far, in order, and `live`
says that no cancel came after the last search. -/
structure Expected where
  tags : List String := []
  live : Bool := false
  shown : List String := []
  deriving DecidableEq

/-- The listener belongs to the tag searched last, and that search is not
cancelled. -/
def Expected.Awaits (x : Expected) (listener : ℕ) : Prop :=
  x.live = true ∧ x.tags[listener]? = x.tags.getLast?

instance (x : Expected) (listener : ℕ) : Decidable (x.Awaits listener) :=
  inferInstanceAs (Decidable (_ ∧ _))

def expect (x : Expected) : Event → Expected
  | .search text => { tags := x.tags ++ [text], live := true, shown := [] }
  | .cancel => { x with live := false, shown := [] }
  | .deliver listener snapshot =>
      if x.Awaits listener then { x with shown := snapshot.elements } else x

/-- The condition on one step: a search and an awaited answer find an empty list,
any other answer is empty. -/
def Fits (s : Search × Expected) : Event → Prop
  | .search _ => s.1.controller.filtered = []
  | .cancel => True
  | .deliver listener snapshot =>
      if s.2.Awaits listener then s.1.controller.filtered = [] else snapshot.elements = []

/-- The code's list is the one expected. -/
def Agree (s : Search × Expected) : Prop := s.1.controller.filtered = s.2.shown

/-- The code and the expectation, on the same events. -/
def system : Search × Expected → Event → Option (Search × Expected) :=
  both step fun x e => some (expect x e)

theorem step_search {s t : Search} {text : String} (h : step s (.search text) = some t) :
    t.controller.filtered = s.controller.filtered ∧ t.listeners = s.listeners ++ [text] := by
  simp only [step, SearchController.searchBarSearchButtonClicked_exec] at h
  cases hreference : documentReference text with
  | error trap => simp [hreference, Except.map] at h
  | ok path =>
      simp only [hreference, Except.map] at h
      cases h
      exact ⟨rfl, rfl⟩

theorem step_deliver {s t : Search} {listener : ℕ} {snapshot : StringArraySnapshot "Picture"}
    (h : step s (.deliver listener snapshot) = some t) :
    t.controller.filtered = s.controller.filtered ++ snapshot.elements := by
  simp only [step] at h
  split at h
  next =>
      obtain ⟨c, hc, rfl⟩ := Option.map_eq_some_iff.mp h
      obtain rfl := eq_received SearchController.view hc
      exact list_received SearchController.view snapshot.elements s.controller
  next => simp at h

theorem system_agree_iff (s : Search × Expected) (e : Event) (t : Search × Expected)
    (hs : Agree s) (h : system s e = some t) : Agree t ↔ Fits s e := by
  obtain ⟨hstep, hexpect⟩ := both_eq_some.mp h
  have hx : expect s.2 e = t.2 := Option.some.inj hexpect
  unfold Agree at hs ⊢
  cases e with
  | search text =>
      rw [(step_search hstep).1, ← hx]
      rfl
  | cancel =>
      obtain hc := Option.some.inj hstep
      rw [← hx, ← hc]
      exact ⟨fun _ => trivial, fun _ => rfl⟩
  | deliver listener snapshot =>
      rw [step_deliver hstep, ← hx]
      simp only [Fits, expect]
      split
      next => exact List.append_left_eq_self
      next =>
          rw [← hs]
          exact List.append_right_eq_self

/-- In every order of searches, cancels and answers, the list shown is the
expected one throughout exactly when each step meets its condition. -/
theorem shown_iff (es : List Event) :
    Throughout system Agree ({}, {}) es ↔ EachStep system Fits ({}, {}) es :=
  throughout_iff_eachStep system_agree_iff rfl

def twoSearches : List Event := [
  .search "바다", .deliver 0 (.ofList "Picture" ["a"]),
  .search "산", .deliver 1 (.ofList "Picture" ["b"])]

def afterTwoSearches : Search × Expected where
  fst.controller.images := "산"
  fst.controller.searchText := "산"
  fst.controller.filtered := ["a", "b"]
  fst.controller.reported := ["a", "b"]
  fst.listeners := ["바다", "산"]
  snd.tags := ["바다", "산"]
  snd.live := true
  snd.shown := ["b"]

/-- The pictures of the first tag are still shown under the second. -/
theorem second_search_keeps_first :
    run system ({}, {}) twoSearches = some afterTwoSearches ∧
      ¬ Throughout system Agree ({}, {}) twoSearches := by
  have hrun : run system ({}, {}) twoSearches = some afterTwoSearches := rfl
  refine ⟨hrun, ?_⟩
  intro h
  have hagree : ["a", "b"] = ["b"] := h twoSearches afterTwoSearches List.prefix_rfl hrun
  simp at hagree

end YouRoute.TagSearch
