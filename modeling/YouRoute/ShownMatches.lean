import YouRoute.TravelSearch

/-!
# What a search shows

The filtered list is computed from the trips and the search text by the search
button and by a selection, and kept until the next of them. Meanwhile both can
change, and the list kept can be put on display again. A search shows the matches
exactly as long as no such event makes a difference.
-/

namespace YouRoute.ShownMatches
open StepSystem SnapshotMirrors TravelController TravelSearch

/-- The containment test of the filter. `NSString` finds no empty text. -/
structure ContainsTest where
  rangeOf : String → String → Bool
  empty : ∀ image, rangeOf image "" = false

variable (find : ContainsTest)

/-- The callbacks alone, for any row. -/
def callback (c : TravelController) : Event → Option TravelController
  | .cellForItemAt row => (c.cellForItemAt row).toOption.map fun _ => c
  | .didSelectItemAt row => (c.didSelectItemAt find.rangeOf row).toOption.map Prod.snd
  | e => step find.rangeOf c e

/-- The collection view only asks for some of the rows. -/
theorem callback_of_step {c d : TravelController} {e : Event}
    (h : step find.rangeOf c e = some d) : callback find c e = some d := by
  cases e with
  | cellForItemAt row | didSelectItemAt row => exact (Option.ite_none_right_eq_some.mp h).2
  | _ => exact h

/-- While a search is active, the list shown is the matches, none when the text is
empty, and the view is told their number. -/
def ShowsMatches (c : TravelController) : Prop :=
  c.searchActive = true →
    c.filtered = c.matching find.rangeOf ∧
    (c.searchText = "" → c.filtered = []) ∧
    c.numberOfItemsInSection = (c.matching find.rangeOf).length

/-- The condition on one step: no new trip matches, no trip starts or stops to
match, and a search that starts finds the list kept to be that of the matches. -/
def Fits (c : TravelController) : Event → Prop
  | .snapshot d => c.searchActive = true →
      ∀ image ∈ d.elements, find.rangeOf image c.searchText = false
  | .textDidChange text => c.searchActive = true →
      ∀ image ∈ c.images, find.rangeOf image text = find.rangeOf image c.searchText
  | .searchBarTextDidBeginEditing => c.filtered = c.matching find.rangeOf
  | .searchBarBookmarkButtonClicked => c.filtered = c.matching find.rangeOf
  | _ => True

theorem matching_of_empty {c : TravelController} (h : c.searchText = "") :
    c.matching find.rangeOf = [] := by
  unfold TravelController.matching
  rw [h, List.filter_eq_nil_iff]
  intro image _
  simp [find.empty image]

theorem showsMatches_iff (c : TravelController) :
    ShowsMatches find c ↔ (c.searchActive = true → c.filtered = c.matching find.rangeOf) := by
  constructor
  · intro h hactive
    exact (h hactive).1
  · intro h hactive
    have hfresh := h hactive
    refine ⟨hfresh, ?_, ?_⟩
    · intro hempty
      rw [hfresh]
      exact matching_of_empty find hempty
    · rw [← hfresh]
      exact if_pos hactive

theorem showsMatches_inactive {c : TravelController} (h : c.searchActive = false) :
    ShowsMatches find c := by
  intro hactive
  rw [h] at hactive
  exact absurd hactive (by decide)

theorem filter_eq_filter_iff {A : Type} {p q : A → Bool} {xs : List A} :
    xs.filter p = xs.filter q ↔ ∀ x ∈ xs, p x = q x := by
  constructor
  · intro h x hx
    have hmem : x ∈ xs.filter p ↔ x ∈ xs.filter q := by rw [h]
    simp only [List.mem_filter, hx, true_and] at hmem
    exact Bool.eq_iff_iff.mpr hmem
  · exact List.filter_congr

/-- The bookmark button starts a search as editing does. -/
theorem bookmark_eq_beginEditing (c : TravelController) :
    c.searchBarBookmarkButtonClicked = c.searchBarTextDidBeginEditing := by
  obtain ⟨images, filtered, searchActive, searchText, reported⟩ := c
  cases searchActive with
  | false => rfl
  | true => rfl

theorem matching_received (elements : List String) (c : TravelController) :
    (received TravelController.view elements c).matching find.rangeOf =
      c.matching find.rangeOf ++ elements.filter fun image => find.rangeOf image c.searchText := by
  have himages : (received TravelController.view elements c).images = c.images ++ elements :=
    list_received TravelController.view elements c
  have htext := received_keeps TravelController.view (fun c => c.searchText)
    (fun _ _ => rfl) (fun _ => rfl) elements c
  unfold TravelController.matching
  rw [himages, List.filter_append]
  rw [htext]

theorem received_fits_iff (elements : List String) {c : TravelController}
    (hc : c.searchActive = true → c.filtered = c.matching find.rangeOf) :
    ShowsMatches find (received TravelController.view elements c) ↔
      (c.searchActive = true → ∀ image ∈ elements, find.rangeOf image c.searchText = false) := by
  have hactive := received_keeps TravelController.view (fun c => c.searchActive)
    (fun _ _ => rfl) (fun _ => rfl) elements c
  have hfiltered := received_keeps TravelController.view (fun c => c.filtered)
    (fun _ _ => rfl) (fun _ => rfl) elements c
  rw [showsMatches_iff, hactive, hfiltered, matching_received]
  apply imp_congr_right
  intro h
  rw [hc h, List.self_eq_append_right, List.filter_eq_nil_iff]
  simp only [Bool.not_eq_true]

theorem textDidChange_fits_iff (text : String) {c : TravelController}
    (hc : c.searchActive = true → c.filtered = c.matching find.rangeOf) :
    ShowsMatches find (c.textDidChange text) ↔ (c.searchActive = true →
      ∀ image ∈ c.images, find.rangeOf image text = find.rangeOf image c.searchText) := by
  rw [showsMatches_iff]
  apply imp_congr_right
  intro h
  have hfiltered : (c.textDidChange text).filtered = c.matching find.rangeOf := hc h
  rw [hfiltered, eq_comm]
  exact filter_eq_filter_iff

theorem beginEditing_fits_iff (c : TravelController) :
    ShowsMatches find c.searchBarTextDidBeginEditing ↔ c.filtered = c.matching find.rangeOf := by
  rw [showsMatches_iff]
  constructor
  · intro h
    exact h rfl
  · intro h _
    exact h

theorem searchButton_showsMatches (c : TravelController) :
    ShowsMatches find (c.searchBarSearchButtonClicked find.rangeOf) := by
  unfold searchBarSearchButtonClicked
  simp only
  split
  · exact showsMatches_inactive find rfl
  · rw [showsMatches_iff]
    intro _
    rfl

theorem didSelectItemAt_showsMatches {c : TravelController} {row : ℕ}
    {result : String × TravelController}
    (h : (c.didSelectItemAt find.rangeOf row).toOption = some result) :
    ShowsMatches find result.2 := by
  rw [didSelectItemAt_snd find.rangeOf h]
  split
  · rw [showsMatches_iff]
    intro _
    rfl
  next hactive => exact showsMatches_inactive find (Bool.not_eq_true _ ▸ hactive)

theorem callback_fits_iff (c : TravelController) (e : Event) (d : TravelController)
    (hc : ShowsMatches find c) (h : callback find c e = some d) :
    ShowsMatches find d ↔ Fits find c e := by
  have hfresh := (showsMatches_iff find c).mp hc
  cases e with
  | snapshot document =>
      obtain rfl := eq_received TravelController.view h
      exact received_fits_iff find document.elements hfresh
  | textDidChange text =>
      cases h
      exact textDidChange_fits_iff find text hfresh
  | searchBarTextDidBeginEditing =>
      cases h
      exact beginEditing_fits_iff find c
  | searchBarTextDidEndEditing =>
      cases h
      exact iff_of_true (showsMatches_inactive find rfl) trivial
  | searchBarSearchButtonClicked =>
      cases h
      exact iff_of_true (searchButton_showsMatches find c) trivial
  | searchBarCancelButtonClicked =>
      cases h
      exact iff_of_true (showsMatches_inactive find rfl) trivial
  | searchBarBookmarkButtonClicked =>
      cases h
      rw [bookmark_eq_beginEditing]
      exact beginEditing_fits_iff find c
  | cellForItemAt row =>
      obtain ⟨_, _, rfl⟩ := Option.map_eq_some_iff.mp h
      exact iff_of_true hc trivial
  | didSelectItemAt row =>
      obtain ⟨result, hresult, rfl⟩ := Option.map_eq_some_iff.mp h
      exact iff_of_true (didSelectItemAt_showsMatches find hresult) trivial

/-- In every order of the callbacks, a search shows its matches throughout exactly
when each step meets its condition. -/
theorem shows_matches_iff (es : List Event) :
    Throughout (callback find) (ShowsMatches find) {} es ↔
      EachStep (callback find) (Fits find) {} es :=
  throughout_iff_eachStep (callback_fits_iff find) (showsMatches_inactive find rfl)

/-- The search field is opened and the beginning of a trip's name typed. -/
def openThenType : List Event := [
  .snapshot (.ofList "Country" ["부산"]), .searchBarTextDidBeginEditing, .textDidChange "부"]

def exactly : ContainsTest where
  rangeOf := contains
  empty image := by simp [contains]

/-- Nothing is shown although the trip matches. -/
theorem typed_match_not_shown :
    ∃ c, run (callback exactly) {} openThenType = some c ∧ c.searchActive = true ∧
      c.filtered = [] ∧ c.matching exactly.rangeOf = ["부산"] ∧
      ¬ Throughout (callback exactly) (ShowsMatches exactly) {} openThenType := by
  have hrun : run (callback exactly) {} openThenType = some {
      images := ["부산"], searchActive := true, searchText := "부" } := rfl
  refine ⟨_, hrun, rfl, rfl, rfl, ?_⟩
  intro h
  have hshown := (h _ _ List.prefix_rfl hrun rfl).1
  exact absurd hshown (by decide)

/-- The same where the view only asks for the rows it knows. -/
theorem known_rows_show_matches_iff (es : List Event) :
    Throughout (step find.rangeOf) (ShowsMatches find) {} es ↔
      EachStep (step find.rangeOf) (Fits find) {} es := by
  apply throughout_iff_eachStep _ (showsMatches_inactive find rfl)
  intro c e d hc h
  exact callback_fits_iff find c e d hc (callback_of_step find h)

end YouRoute.ShownMatches
