import YouRoute.SnapshotMirrors

/-!
# Documents that end the app

A handler checks that the snapshot is there and nothing else. It survives a
document exactly when the forced casts and the forced index find what they
expect: an array of strings for the listeners of lists, an array that starts with
a URL for those of cells. A document that does not exist has no field at all.
-/

namespace YouRoute.HandlerTraps

/-- The handler does not trap, and a field that is no array of strings leaves the
list as it was. -/
def Survives {σ A : Type} (listener : Option DocumentSnapshot → Handler σ A)
    (list : σ → List String) (field : String) (document : DocumentSnapshot) (c : σ) : Prop :=
  (∀ trap, ((listener (some document)).exec c).1 ≠ .error trap) ∧
  ((∀ names, ¬ document.HoldsStrings field names) →
    list ((listener (some document)).exec c).2 = list c)

theorem listener_survives_iff {σ : Type} (view : ListView σ) (field : String)
    (document : DocumentSnapshot) (c : σ) :
    Survives (view.listener field) view.list field document c ↔
      ∃ names, document.HoldsStrings field names := by
  constructor
  · intro h
    by_contra hnone
    obtain ⟨names, hfails⟩ :=
      appendListener_fails field view.append view.reloadData (not_exists.mp hnone) c
    exact h.1 .forcedCast (congrArg Prod.fst hfails)
  · intro h
    obtain ⟨names, hnames⟩ := h
    have hholds := appendListener_holds field view.append view.reloadData hnames c
    constructor
    · intro trap htrap
      rw [ListView.listener, hholds] at htrap
      simp at htrap
    · intro hnone
      exact absurd hnames (hnone names)

theorem cellListener_survives_iff {σ : Type} (list : σ → List String) (field : String)
    (referenceForURL : String → Bool) (document : DocumentSnapshot) (c : σ) :
    Survives (pictureListener field referenceForURL) list field document c ↔
      ∃ url, document.HoldsPicture field referenceForURL url := by
  constructor
  · intro h
    by_contra hnone
    obtain ⟨trap, hfails⟩ := pictureListener_fails field referenceForURL (not_exists.mp hnone) c
    exact h.1 trap (congrArg Prod.fst hfails)
  · intro h
    obtain ⟨url, hurl⟩ := h
    have hholds := pictureListener_holds field referenceForURL hurl c
    constructor
    · intro trap htrap
      rw [hholds] at htrap
      simp at htrap
    · intro _
      rw [hholds]

theorem not_holdsStrings_missing (field : String) (names : List String) :
    ¬ (DocumentSnapshot.mk none).HoldsStrings field names := by
  intro h
  simp [DocumentSnapshot.HoldsStrings, DocumentSnapshot.get] at h

def search (text : String) (document : DocumentSnapshot) : Handler SearchController Unit := do
  modify fun c => { c with searchText := text }
  let _ ← SearchController.searchBarSearchButtonClicked
  SearchController.searchListener (some document)

/-- A search for a tag without a document ends the app, whatever the text is. -/
theorem search_missing (text : String) (c : SearchController) :
    ∃ trap t, (search text ⟨none⟩).exec c = (.error trap, t) := by
  rw [search, exec_bind_ok (exec_modify _ c)]
  have hsearch := SearchController.searchBarSearchButtonClicked_exec
    { c with searchText := text }
  cases hreference : documentReference text with
  | error trap =>
      simp only [hreference, Except.map] at hsearch
      exact ⟨trap, _, exec_bind_error hsearch⟩
  | ok path =>
      simp only [hreference, Except.map] at hsearch
      rw [exec_bind_ok hsearch]
      obtain ⟨names, hfails⟩ := appendListener_fails "Picture" SearchController.view.append
        SearchController.view.reloadData (not_holdsStrings_missing "Picture")
        { c with searchText := text, images := text }
      exact ⟨.forcedCast, _, hfails⟩

/-- Which documents each handler survives. No search for a tag without a
document ends in any other way than the app does. -/
theorem handlers_survive_iff (referenceForURL : String → Bool) :
    (∀ (document : DocumentSnapshot) (c : MainController),
      (Survives MainController.test (·.images) "Country" document c ↔
        ∃ names, document.HoldsStrings "Country" names) ∧
      (Survives (MainController.cellListener referenceForURL) (·.images) "DAY-1" document c ↔
        ∃ url, document.HoldsPicture "DAY-1" referenceForURL url)) ∧
    (∀ (document : DocumentSnapshot) (c : TravelController),
      (Survives TravelController.test (·.images) "Country" document c ↔
        ∃ names, document.HoldsStrings "Country" names) ∧
      (Survives (TravelController.cellListener referenceForURL) (·.images) "DAY-1" document c ↔
        ∃ url, document.HoldsPicture "DAY-1" referenceForURL url)) ∧
    (∀ (document : DocumentSnapshot) (c : DetailController),
      (Survives DetailController.test (·.images) "DAY" document c ↔
        ∃ names, document.HoldsStrings "DAY" names) ∧
      ∀ row, Survives (DetailController.cellListener row referenceForURL) (·.images)
          (DetailController.dayField row) document c ↔
        ∃ url, document.HoldsPicture (DetailController.dayField row) referenceForURL url) ∧
    (∀ (document : DocumentSnapshot) (c : SearchController),
      Survives SearchController.searchListener (·.filtered) "Picture" document c ↔
        ∃ names, document.HoldsStrings "Picture" names) ∧
    ∀ (text : String) (c : SearchController),
      ∃ trap, ((search text ⟨none⟩).exec c).1 = .error trap := by
  refine ⟨?_, ?_, ?_, ?_, ?_⟩
  · intro document c
    exact ⟨listener_survives_iff MainController.view "Country" document c,
      cellListener_survives_iff MainController.images "DAY-1" referenceForURL document c⟩
  · intro document c
    exact ⟨listener_survives_iff TravelController.view "Country" document c,
      cellListener_survives_iff TravelController.images "DAY-1" referenceForURL document c⟩
  · intro document c
    exact ⟨listener_survives_iff DetailController.view "DAY" document c, fun row =>
      cellListener_survives_iff DetailController.images (DetailController.dayField row)
        referenceForURL document c⟩
  · intro document c
    exact listener_survives_iff SearchController.view "Picture" document c
  · intro text c
    obtain ⟨trap, t, h⟩ := search_missing text c
    exact ⟨trap, congrArg Prod.fst h⟩

/-- The tag that no document has, and an array with a number in the middle, which
leaves the list half extended. -/
theorem missing_tag_traps :
    (search "바다" ⟨none⟩).exec {} =
      (.error .forcedCast, { searchText := "바다", images := "바다" }) ∧
    (SearchController.searchListener
        (some ⟨some [("Picture", .array [.string "a", .integer, .string "b"])]⟩)).exec {} =
      (.error .forcedCast, { filtered := ["a"] }) ∧
    ¬ Survives SearchController.searchListener (·.filtered) "Picture" ⟨none⟩ {} := by
  refine ⟨rfl, rfl, ?_⟩
  intro h
  exact h.1 .forcedCast rfl

end YouRoute.HandlerTraps
