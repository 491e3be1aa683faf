import YouRoute.Controllers

/-!
# Texts and labels as references

The text of a search is used as it is for the path of a collection and of a
document, so the search raises for a text without exactly an odd number of
segments. The label of a classified photo goes through a list of three places; any
other label becomes the empty path, which is no collection.
-/

namespace YouRoute

/-- The tag of a classified photo. `equal` is Swift's equality of strings, which
takes canonically equivalent ones for the same. -/
def StoryController.ttag (equal : String → String → Bool) (predictedLabel : String) : String :=
  if equal predictedLabel "감은사지" then "감은사지"
  else if equal predictedLabel "경주타워" then "경주타워"
  else if equal predictedLabel "불국사" then "불국사"
  else ""

/-- `predict()`: the text of `label`, and the tag whose document gets a listener.
There is no label where the photo has no pixels or the classifier fails. -/
def StoryController.predict (equal : String → String → Bool) (classLabel : Option String) :
    Handler String (Option String) := do
  let some predictedLabel := classLabel | return none
  set predictedLabel
  let ttag := ttag equal predictedLabel
  let _ ← MonadExcept.ofExcept (documentReference ttag)
  return some ttag

namespace References

/-- The call did not raise. -/
def Valid {A : Type} (result : Except Trap A) : Prop := ∃ a, result = .ok a

/-- A text that is a collection's path is a document's path in it. -/
theorem documentReference_valid_iff (name : String) :
    Valid (documentReference name) ↔ IsCollectionPath name := by
  constructor
  · intro h
    obtain ⟨path, hpath⟩ := h
    obtain ⟨parent, hparent, _⟩ := bind_eq_ok_iff.mp hpath
    exact (collection_ok_iff.mp hparent).1
  · intro h
    exact ⟨_, documentReference_of_collection (collection_ok_iff.mpr ⟨h, rfl⟩)⟩

theorem valid_map_iff {A B : Type} (f : A → B) (result : Except Trap A) :
    Valid (result.map f) ↔ Valid result := by
  cases result with
  | error trap => simp [Valid, Except.map]
  | ok a => simp [Valid, Except.map]

theorem predict_exec (equal : String → String → Bool) (predictedLabel text : String) :
    (StoryController.predict equal (some predictedLabel)).exec text =
      ((documentReference (StoryController.ttag equal predictedLabel)).map fun _ =>
        some (StoryController.ttag equal predictedLabel), predictedLabel) := by
  have hset : (set predictedLabel : Handler String PUnit).exec text = (.ok ⟨⟩, predictedLabel) := rfl
  have hreference := exec_ofExcept
    (documentReference (StoryController.ttag equal predictedLabel)) predictedLabel
  simp only [StoryController.predict]
  rw [exec_bind_ok hset]
  cases hname : documentReference (StoryController.ttag equal predictedLabel) with
  | error trap =>
      rw [hname] at hreference
      exact exec_bind_error hreference
  | ok path =>
      rw [hname] at hreference
      exact exec_bind_ok hreference

theorem ttag_isCollectionPath_iff (equal : String → String → Bool) (predictedLabel : String) :
    IsCollectionPath (StoryController.ttag equal predictedLabel) ↔
      equal predictedLabel "감은사지" = true ∨ equal predictedLabel "경주타워" = true ∨
        equal predictedLabel "불국사" = true := by
  unfold StoryController.ttag
  split_ifs with h₁ h₂ h₃
  · exact iff_of_true (by decide +kernel) (Or.inl h₁)
  · exact iff_of_true (by decide +kernel) (Or.inr (Or.inl h₂))
  · exact iff_of_true (by decide +kernel) (Or.inr (Or.inr h₃))
  · exact iff_of_false (by decide +kernel) (by tauto)

/-- A search raises nothing exactly when its text is the path of a collection, and
the story page raises nothing exactly when its photo is of one of three places or
was not classified. -/
theorem references_valid_iff (equal : String → String → Bool) (c : SearchController)
    (classLabel : Option String) (text : String) :
    (Valid (SearchController.searchBarSearchButtonClicked.exec c).1 ↔
      IsCollectionPath c.searchText) ∧
    (Valid ((StoryController.predict equal classLabel).exec text).1 ↔
      ∀ label, classLabel = some label → equal label "감은사지" = true ∨
        equal label "경주타워" = true ∨ equal label "불국사" = true) := by
  constructor
  · rw [SearchController.searchBarSearchButtonClicked_exec, valid_map_iff,
      documentReference_valid_iff]
  · cases classLabel with
    | none =>
        apply iff_of_true
        · exact ⟨none, rfl⟩
        · simp
    | some predictedLabel =>
        rw [predict_exec, valid_map_iff, documentReference_valid_iff, ttag_isCollectionPath_iff]
        simp

/-- A text with a slash, and a place the classifier knows and the list does not. -/
theorem unchecked_references_raise :
    (SearchController.searchBarSearchButtonClicked.exec { searchText := "경주/불국사" }).1 =
        .error .invalidArgument ∧
      ((StoryController.predict (fun s t => s = t) (some "첨성대")).exec "").1 =
        .error .invalidArgument := by
  constructor
  · rfl
  · rfl

end References

end YouRoute
