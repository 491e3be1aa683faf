import YouRoute.SnapshotMirrors

/-!
# The trip list and its search bar

The collection view asks for the rows it obtained when it was last reloaded, so a
row is safe as long as these names are a prefix of the list that the callbacks
index. Every callback that changes this list reloads the view, but the selection
of a row: while a search is active it filters anew and does not reload.
-/

namespace YouRoute.TravelSearch
open StepSystem SnapshotMirrors TravelController

/- `rangeOf` is the containment test of the filter. -/
variable (rangeOf : String → String → Bool)

inductive Event where
  | snapshot (document : StringArraySnapshot "Country")
  | textDidChange (text : String)
  | searchBarTextDidBeginEditing
  | searchBarTextDidEndEditing
  | searchBarSearchButtonClicked
  | searchBarCancelButtonClicked
  | searchBarBookmarkButtonClicked
  | cellForItemAt (row : ℕ)
  | didSelectItemAt (row : ℕ)

/-- The view asks for rows it knows only; there is no next state where the app
ends. -/
def step (c : TravelController) : Event → Option TravelController
  | .snapshot d => deliver test c d.document
  | .textDidChange text => some (c.textDidChange text)
  | .searchBarTextDidBeginEditing => some c.searchBarTextDidBeginEditing
  | .searchBarTextDidEndEditing => some c.searchBarTextDidEndEditing
  | .searchBarSearchButtonClicked => some (c.searchBarSearchButtonClicked rangeOf)
  | .searchBarCancelButtonClicked => some (c.searchBarCancelButtonClicked rangeOf)
  | .searchBarBookmarkButtonClicked => some c.searchBarBookmarkButtonClicked
  | .cellForItemAt row =>
      if row < c.reported.length then (c.cellForItemAt row).toOption.map fun _ => c else none
  | .didSelectItemAt row =>
      if row < c.reported.length then (c.didSelectItemAt rangeOf row).toOption.map Prod.snd
      else none

/-- Each row the view knows is in range, and its selection opens the trip it
shows. -/
def Sound (c : TravelController) : Prop :=
  ∀ row (_ : row < c.reported.length),
    c.cellForItemAt row ≠ .error .indexOutOfRange ∧
      (c.didSelectItemAt rangeOf row).map Prod.fst = .ok c.reported[row]

/-- The condition on one step: a selection while a search is active finds the
rows unchanged by filtering anew. -/
def Fits (c : TravelController) : Event → Prop
  | .didSelectItemAt _ => c.searchActive = true → c.reported <+: c.matching rangeOf
  | _ => True

theorem tripCell_ne_indexOutOfRange (name : String) :
    tripCell name ≠ .error .indexOutOfRange := by
  intro h
  unfold tripCell at h
  cases hreference : documentReference name with
  | error trap =>
      rw [hreference] at h
      obtain rfl := Except.error.inj h
      exact absurd (documentReference_error hreference) (by decide)
  | ok path =>
      rw [hreference] at h
      simp [bind, Except.bind, pure, Except.pure] at h

theorem cellForItemAt_eq (c : TravelController) (row : ℕ) :
    c.cellForItemAt row = forcedIndex c.visible row >>= tripCell := by
  unfold TravelController.cellForItemAt visible
  split <;> rfl

theorem didSelectItemAt_fst (c : TravelController) (row : ℕ) :
    (c.didSelectItemAt rangeOf row).map Prod.fst = forcedIndex c.visible row := by
  unfold TravelController.didSelectItemAt visible
  split
  · cases forcedIndex c.filtered row <;> rfl
  · cases forcedIndex c.images row <;> rfl

theorem didSelectItemAt_snd {c : TravelController} {row : ℕ}
    {result : String × TravelController}
    (h : (c.didSelectItemAt rangeOf row).toOption = some result) :
    result.2 = if c.searchActive then { c with filtered := c.matching rangeOf } else c := by
  rw [toOption_eq_some_iff] at h
  unfold TravelController.didSelectItemAt at h
  split at h
  next hactive =>
      obtain ⟨_, _, hresult⟩ := bind_eq_ok_iff.mp h
      rw [if_pos hactive, ← pure_eq_ok_iff.mp hresult]
  next hactive =>
      obtain ⟨_, _, hresult⟩ := bind_eq_ok_iff.mp h
      rw [if_neg hactive, ← pure_eq_ok_iff.mp hresult]

theorem sound_iff (c : TravelController) : Sound rangeOf c ↔ c.reported <+: c.visible := by
  rw [List.prefix_iff_getElem?]
  constructor
  · intro h row hrow
    have hselect := (h row hrow).2
    rw [didSelectItemAt_fst] at hselect
    exact forcedIndex_eq_ok_iff.mp hselect
  · intro h row hrow
    have hindex := forcedIndex_eq_ok_iff.mpr (h row hrow)
    constructor
    · rw [cellForItemAt_eq, hindex]
      exact tripCell_ne_indexOutOfRange _
    · rw [didSelectItemAt_fst, hindex]

/-- What a step does to the rows known and the list indexed: a selection may
filter anew, any other step leaves both or makes them equal. -/
theorem step_cases {c d : TravelController} {e : Event} (h : step rangeOf c e = some d) :
    ((∀ row, e ≠ .didSelectItemAt row) ∧
      (d.reported = d.visible ∨ d.reported = c.reported ∧ d.visible = c.visible)) ∨
    ∃ row, e = .didSelectItemAt row ∧ d.reported = c.reported ∧
      d.visible = if c.searchActive then c.matching rangeOf else c.visible := by
  cases e with
  | snapshot document =>
      obtain rfl := eq_received TravelController.view h
      exact Or.inl ⟨by simp, Or.inl rfl⟩
  | textDidChange text =>
      cases h
      exact Or.inl ⟨by simp, Or.inr ⟨rfl, rfl⟩⟩
  | searchBarTextDidBeginEditing | searchBarTextDidEndEditing | searchBarSearchButtonClicked
  | searchBarCancelButtonClicked | searchBarBookmarkButtonClicked =>
      cases h
      exact Or.inl ⟨by simp, Or.inl rfl⟩
  | cellForItemAt row =>
      obtain ⟨_, hcell⟩ := Option.ite_none_right_eq_some.mp h
      obtain ⟨_, _, rfl⟩ := Option.map_eq_some_iff.mp hcell
      exact Or.inl ⟨by simp, Or.inr ⟨rfl, rfl⟩⟩
  | didSelectItemAt row =>
      obtain ⟨_, hselect⟩ := Option.ite_none_right_eq_some.mp h
      obtain ⟨result, hresult, rfl⟩ := Option.map_eq_some_iff.mp hselect
      have hafter := didSelectItemAt_snd rangeOf hresult
      refine Or.inr ⟨row, rfl, ?_⟩
      rw [hafter]
      cases hactive : c.searchActive with
      | false => exact ⟨rfl, by simp [visible]⟩
      | true => exact ⟨rfl, by simp [visible]⟩

theorem step_sound_iff (c : TravelController) (e : Event) (d : TravelController)
    (hc : Sound rangeOf c) (h : step rangeOf c e = some d) :
    Sound rangeOf d ↔ Fits rangeOf c e := by
  rw [sound_iff] at hc ⊢
  rcases step_cases rangeOf h with ⟨hother, hlists⟩ | ⟨row, rfl, hreported, hvisible⟩
  · have hfits : Fits rangeOf c e := by
      cases e with
      | didSelectItemAt row => exact absurd rfl (hother row)
      | _ => trivial
    have hsafe : d.reported <+: d.visible := by
      rcases hlists with hreload | ⟨hreported, hvisible⟩
      · rw [hreload]
      · rw [hreported, hvisible]
        exact hc
    exact ⟨fun _ => hfits, fun _ => hsafe⟩
  · rw [hreported, hvisible]
    unfold Fits
    cases hactive : c.searchActive with
    | false => simpa using hc
    | true => simp

/-- In every order of the callbacks, each row known is safe throughout exactly
when each selection during a search finds the rows unchanged. -/
theorem rows_sound_iff (es : List Event) :
    Throughout (step rangeOf) (Sound rangeOf) {} es ↔
      EachStep (step rangeOf) (Fits rangeOf) {} es := by
  have hopen : Sound rangeOf {} := by
    intro row hrow
    simp at hrow
  exact throughout_iff_eachStep (step_sound_iff rangeOf) hopen

/-- A trip is found, the text edited and the trip selected. -/
def editThenSelect : List Event := [
  .snapshot (.ofList "Country" ["부산"]), .searchBarTextDidBeginEditing, .textDidChange "부",
  .searchBarSearchButtonClicked, .textDidChange "서", .didSelectItemAt 0]

/-- Exact containment, which on these texts is what ignoring case comes to. -/
def contains (image text : String) : Bool := text ≠ "" ∧ text.toList <:+: image.toList

/-- The row is still shown, and selecting it once more ends the app. -/
theorem second_selection_traps :
    ∃ c, run (step contains) {} editThenSelect = some c ∧ c.reported = ["부산"] ∧
      c.didSelectItemAt contains 0 = .error .indexOutOfRange ∧
      ¬ Throughout (step contains) (Sound contains) {} editThenSelect := by
  have hrun : run (step contains) {} editThenSelect = some {
      images := ["부산"], searchActive := true, searchText := "서", reported := ["부산"] } := rfl
  refine ⟨_, hrun, rfl, rfl, ?_⟩
  intro h
  have hsound := h _ _ List.prefix_rfl hrun
  exact (hsound 0 (by decide)).1 rfl

end YouRoute.TravelSearch
