import YouRoute.SnapshotMirrors
import YouRoute.StoryPage

/-!
# The main picture of a story

Each tap on a row starts a download whose completion handler overwrites the main
picture, whatever was tapped since. The main picture is right when nothing is in
flight exactly as long as the download that completes last is one for the picture
tapped last.
-/

namespace YouRoute

/-- The URL whose download is started. -/
def StoryController.didSelectItemAt (referenceForURL : String → Bool) (c : StoryController)
    (row : ℕ) : Except Trap String :=
  pictureAt referenceForURL c.images row

namespace MainPicture
open StepSystem

variable {Image Data : Type}

/-- The story page: what `Main_Images` shows, the picture tapped last and the
downloads in flight. -/
structure Page (Image : Type) where
  controller : StoryController
  rcvimage : Option Image
  mainImage : Option Image
  tapped : Option String := none
  downloads : List String := []

/-- The page after `viewDidLoad`. -/
def opened (c : StoryController) (rcvimage : Option Image) : Page Image where
  controller := c
  rcvimage := rcvimage
  mainImage := rcvimage

inductive Event where
  | snapshot (document : StringArraySnapshot "Picture")
  | didSelectItemAt (row : ℕ)
  | complete (download : ℕ)

variable (pictures : Pictures Image Data)

def step (s : Page Image) : Event → Option (Page Image)
  | .snapshot d =>
      (deliver StoryController.predictListener s.controller d.document).map fun c =>
        { s with controller := c }
  | .didSelectItemAt row =>
      (s.controller.didSelectItemAt pictures.referenceForURL row).toOption.map fun url =>
        { s with tapped := some url, downloads := s.downloads ++ [url] }
  | .complete n => s.downloads[n]?.map fun url =>
      { s with mainImage := pictures.load url, downloads := s.downloads.eraseIdx n }

/-- The image of the row tapped last, or the one the page was opened with. -/
def wanted (s : Page Image) : Option Image :=
  match s.tapped with
  | none => s.rcvimage
  | some url => pictures.load url

def Settled (s : Page Image) : Prop := s.downloads = [] → s.mainImage = wanted pictures s

/-- The condition on one step: the only download in flight completes with the image
of the row tapped last. -/
def Fits (s : Page Image) : Event → Prop
  | .complete n => ∀ url, s.downloads[n]? = some url → s.downloads.eraseIdx n = [] →
      pictures.load url = wanted pictures s
  | _ => True

theorem settled_of_flight {s : Page Image} (h : s.downloads ≠ []) : Settled pictures s := by
  intro hnone
  exact absurd hnone h

theorem step_settled_iff (s : Page Image) (e : Event) (t : Page Image) (hs : Settled pictures s)
    (h : step pictures s e = some t) : Settled pictures t ↔ Fits pictures s e := by
  cases e with
  | snapshot d =>
      obtain ⟨c, _, rfl⟩ := Option.map_eq_some_iff.mp h
      exact iff_of_true hs trivial
  | didSelectItemAt row =>
      obtain ⟨url, _, rfl⟩ := Option.map_eq_some_iff.mp h
      exact iff_of_true (settled_of_flight pictures (by simp)) trivial
  | complete n =>
      obtain ⟨url, hn, rfl⟩ := Option.map_eq_some_iff.mp h
      constructor
      · intro hsettled other hother hlast
        rw [hn] at hother
        cases hother
        exact hsettled hlast
      · intro hfits hlast
        exact hfits url hn hlast

/-- In every order of taps, completions and snapshots, the main picture is the one
tapped last whenever nothing is in flight, exactly when each completion of the only
download in flight brings that picture. -/
theorem main_picture_iff (c : StoryController) (rcvimage : Option Image) (es : List Event) :
    Throughout (step pictures) (Settled pictures) (opened c rcvimage) es ↔
      EachStep (step pictures) (Fits pictures) (opened c rcvimage) es :=
  throughout_iff_eachStep (step_settled_iff pictures) fun _ => rfl

/-- Two rows are tapped, and the downloads complete the other way round. -/
def crossed : List Event :=
  [.didSelectItemAt 0, .didSelectItemAt 1, .complete 1, .complete 0]

def twoRows : StoryController := { images := ["gs://a", "gs://b"], reported := ["gs://a", "gs://b"] }

theorem first_tap_stays :
    ∃ s, run (step StoryPage.unbundled) (opened twoRows (some "gs://c")) crossed = some s ∧
      s.downloads = [] ∧ s.tapped = some "gs://b" ∧ s.mainImage = some "gs://a" ∧
      ¬ Throughout (step StoryPage.unbundled) (Settled StoryPage.unbundled)
        (opened twoRows (some "gs://c")) crossed := by
  have hrun : run (step StoryPage.unbundled) (opened twoRows (some "gs://c")) crossed = some {
      controller := twoRows, rcvimage := some "gs://c", mainImage := some "gs://a",
      tapped := some "gs://b" } := by
    rfl
  refine ⟨_, hrun, rfl, rfl, rfl, ?_⟩
  intro h
  have hmain := h _ _ List.prefix_rfl hrun rfl
  exact absurd hmain (by decide)

/-- The download started last is for the row tapped last. -/
def Ordered (s : Page Image) : Prop :=
  ∀ url, s.downloads.getLast? = some url → s.tapped = some url

theorem step_ordered {s t : Page Image} {e : Event} (hs : Ordered s ∧ Settled pictures s)
    (h : step pictures s e = some t) (he : ∀ n, e = .complete n → n = 0) :
    Ordered t ∧ Settled pictures t := by
  cases e with
  | snapshot d =>
      obtain ⟨c, _, rfl⟩ := Option.map_eq_some_iff.mp h
      exact hs
  | didSelectItemAt row =>
      obtain ⟨url, _, rfl⟩ := Option.map_eq_some_iff.mp h
      refine ⟨?_, settled_of_flight pictures (by simp)⟩
      intro last hlast
      simpa using hlast
  | complete n =>
      obtain ⟨url, hn, rfl⟩ := Option.map_eq_some_iff.mp h
      obtain rfl := he n rfl
      cases hdownloads : s.downloads with
      | nil => simp [hdownloads] at hn
      | cons first rest =>
          have hfirst : first = url := by simpa [hdownloads] using hn
          have hlast := hs.1
          rw [Ordered, hdownloads, List.getLast?_cons] at hlast
          constructor
          · intro last hrest
            apply hlast
            have hrest' : rest.getLast? = some last := hrest
            rw [hrest', Option.getD_some]
          · intro hnone
            have hrest : rest = [] := hnone
            have htapped : s.tapped = some url := by
              apply hlast
              rw [hrest, hfirst]
              rfl
            simp only [wanted, htapped]

/-- Downloads that complete in the order of the taps leave the right picture. -/
theorem main_picture_in_order (c : StoryController) (rcvimage : Option Image) (es : List Event)
    (h : ∀ n, .complete n ∈ es → n = 0) :
    Throughout (step pictures) (Settled pictures) (opened c rcvimage) es := by
  have heach : EachStep (step pictures) (fun _ e => ∀ n, e = .complete n → n = 0)
      (opened c rcvimage) es := by
    intro pre e s t hpre _ _ n hn
    apply h n
    rw [← hn]
    exact hpre.subset (by simp)
  have hopen : Ordered (opened c rcvimage) ∧ Settled pictures (opened c rcvimage) := by
    constructor
    · intro url hlast
      simp [opened] at hlast
    · intro _
      rfl
  have hboth := throughout_of_eachStep (fun _ _ _ hs ht he => step_ordered pictures hs ht he)
    hopen heach
  intro pre s hpre hs
  exact (hboth pre s hpre hs).2

end MainPicture

end YouRoute
