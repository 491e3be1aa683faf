import YouRoute.CellReuse

/-!
# Opening a picture

A tap on a picture opens the story page with the picture in `rcvimage`. The gallery
looks the picture up among those bundled with the app, while its cells load it from
Storage; the tag search loads it from Storage both times. The page unwraps
`rcvimage` by force.
-/

namespace YouRoute

/-- Where images come from: `named` is `UIImage(named:)`, `content` what a download
from a URL brings, `decode` is `UIImage(data:)`, and `referenceForURL` tells the URLs
that Storage takes without raising. -/
structure Pictures (Image Data : Type) where
  named : String → Option Image
  content : String → Data
  decode : Data → Option Image
  referenceForURL : String → Bool

variable {Image Data : Type}

/-- The image a completion handler makes of the picture at a URL. -/
def Pictures.load (pictures : Pictures Image Data) (url : String) : Option Image :=
  pictures.decode (pictures.content url)

/-- The image that a cell shows once its download completed, nothing where the
binding ends the app. -/
def Pictures.shown (pictures : Pictures Image Data) :
    Except Trap CellBinding → Option (Option Image)
  | .ok ⟨_, .url url⟩ => some (pictures.load url)
  | _ => none

/-- `reference(forURL: urls[row])`: the URL whose download is started. -/
def pictureAt (referenceForURL : String → Bool) (urls : List String) (row : ℕ) :
    Except Trap String := do
  let url ← forcedIndex urls row
  if referenceForURL url then pure url else throw .invalidArgument

/-- The `rcvimage` of the page that is pushed. -/
def GalleryController.didSelectItemAt (pictures : Pictures Image Data) (c : GalleryController)
    (row : ℕ) : Except Trap (Option Image) := do
  let name ← forcedIndex c.images row
  pure (pictures.named name)

/-- The same, as the page is when the download has completed. -/
def SearchController.didSelectItemAt (pictures : Pictures Image Data) (c : SearchController)
    (row : ℕ) : Except Trap (Option Image) := do
  let url ← pictureAt pictures.referenceForURL c.filtered row
  pure (pictures.load url)

/-- What `viewDidLoad` shows in `Main_Images`, nothing where `rcvimage!` ends the
app. -/
def StoryController.viewDidLoadImage (rcvimage : Option Image) : Option (Option Image) :=
  rcvimage.map fun _ => rcvimage

namespace StoryPage
open CellReuse

theorem pictureAt_eq_ok_iff {referenceForURL : String → Bool} {urls : List String} {row : ℕ}
    {url : String} : pictureAt referenceForURL urls row = .ok url ↔
      urls[row]? = some url ∧ referenceForURL url = true := by
  unfold pictureAt
  simp only [bind_eq_ok_iff, ite_throw_eq_ok_iff, pure_eq_ok_iff, forcedIndex_eq_ok_iff]
  constructor
  · intro h
    obtain ⟨found, hfound, haccepted, rfl⟩ := h
    exact ⟨hfound, haccepted⟩
  · intro h
    exact ⟨url, h.1, h.2, rfl⟩

variable (pictures : Pictures Image Data)

theorem shown_pictureCell (url : String) :
    pictures.shown (pictureCell pictures.referenceForURL url) =
      if pictures.referenceForURL url then some (pictures.load url) else none := by
  unfold pictureCell
  split <;> rfl

theorem gallery_shown {c : GalleryController} {row : ℕ} {name : String}
    (h : c.images[row]? = some name) :
    pictures.shown (c.cellForItemAt pictures.referenceForURL row) =
      if pictures.referenceForURL (urlOf name) then some (pictures.load (urlOf name))
      else none := by
  unfold GalleryController.cellForItemAt
  rw [forcedIndex_eq_ok_iff.mpr h]
  exact shown_pictureCell pictures (urlOf name)

theorem search_shown {c : SearchController} {row : ℕ} {url : String}
    (h : c.filtered[row]? = some url) :
    pictures.shown (c.cellForItemAt pictures.referenceForURL row) =
      if pictures.referenceForURL url then some (pictures.load url) else none := by
  unfold SearchController.cellForItemAt
  rw [forcedIndex_eq_ok_iff.mpr h]
  exact shown_pictureCell pictures url

theorem gallery_pushed_iff {c : GalleryController} {row : ℕ} {rcvimage : Option Image} :
    c.didSelectItemAt pictures row = .ok rcvimage ↔
      ∃ name, c.images[row]? = some name ∧ pictures.named name = rcvimage := by
  unfold GalleryController.didSelectItemAt
  simp only [bind_eq_ok_iff, forcedIndex_eq_ok_iff, pure_eq_ok_iff]

theorem search_pushed_iff {c : SearchController} {row : ℕ} {rcvimage : Option Image} :
    c.didSelectItemAt pictures row = .ok rcvimage ↔
      ∃ url, (c.filtered[row]? = some url ∧ pictures.referenceForURL url = true) ∧
        pictures.load url = rcvimage := by
  unfold SearchController.didSelectItemAt
  simp only [bind_eq_ok_iff, pictureAt_eq_ok_iff, pure_eq_ok_iff]

/-- The page opens with the image that the row's cell shows. -/
def Opens (pushed : Except Trap (Option Image)) (shown : Option (Option Image)) : Prop :=
  ∀ rcvimage, pushed = .ok rcvimage →
    rcvimage ≠ none ∧ shown = some rcvimage ∧ StoryController.viewDidLoadImage rcvimage ≠ none

theorem viewDidLoadImage_ne_none {rcvimage : Option Image} (h : rcvimage ≠ none) :
    StoryController.viewDidLoadImage rcvimage ≠ none := by
  cases rcvimage with
  | none => exact absurd rfl h
  | some image => simp [StoryController.viewDidLoadImage]

theorem gallery_opens_iff (c : GalleryController) (row : ℕ) :
    Opens (c.didSelectItemAt pictures row)
        (pictures.shown (c.cellForItemAt pictures.referenceForURL row)) ↔
      ∀ name, c.images[row]? = some name → pictures.referenceForURL (urlOf name) = true ∧
        ∃ image, pictures.named name = some image ∧ pictures.load (urlOf name) = some image := by
  constructor
  · intro h name hname
    obtain ⟨hsome, hshown, _⟩ := h _ ((gallery_pushed_iff pictures).mpr ⟨name, hname, rfl⟩)
    rw [gallery_shown pictures hname, Option.ite_none_right_eq_some] at hshown
    obtain ⟨image, himage⟩ := Option.ne_none_iff_exists'.mp hsome
    refine ⟨hshown.1, image, himage, ?_⟩
    rw [← himage]
    exact Option.some.inj hshown.2
  · intro h rcvimage hpushed
    obtain ⟨name, hname, rfl⟩ := (gallery_pushed_iff pictures).mp hpushed
    obtain ⟨haccepted, image, hnamed, hload⟩ := h name hname
    have hsome : pictures.named name ≠ none := by simp [hnamed]
    refine ⟨hsome, ?_, viewDidLoadImage_ne_none hsome⟩
    rw [gallery_shown pictures hname, if_pos haccepted, hnamed, hload]

theorem search_opens_iff (c : SearchController) (row : ℕ) :
    Opens (c.didSelectItemAt pictures row)
        (pictures.shown (c.cellForItemAt pictures.referenceForURL row)) ↔
      ∀ url, c.filtered[row]? = some url → pictures.referenceForURL url = true →
        pictures.load url ≠ none := by
  constructor
  · intro h url hurl haccepted
    exact (h _ ((search_pushed_iff pictures).mpr ⟨url, ⟨hurl, haccepted⟩, rfl⟩)).1
  · intro h rcvimage hpushed
    obtain ⟨url, ⟨hurl, haccepted⟩, rfl⟩ := (search_pushed_iff pictures).mp hpushed
    have hsome := h url hurl haccepted
    refine ⟨hsome, ?_, viewDidLoadImage_ne_none hsome⟩
    rw [search_shown pictures hurl, if_pos haccepted]

/-- From the gallery, the page opens with the picture of the row tapped exactly when
the app bundles that picture under its name; from the tag search, exactly when what
is downloaded is an image. -/
theorem opens_tapped_iff (gallery : GalleryController) (search : SearchController) (row : ℕ) :
    (Opens (gallery.didSelectItemAt pictures row)
        (pictures.shown (gallery.cellForItemAt pictures.referenceForURL row)) ↔
      ∀ name, gallery.images[row]? = some name → pictures.referenceForURL (urlOf name) = true ∧
        ∃ image, pictures.named name = some image ∧
          pictures.load (urlOf name) = some image) ∧
    (Opens (search.didSelectItemAt pictures row)
        (pictures.shown (search.cellForItemAt pictures.referenceForURL row)) ↔
      ∀ url, search.filtered[row]? = some url → pictures.referenceForURL url = true →
        pictures.load url ≠ none) :=
  ⟨gallery_opens_iff pictures gallery row, search_opens_iff pictures search row⟩

/-- An app that bundles no picture; the bytes of a download name its picture. -/
def unbundled : Pictures String String where
  named _ := none
  content url := url
  decode data := if data = "" then none else some data
  referenceForURL url := url.toList.take 5 = "gs://".toList

def listing : GalleryController := { images := ["경주타워.jpg"], reported := ["경주타워.jpg"] }

/-- The cell shows the picture, and the page that opens ends the app. -/
theorem unbundled_picture_traps :
    listing.didSelectItemAt unbundled 0 = .ok none ∧
      StoryController.viewDidLoadImage (none : Option String) = none ∧
      unbundled.shown (listing.cellForItemAt unbundled.referenceForURL 0) =
        some (some (urlOf "경주타워.jpg")) ∧
      ¬ Opens (listing.didSelectItemAt unbundled 0)
        (unbundled.shown (listing.cellForItemAt unbundled.referenceForURL 0)) := by
  refine ⟨rfl, rfl, by decide, ?_⟩
  intro h
  exact (h none rfl).1 rfl

end StoryPage

end YouRoute
