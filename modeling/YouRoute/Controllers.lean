import YouRoute.Firestore
import Mathlib.Data.Finset.Basic
import Mathlib.Data.Finset.Insert

/-!
# The view controllers

Each controller is a record of the variables that its callbacks read and write.
`reported` stands for its collection view: the rows that the view obtained when
it was last reloaded. A callback that indexes a list or makes a reference ends in a
trap where the index is out of range or the reference is refused.
-/

namespace YouRoute

/-- Where a cell's picture comes from: the first URL of a document's field, read
by a snapshot listener, or a URL known when the cell is bound. -/
inductive PictureSource where
  | document (collection document field : String)
  | url (url : String)
  deriving DecidableEq, Repr

/-- What `cellForItemAt` does to the cell of a row: the label it sets, if it sets
one, and the picture it asks for. -/
structure CellBinding where
  label : Option String
  source : PictureSource
  deriving DecidableEq, Repr

/-- A cell whose label names the trip that its picture is read from. -/
def tripCell (name : String) : Except Trap CellBinding := do
  let _ ← documentReference name
  pure ⟨some name, .document name name "DAY-1"⟩

/-- A cell that shows the picture at a URL. `referenceForURL` tells the URLs that
Storage takes without raising. -/
def pictureCell (referenceForURL : String → Bool) (url : String) : Except Trap CellBinding :=
  if referenceForURL url then pure ⟨none, .url url⟩ else throw .invalidArgument

structure MainController where
  images : List String := []
  reported : List String := []
  deriving DecidableEq, Repr

namespace MainController

def reloadData (c : MainController) : MainController := { c with reported := c.images }

/-- The snapshot listener added by `test`. -/
def test : Option DocumentSnapshot → Handler MainController Unit :=
  appendListener "Country" (fun name c => { c with images := c.images ++ [name] }) reloadData

def cellForItemAt (c : MainController) (row : ℕ) : Except Trap CellBinding := do
  tripCell (← forcedIndex c.images row)

/-- The snapshot listener added for a cell. -/
def cellListener (referenceForURL : String → Bool) :
    Option DocumentSnapshot → Handler MainController (Option String) :=
  pictureListener "DAY-1" referenceForURL

end MainController

structure TravelController where
  images : List String := []
  filtered : List String := []
  searchActive : Bool := false
  searchText : String := ""
  reported : List String := []
  deriving DecidableEq, Repr

namespace TravelController

/-- The list the collection view shows. -/
def visible (c : TravelController) : List String :=
  if c.searchActive then c.filtered else c.images

def reloadData (c : TravelController) : TravelController := { c with reported := c.visible }

def test : Option DocumentSnapshot → Handler TravelController Unit :=
  appendListener "Country" (fun name c => { c with images := c.images ++ [name] }) reloadData

def numberOfItemsInSection (c : TravelController) : ℕ :=
  if c.searchActive then c.filtered.length else c.images.length

section Search

/- `rangeOf image text` says that `NSString.range(of:options:)` finds the text in
the name, ignoring case. -/
variable (rangeOf : String → String → Bool)

/-- The filter expression that the callbacks share. -/
def matching (c : TravelController) : List String :=
  c.images.filter fun image => rangeOf image c.searchText

def textDidChange (c : TravelController) (text : String) : TravelController :=
  { c with searchText := text }

def searchBarCancelButtonClicked (c : TravelController) : TravelController :=
  let c := { c with searchActive := false }
  let c := { c with filtered := c.matching rangeOf }
  let c := { c with filtered := [], searchText := "" }
  c.reloadData

def searchBarSearchButtonClicked (c : TravelController) : TravelController :=
  let c := { c with searchActive := false }
  let c := { c with filtered := c.matching rangeOf }
  let c := if c.filtered.length = 0 then { c with searchActive := false }
    else { c with searchActive := true }
  c.reloadData

def searchBarTextDidBeginEditing (c : TravelController) : TravelController :=
  { c with searchActive := true }.reloadData

def searchBarTextDidEndEditing (c : TravelController) : TravelController :=
  { c with searchActive := false }.reloadData

def searchBarBookmarkButtonClicked (c : TravelController) : TravelController :=
  let c := if !c.searchActive then { c with searchActive := true } else c
  c.reloadData

def cellForItemAt (c : TravelController) (row : ℕ) : Except Trap CellBinding := do
  if c.searchActive then tripCell (← forcedIndex c.filtered row)
  else tripCell (← forcedIndex c.images row)

/-- The name passed to the detail screen, and the controller afterwards. -/
def didSelectItemAt (c : TravelController) (row : ℕ) :
    Except Trap (String × TravelController) := do
  if c.searchActive then
    let rcvlabel ← forcedIndex c.filtered row
    pure (rcvlabel, { c with filtered := c.matching rangeOf })
  else
    let rcvlabel ← forcedIndex c.images row
    pure (rcvlabel, c)

end Search

def cellListener (referenceForURL : String → Bool) :
    Option DocumentSnapshot → Handler TravelController (Option String) :=
  pictureListener "DAY-1" referenceForURL

end TravelController

/-- `rcvlabel` is set by the controller that pushes this one. -/
structure DetailController where
  rcvlabel : String
  images : List String := []
  reported : List String := []
  deriving DecidableEq, Repr

namespace DetailController

def reloadData (c : DetailController) : DetailController := { c with reported := c.images }

def test : Option DocumentSnapshot → Handler DetailController Unit :=
  appendListener "DAY" (fun name c => { c with images := c.images ++ [name] }) reloadData

/-- The field that holds the pictures of a row's day. -/
def dayField (row : ℕ) : String := "DAY-" ++ toString (row + 1)

def cellForItemAt (c : DetailController) (row : ℕ) : Except Trap CellBinding := do
  let _ ← documentReference c.rcvlabel
  let name ← forcedIndex c.images row
  pure ⟨some name, .document c.rcvlabel c.rcvlabel (dayField row)⟩

def cellListener (row : ℕ) (referenceForURL : String → Bool) :
    Option DocumentSnapshot → Handler DetailController (Option String) :=
  pictureListener (dayField row) referenceForURL

end DetailController

/-- `images` is the tag searched last, `filtered` the list shown. -/
structure SearchController where
  images : String := ""
  filtered : List String := []
  searchText : String := ""
  reported : List String := []
  deriving DecidableEq, Repr

namespace SearchController

def reloadData (c : SearchController) : SearchController := { c with reported := c.filtered }

def searchBarCancelButtonClicked (c : SearchController) : SearchController :=
  { c with filtered := [], searchText := "" }.reloadData

/-- The result is the tag whose document gets a listener. -/
def searchBarSearchButtonClicked : Handler SearchController String := do
  modify fun c => { c with images := c.searchText }
  let c ← get
  let _ ← MonadExcept.ofExcept (documentReference c.images)
  return c.images

/-- The tag is recorded before its reference is made. -/
theorem searchBarSearchButtonClicked_exec (c : SearchController) :
    searchBarSearchButtonClicked.exec c =
      ((documentReference c.searchText).map fun _ => c.searchText,
        { c with images := c.searchText }) := by
  have hreference := exec_ofExcept (documentReference c.searchText)
    ({ c with images := c.searchText } : SearchController)
  rw [searchBarSearchButtonClicked, exec_bind_ok (exec_modify _ c), exec_bind_ok (exec_get _)]
  cases hname : documentReference c.searchText with
  | error trap =>
      rw [hname] at hreference
      exact exec_bind_error hreference
  | ok path =>
      rw [hname] at hreference
      exact exec_bind_ok hreference

/-- The listener added by a search. -/
def searchListener : Option DocumentSnapshot → Handler SearchController Unit :=
  appendListener "Picture" (fun name c => { c with filtered := c.filtered ++ [name] }) reloadData

def cellForItemAt (referenceForURL : String → Bool) (c : SearchController) (row : ℕ) :
    Except Trap CellBinding := do
  pictureCell referenceForURL (← forcedIndex c.filtered row)

end SearchController

structure GalleryController where
  images : List String := []
  reported : List String := []
  deriving DecidableEq, Repr

def GalleryController.cellForItemAt (referenceForURL : String → Bool) (c : GalleryController)
    (row : ℕ) : Except Trap CellBinding := do
  let name ← forcedIndex c.images row
  pictureCell referenceForURL ("gs://youroutehknu.appspot.com/images/" ++ name)

/-- One overlay; it is hidden when it is made. -/
structure BoundingBox where
  isHidden : Bool := true
  deriving DecidableEq, Repr

def BoundingBox.hide (b : BoundingBox) : BoundingBox := { b with isHidden := true }

/-- `labelArray` is the set of labels detected so far, `label1` the text shown. -/
structure StoryController where
  images : List String := []
  reported : List String := []
  labelArray : Finset String := ∅
  tag : String := ""
  boundingBoxes : List BoundingBox := []
  label1 : String := ""
  deriving DecidableEq

namespace StoryController

def reloadData (c : StoryController) : StoryController := { c with reported := c.images }

/-- The snapshot listener added by `predict`. -/
def predictListener : Option DocumentSnapshot → Handler StoryController Unit :=
  appendListener "Picture" (fun name c => { c with images := c.images ++ [name] }) reloadData

def cellForItemAt (referenceForURL : String → Bool) (c : StoryController) (row : ℕ) :
    Except Trap CellBinding := do
  pictureCell referenceForURL (← forcedIndex c.images row)

end StoryController

end YouRoute
