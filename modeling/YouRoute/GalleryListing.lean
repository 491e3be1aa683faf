import YouRoute.Controllers
import YouRoute.StepSystem
import YouRoute.StoragePaths

/-!
# The listing of the gallery

The gallery lists the folder of its images page by page. Each response either
brings a page or an error, and a page may ask for the next one. After an error no
page is asked for, but the handler does not return. It calls the completion with the
error and then again with the items so far, so the gallery shows these. A cell makes
the reference of its picture from the name of a listed item, which leads back to the
item exactly when the item stands directly in the folder and has a name on one line.
-/

namespace YouRoute
open Separators StepSystem

/-- The entries of a response. -/
structure ListPage where
  prefixes : List (List Char)
  items : List (List Char)
  pageToken : Option String

structure ListResult where
  prefixes : List StoragePath
  items : List StoragePath
  pageToken : Option String
deriving DecidableEq

/-- The references of a response, below the root of the bucket. -/
def ListResult.fromDictionary (page : ListPage) (reference : StoragePath) : ListResult where
  prefixes := page.prefixes.map fun entry =>
    reference.root.child (if entry.getLast? = some '/' then entry.dropLast else entry)
  items := page.items.map reference.root.child
  pageToken := page.pageToken

/-- One call of the completion of `listAll`. -/
inductive ListCompletion where
  | failed
  | listed (result : ListResult)
deriving DecidableEq

/-- What `listAll` has collected, and the token of the page it waits for, if it waits. -/
structure Listing where
  prefixes : List StoragePath
  items : List StoragePath
  waiting : Option (Option String)
deriving DecidableEq

namespace Listing

def listAll : Listing := ⟨[], [], some none⟩

/-- The last page has come, or what stands for it after an error. -/
def finish (s : Listing) : Listing × List ListCompletion :=
  ({ s with waiting := none }, [ListCompletion.listed ⟨s.prefixes, s.items, none⟩])

/-- The completion of one page, with its calls of the completion of all. After an error there
is no result to add and no token. -/
def paginatedCompletion (s : Listing) : Option ListResult → Listing × List ListCompletion
  | none => (s.finish.1, ListCompletion.failed :: s.finish.2)
  | some result =>
      let added := { s with
        prefixes := s.prefixes ++ result.prefixes
        items := s.items ++ result.items }
      match result.pageToken with
      | some token => ({ added with waiting := some (some token) }, [])
      | none => added.finish

end Listing

namespace GalleryController

/-- The completion that `test` passes to `listAll`; there are no items without a result. -/
def listed (c : GalleryController) : ListCompletion → GalleryController
  | .failed => { c with reported := c.images }
  | .listed result =>
      let images := c.images ++ result.items.map fun item => String.ofList item.name
      { images := images, reported := images }

end GalleryController

/-- A gallery with its listing and the calls it has had from it. -/
structure Gallery where
  controller : GalleryController
  listing : Listing
  calls : List ListCompletion
deriving DecidableEq

namespace Gallery

def appBucket : List Char := "youroutehknu.appspot.com".toList

def folder : StoragePath := (StoragePath.make appBucket none).child "images".toList

def test : Gallery := ⟨{}, Listing.listAll, []⟩

/-- A response to the request in flight, which is an error where there is no page. -/
def respond (s : Gallery) (response : Option ListPage) : Option Gallery :=
  s.listing.waiting.map fun _ =>
    let (listing, calls) := s.listing.paginatedCompletion
      (response.map fun page => ListResult.fromDictionary page folder)
    ⟨calls.foldl GalleryController.listed s.controller, listing, s.calls ++ calls⟩

/-- The names of all items that responses bring. -/
def entries (responses : List (Option ListPage)) : List (List Char) :=
  responses.flatMap fun response => (response.map ListPage.items).getD []

/-- The text that a cell makes its reference from. -/
def cellURL (name : String) : String := "gs://youroutehknu.appspot.com/images/" ++ name

end Gallery

namespace GalleryListing
open Gallery StoragePath StoragePaths

theorem items_fromDictionary (page : ListPage) :
    (ListResult.fromDictionary page folder).items =
      page.items.map (make appBucket none).child := rfl

/-- What is known of a gallery after some responses: until the last page it has only waited,
and then its listing has called it, twice if the last response was an error. -/
structure Lists (responses : List (Option ListPage)) (s : Gallery) : Prop where
  items : s.listing.items = (entries responses).map (make appBucket none).child
  waits : s.listing.waiting.isSome = true →
    s.calls = [] ∧ s.controller = {} ∧ responses.any Option.isNone = false
  completed : s.listing.waiting = none → ∃ result : ListResult,
    result.items = s.listing.items ∧ s.calls =
      (if responses.any Option.isNone then [ListCompletion.failed, ListCompletion.listed result]
        else [ListCompletion.listed result]) ∧
    s.controller.images = result.items.map (fun item => String.ofList item.name) ∧
    s.controller.reported = s.controller.images

theorem lists_test : Lists [] Gallery.test where
  items := rfl
  waits _ := ⟨rfl, rfl, rfl⟩
  completed h := nomatch h

/-- One response keeps what is known. -/
theorem respond_lists {responses : List (Option ListPage)} {s t : Gallery}
    {response : Option ListPage} (hs : Lists responses s) (h : s.respond response = some t) :
    Lists (responses ++ [response]) t := by
  obtain ⟨token, htoken, rfl⟩ := Option.map_eq_some_iff.mp h
  obtain ⟨hcalls, hcontroller, hnone⟩ := hs.waits (by rw [htoken]; rfl)
  have hentries : entries (responses ++ [response]) =
      entries responses ++ (response.map ListPage.items).getD [] := by
    rw [entries, List.flatMap_append, List.flatMap_singleton]
    rfl
  have hitems := hs.items
  cases response with
  | none =>
      rw [Option.map_none, Option.getD_none, List.append_nil] at hentries
      constructor
      · rw [hentries]
        exact hitems
      · intro hwaiting
        cases hwaiting
      · intro _
        refine ⟨⟨s.listing.prefixes, s.listing.items, none⟩, rfl, ?_, ?_, ?_⟩
        · rw [hcalls, if_pos (by simp)]
          rfl
        · rw [hcontroller]
          rfl
        · rfl
  | some page =>
      rw [Option.map_some, Option.getD_some] at hentries
      have hany : (responses ++ [some page]).any Option.isNone = false := by simp [hnone]
      have hadded : s.listing.items ++ (ListResult.fromDictionary page folder).items =
          (entries (responses ++ [some page])).map (make appBucket none).child := by
        rw [hentries, List.map_append, hitems, items_fromDictionary]
      cases hnext : page.pageToken with
      | some next =>
          have hresult : (ListResult.fromDictionary page folder).pageToken = some next := hnext
          simp only [Option.map_some, Listing.paginatedCompletion, hresult]
          constructor
          · exact hadded
          · intro _
            exact ⟨by rw [hcalls]; rfl, hcontroller, hany⟩
          · intro hwaiting
            cases hwaiting
      | none =>
          have hresult : (ListResult.fromDictionary page folder).pageToken = none := hnext
          simp only [Option.map_some, Listing.paginatedCompletion, hresult]
          constructor
          · exact hadded
          · intro hwaiting
            cases hwaiting
          · intro _
            refine ⟨⟨s.listing.prefixes ++ (ListResult.fromDictionary page folder).prefixes,
              s.listing.items ++ (ListResult.fromDictionary page folder).items, none⟩, rfl,
              ?_, ?_, ?_⟩
            · rw [hcalls, hany]
              rfl
            · rw [hcontroller]
              rfl
            · rfl

theorem lists_of_run {responses : List (Option ListPage)} {s : Gallery}
    (h : run respond Gallery.test responses = some s) : Lists responses s := by
  induction responses using List.reverseRecOn generalizing s with
  | nil =>
      obtain rfl := Option.some.inj h
      exact lists_test
  | append_singleton responses response ih =>
      obtain ⟨t, ht, hstep⟩ := run_snoc_eq_some.mp h
      exact respond_lists (ih ht) hstep

/-- After any responses the gallery shows the items of all pages before the first error, once
the listing has ended, and nothing before. It is called twice where the listing failed. -/
theorem gallery_shows_items (responses : List (Option ListPage)) (s : Gallery)
    (h : run respond Gallery.test responses = some s) :
    (s.listing.waiting.isSome = true → s.calls = [] ∧ s.controller = {}) ∧
      (s.listing.waiting = none →
        s.controller.images = (entries responses).map (fun entry =>
          String.ofList ((make appBucket none).child entry).name) ∧
        s.controller.reported = s.controller.images ∧
        s.calls.length = if responses.any Option.isNone then 2 else 1) := by
  have hs := lists_of_run h
  constructor
  · intro hwaiting
    exact ⟨(hs.waits hwaiting).1, (hs.waits hwaiting).2.1⟩
  · intro hdone
    obtain ⟨result, hitems, hcalls, himages, hreported⟩ := hs.completed hdone
    refine ⟨?_, hreported, ?_⟩
    · rw [himages, hitems, hs.items, List.map_map]
      rfl
    · rw [hcalls]
      split_ifs
      · rfl
      · rfl

/-- Two pages, and an error for the third one. -/
def twoPages : List (Option ListPage) :=
  [some ⟨[], ["images/a".toList], some "next"⟩, some ⟨[], ["images/b".toList], some "last"⟩, none]

theorem two_pages_shown : ∃ s, run respond Gallery.test twoPages = some s ∧
    (s.listing.waiting.isSome = true → s.calls = [] ∧ s.controller = {}) ∧
      (s.listing.waiting = none →
        s.controller.images = (entries twoPages).map (fun entry =>
          String.ofList ((make appBucket none).child entry).name) ∧
        s.controller.reported = s.controller.images ∧
        s.calls.length = if twoPages.any Option.isNone then 2 else 1) :=
  ⟨_, rfl, gallery_shows_items twoPages _ rfl⟩

example :
    (run respond Gallery.test twoPages).map (fun s => s.controller.images) = some ["a", "b"] := by
  decide +kernel

section Cells

variable (parseURL : List Char → Option (List Char × List (List Char)))

theorem folder_toList : "gs://youroutehknu.appspot.com/images/".toList =
    gs ++ appBucket ++ '/' :: ("images".toList ++ ['/']) := rfl

theorem toList_cellURL (name : List Char) :
    (cellURL (String.ofList name)).toList =
      gs ++ appBucket ++ '/' :: ("images".toList ++ '/' :: name) := by
  have happend : (cellURL (String.ofList name)).toList =
      gs ++ appBucket ++ '/' :: ("images".toList ++ ['/']) ++ name :=
    String.toList_append.trans (congrArg₂ (· ++ ·) folder_toList String.toList_ofList)
  rw [happend]
  simp only [List.append_assoc, List.cons_append, List.nil_append]

theorem isComponent_appBucket : IsComponent '/' appBucket := by
  constructor
  · decide
  · decide

theorem startsVisible_appBucket : StartsVisible appBucket := by
  intro c hc
  cases hc
  decide

theorem isComponent_images : IsComponent '/' "images".toList := by
  constructor
  · decide
  · decide

/-- The reference of a cell, which is in the folder. -/
theorem referenceForURL_cellURL (name : List Char) :
    referenceForURL parseURL appBucket (cellURL (String.ofList name)).toList =
      some (make appBucket (some
        ("images".toList ++ '/' :: name.takeWhile fun c => c != '\n'))) := by
  have hobject : ("images".toList ++ '/' :: name).takeWhile (fun c => c != '\n') =
      "images".toList ++ '/' :: name.takeWhile fun c => c != '\n' := rfl
  have hscan : (scanUpTo '\n' ("images".toList ++ '/' :: name)).map Prod.fst =
      some ("images".toList ++ '/' :: name.takeWhile fun c => c != '\n') := rfl
  rw [referenceForURL, toList_cellURL,
    pathFromString_bucket parseURL isComponent_appBucket startsVisible_appBucket,
    Option.bind_some, hscan]
  simp [make]

theorem notMem_getLast (entry : List Char) : '/' ∉ (components '/' entry).getLast?.getD [] := by
  cases hlast : (components '/' entry).getLast? with
  | none => exact List.not_mem_nil
  | some last => exact (isComponent_of_mem (List.mem_of_getLast? hlast)).notMem

/-- The reference of a cell leads to the item exactly when the item stands in the folder and
its name is on one line. -/
theorem cell_refers_iff (entry : List Char) :
    referenceForURL parseURL appBucket
        (cellURL (String.ofList ((make appBucket none).child entry).name)).toList =
      some ((make appBucket none).child entry) ↔
    ∃ name, components '/' entry = ["images".toList, name] ∧ '\n' ∉ name := by
  have hparts : parts ((make appBucket none).child entry) = components '/' entry :=
    parts_child _ entry
  have hname : ((make appBucket none).child entry).name =
      (components '/' entry).getLast?.getD [] := by rw [name_eq, hparts]
  rw [referenceForURL_cellURL, Option.some.injEq, hname]
  generalize htaken : ((components '/' entry).getLast?.getD []).takeWhile
    (fun c => c != '\n') = taken
  have hcell : parts (make appBucket (some ("images".toList ++ '/' :: taken))) =
      "images".toList :: components '/' taken := by
    rw [parts_make, components_append, components_of_isComponent isComponent_images]
    rfl
  constructor
  · intro h
    have hcomponents : components '/' entry = "images".toList :: components '/' taken := by
      rw [← hparts, ← h, hcell]
    by_cases hnil : taken = []
    · rw [hnil, components_nil] at hcomponents
      rw [hcomponents, hnil] at htaken
      cases htaken
    · have hslash : '/' ∉ taken := by
        intro hmem
        rw [← htaken] at hmem
        exact notMem_getLast entry ((List.takeWhile_sublist _).subset hmem)
      rw [components_of_isComponent ⟨hnil, hslash⟩] at hcomponents
      refine ⟨taken, hcomponents, ?_⟩
      intro hline
      have hstop := List.all_eq_true.mp List.all_takeWhile '\n' (htaken ▸ hline)
      simp at hstop
  · rintro ⟨name, hentry, hline⟩
    have hcomponent : IsComponent '/' name :=
      isComponent_of_mem (by rw [hentry]; exact List.mem_cons_of_mem _ List.mem_cons_self)
    have htaken' : taken = name := by
      rw [← htaken, hentry]
      have hall : ∀ c ∈ name, (c != '\n') = true := by
        intro c hc
        exact bne_iff_ne.mpr fun heq => hline (heq ▸ hc)
      have happend : (name ++ []).takeWhile (· != '\n') = name ++ [].takeWhile (· != '\n') :=
        List.takeWhile_append_of_pos hall
      simpa using happend
    refine eq_of_parts (bucket_child (make appBucket none) entry).symm ?_ ?_
    · rw [object_child_isSome]
      · rfl
      · intro hnil
        rw [hnil, components_nil] at hentry
        cases hentry
    · rw [hparts, hcell, hentry, htaken', components_of_isComponent hcomponent]

omit parseURL in
theorem cellForItemAt_eq_ok {accepts : String → Bool} {c : GalleryController} {row : ℕ}
    {name : String} (hname : c.images[row]? = some name)
    (haccepts : accepts (cellURL name) = true) :
    c.cellForItemAt accepts row = .ok ⟨none, .url (cellURL name)⟩ :=
  bind_eq_ok_iff.mpr ⟨name, forcedIndex_eq_ok_iff.mpr hname, if_pos haccepts⟩

/-- Every row of a listed gallery gets a cell whose reference the storage accepts. It is the
listed item exactly when the item stands in the folder and its name is on one line. -/
theorem cells_refer_to_items (responses : List (Option ListPage)) (s : Gallery)
    (h : run respond Gallery.test responses = some s) (hdone : s.listing.waiting = none) (row : ℕ)
    (entry : List Char) (hentry : (entries responses)[row]? = some entry) :
    ∃ url path, s.controller.cellForItemAt
        (fun url => (referenceForURL parseURL appBucket url.toList).isSome) row =
          .ok ⟨none, .url url⟩ ∧
      referenceForURL parseURL appBucket url.toList = some path ∧
      (path = (make appBucket none).child entry ↔
        ∃ name, components '/' entry = ["images".toList, name] ∧ '\n' ∉ name) := by
  have hs := lists_of_run h
  obtain ⟨result, hitems, -, himages, -⟩ := hs.completed hdone
  have hname : s.controller.images[row]? =
      some (String.ofList ((make appBucket none).child entry).name) := by
    rw [himages, hitems, hs.items, List.map_map, List.getElem?_map, hentry]
    rfl
  have haccepts := referenceForURL_cellURL parseURL ((make appBucket none).child entry).name
  refine ⟨_, _, ?_, haccepts, ?_⟩
  · refine cellForItemAt_eq_ok hname ?_
    rw [haccepts]
    rfl
  · rw [← cell_refers_iff parseURL entry, haccepts, Option.some.injEq]

theorem second_page_refers : ∃ s, run respond Gallery.test twoPages = some s ∧
    ∃ url path, s.controller.cellForItemAt
        (fun url => (referenceForURL (fun _ => none) appBucket url.toList).isSome) 1 =
          .ok ⟨none, .url url⟩ ∧
      referenceForURL (fun _ => none) appBucket url.toList = some path ∧
      (path = (make appBucket none).child "images/b".toList ↔
        ∃ name, components '/' "images/b".toList = ["images".toList, name] ∧ '\n' ∉ name) :=
  ⟨_, rfl, cells_refer_to_items (fun _ => none) twoPages _ rfl rfl 1 "images/b".toList rfl⟩

end Cells

end GalleryListing

end YouRoute
