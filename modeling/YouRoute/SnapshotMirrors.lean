import YouRoute.Controllers
import YouRoute.StepSystem

/-!
# Lists fed by snapshot listeners

A listener is called with the current document and again each time the document
changes. The listeners of the controllers append each time, so after any
deliveries a list is the concatenation of all arrays delivered. It mirrors its
document exactly as long as the arrays delivered before the last one are empty.
-/

namespace YouRoute

/-- How a controller holds the list that a listener fills. -/
structure ListView (σ : Type) where
  list : σ → List String
  append : String → σ → σ
  reloadData : σ → σ
  list_append : ∀ name s, list (append name s) = list s ++ [name]
  list_reloadData : ∀ s, list (reloadData s) = list s

/-- The listener that fills the list from a field. -/
def ListView.listener {σ : Type} (view : ListView σ) (field : String) :
    Option DocumentSnapshot → Handler σ Unit :=
  appendListener field view.append view.reloadData

def MainController.view : ListView MainController where
  list c := c.images
  append name c := { c with images := c.images ++ [name] }
  reloadData := reloadData
  list_append _ _ := rfl
  list_reloadData _ := rfl

def TravelController.view : ListView TravelController where
  list c := c.images
  append name c := { c with images := c.images ++ [name] }
  reloadData := reloadData
  list_append _ _ := rfl
  list_reloadData _ := rfl

def DetailController.view : ListView DetailController where
  list c := c.images
  append name c := { c with images := c.images ++ [name] }
  reloadData := reloadData
  list_append _ _ := rfl
  list_reloadData _ := rfl

def SearchController.view : ListView SearchController where
  list c := c.filtered
  append name c := { c with filtered := c.filtered ++ [name] }
  reloadData := reloadData
  list_append _ _ := rfl
  list_reloadData _ := rfl

def StoryController.view : ListView StoryController where
  list c := c.images
  append name c := { c with images := c.images ++ [name] }
  reloadData := reloadData
  list_append _ _ := rfl
  list_reloadData _ := rfl

/-- A snapshot whose field is an array of strings. -/
structure StringArraySnapshot (field : String) where
  document : DocumentSnapshot
  elements : List String
  holds : document.HoldsStrings field elements

def StringArraySnapshot.ofList (field : String) (elements : List String) :
    StringArraySnapshot field where
  document := ⟨some [(field, .array (elements.map .string))]⟩
  elements := elements
  holds := by simp [DocumentSnapshot.HoldsStrings, DocumentSnapshot.get]

/-- One call of a listener; there is no next state where the app ends. -/
def deliver {σ : Type} (listener : Option DocumentSnapshot → Handler σ Unit) (s : σ)
    (document : DocumentSnapshot) : Option σ :=
  match (listener (some document)).exec s with
  | (.ok (), t) => some t
  | (.error _, _) => none

namespace SnapshotMirrors
open StepSystem

section View

variable {σ : Type} (view : ListView σ) {field : String}

theorem list_appendAll (names : List String) (s : σ) :
    view.list (appendAll view.append names s) = view.list s ++ names := by
  induction names generalizing s with
  | nil => simp [appendAll]
  | cons name names ih =>
      have hstep : appendAll view.append (name :: names) s =
          appendAll view.append names (view.append name s) := rfl
      rw [hstep, ih, view.list_append, List.append_assoc, List.singleton_append]

/-- The controller after a delivery. -/
def received (elements : List String) (s : σ) : σ :=
  view.reloadData (appendAll view.append elements s)

@[simp] theorem list_received (elements : List String) (s : σ) :
    view.list (received view elements s) = view.list s ++ elements := by
  rw [received, view.list_reloadData, list_appendAll]

/-- What neither the appends nor the reload change. -/
theorem received_keeps {A : Type} (f : σ → A) (happend : ∀ name s, f (view.append name s) = f s)
    (hreload : ∀ s, f (view.reloadData s) = f s) (elements : List String) (s : σ) :
    f (received view elements s) = f s := by
  unfold received
  rw [hreload]
  induction elements generalizing s with
  | nil => rfl
  | cons name elements ih => exact (ih (view.append name s)).trans (happend name s)

theorem deliver_listener (d : StringArraySnapshot field) (s : σ) :
    deliver (view.listener field) s d.document = some (received view d.elements s) := by
  have h := appendListener_holds field view.append view.reloadData d.holds s
  simp only [deliver, ListView.listener, h, received]

theorem eq_received {d : StringArraySnapshot field} {s t : σ}
    (h : deliver (view.listener field) s d.document = some t) :
    t = received view d.elements s :=
  Option.some.inj (h.symm.trans (deliver_listener view d s))

/-- The deliveries of a run are the snapshots of one listener. -/
abbrev delivery (listener : Option DocumentSnapshot → Handler σ Unit) (s : σ)
    (d : StringArraySnapshot field) : Option σ :=
  deliver listener s d.document

/-- Any deliveries leave the concatenation of what they brought. -/
theorem run_delivery (ds : List (StringArraySnapshot field)) (s : σ) :
    ∃ t, run (delivery (view.listener field)) s ds = some t ∧
      view.list t = view.list s ++ ds.flatMap (·.elements) := by
  induction ds generalizing s with
  | nil => exact ⟨s, rfl, by simp⟩
  | cons d ds ih =>
      obtain ⟨t, ht, hlist⟩ := ih (received view d.elements s)
      refine ⟨t, run_cons_eq_some.mpr ⟨_, deliver_listener view d s, ht⟩, ?_⟩
      rw [hlist, list_received, List.flatMap_cons, List.append_assoc]

end View

/-- After each delivery the list is the array just delivered. -/
def Mirrors {σ : Type} {field : String} (listener : Option DocumentSnapshot → Handler σ Unit)
    (list : σ → List String) (s : σ) (ds : List (StringArraySnapshot field)) : Prop :=
  AfterEach (delivery listener) (fun t d => list t = d.elements) s ds

/-- Every proper prefix of what is delivered lies before its last element. -/
theorem mem_dropLast_of_append {A : Type*} {pre ds : List A} {d e : A} (h : pre ++ [d] <+: ds)
    (he : e ∈ pre) : e ∈ ds.dropLast := by
  obtain ⟨rest, rfl⟩ := h
  rw [List.append_assoc, List.dropLast_append_of_ne_nil (by simp)]
  exact List.mem_append_left _ he

theorem run_snoc_mirrors {σ : Type} (view : ListView σ) {field : String} {s : σ}
    (hs : view.list s = []) (pre : List (StringArraySnapshot field))
    (d : StringArraySnapshot field) :
    ∃ t, run (delivery (view.listener field)) s (pre ++ [d]) = some t ∧
      (view.list t = d.elements ↔ ∀ e ∈ pre, e.elements = []) := by
  obtain ⟨t, ht, hlist⟩ := run_delivery view (pre ++ [d]) s
  have hconcat : view.list t = pre.flatMap (·.elements) ++ d.elements := by
    rw [hlist, hs, List.flatMap_append, List.flatMap_singleton, List.nil_append]
  refine ⟨t, ht, ?_⟩
  rw [hconcat, List.append_left_eq_self, List.flatMap_eq_nil_iff]

theorem mirrors_iff {σ : Type} (view : ListView σ) {field : String} {s : σ}
    (hs : view.list s = []) (ds : List (StringArraySnapshot field)) :
    Mirrors (view.listener field) view.list s ds ↔ ∀ d ∈ ds.dropLast, d.elements = [] := by
  constructor
  · intro h
    cases hds : ds.getLast? with
    | none =>
        rw [List.getLast?_eq_none_iff.mp hds]
        simp
    | some last =>
        have hsplit : ds.dropLast ++ [last] = ds := List.dropLast_append_getLast? last hds
        obtain ⟨t, ht, hlist⟩ := h ds.dropLast last (by rw [hsplit])
        obtain ⟨u, hu, hiff⟩ := run_snoc_mirrors view hs ds.dropLast last
        obtain rfl := Option.some.inj (ht.symm.trans hu)
        exact hiff.mp hlist
  · intro h pre d hpre
    obtain ⟨t, ht, hiff⟩ := run_snoc_mirrors view hs pre d
    exact ⟨t, ht, hiff.mpr fun e he => h e (mem_dropLast_of_append hpre he)⟩

/-- Each of the four lists mirrors its document after every delivery exactly when
every array delivered before the last one is empty. -/
theorem images_mirror_iff (main : MainController) (travel : TravelController)
    (detail : DetailController) (story : StoryController)
    (trips : List (StringArraySnapshot "Country")) (days : List (StringArraySnapshot "DAY"))
    (pictures : List (StringArraySnapshot "Picture")) :
    (Mirrors MainController.test (·.images) { main with images := [] } trips ↔
      ∀ d ∈ trips.dropLast, d.elements = []) ∧
    (Mirrors TravelController.test (·.images) { travel with images := [] } trips ↔
      ∀ d ∈ trips.dropLast, d.elements = []) ∧
    (Mirrors DetailController.test (·.images) { detail with images := [] } days ↔
      ∀ d ∈ days.dropLast, d.elements = []) ∧
    (Mirrors StoryController.predictListener (·.images) { story with images := [] } pictures ↔
      ∀ d ∈ pictures.dropLast, d.elements = []) := by
  have hmain := mirrors_iff (s := { main with images := [] }) MainController.view rfl trips
  have htravel := mirrors_iff (s := { travel with images := [] }) TravelController.view rfl trips
  have hdetail := mirrors_iff (s := { detail with images := [] }) DetailController.view rfl days
  have hstory := mirrors_iff (s := { story with images := [] }) StoryController.view rfl pictures
  exact ⟨hmain, htravel, hdetail, hstory⟩

/-- The document delivered twice is shown twice. -/
theorem second_delivery_doubles :
    run (delivery MainController.test) {}
        [StringArraySnapshot.ofList "Country" ["서울"], StringArraySnapshot.ofList "Country" ["서울"]] =
      some { images := ["서울", "서울"], reported := ["서울", "서울"] } ∧
    ¬ Mirrors MainController.test (·.images) {}
        [StringArraySnapshot.ofList "Country" ["서울"],
          StringArraySnapshot.ofList "Country" ["서울"]] := by
  refine ⟨rfl, ?_⟩
  intro h
  obtain ⟨t, ht, hlist⟩ := h [StringArraySnapshot.ofList "Country" ["서울"]]
    (StringArraySnapshot.ofList "Country" ["서울"]) List.prefix_rfl
  obtain rfl : { images := ["서울", "서울"], reported := ["서울", "서울"] } = t := Option.some.inj ht
  simp [StringArraySnapshot.ofList] at hlist

end SnapshotMirrors

end YouRoute
