import YouRoute.AsyncSlots
import YouRoute.Controllers
import YouRoute.StepSystem

/-!
# Reused cells and their pictures

`cellForItemAt` binds a cell to a row and asks for the row's picture. The closures
that receive the picture hold on to the cell and do not ask which row it shows by
then, so the pool of cells is a family of asynchronous slots: the picture that
arrives last stays.
-/

namespace YouRoute

/-- A collection view: the binding of a cell to a row and the listener that a
binding adds. -/
structure Screen (σ : Type) where
  cellForItemAt : σ → ℕ → Except Trap CellBinding
  cellListener : ℕ → Option DocumentSnapshot → Handler σ (Option String)

inductive ScreenName where
  | main
  | travel
  | detail
  | gallery
  | search
  | story
  deriving DecidableEq, Repr

namespace ScreenName

abbrev Controller : ScreenName → Type
  | main => MainController
  | travel => TravelController
  | detail => DetailController
  | gallery => GalleryController
  | search => SearchController
  | story => StoryController

/-- The last three screens know the URL when they bind a cell and add no
listener. -/
def screen (referenceForURL : String → Bool) : (name : ScreenName) → Screen name.Controller
  | main => ⟨MainController.cellForItemAt, fun _ => MainController.cellListener referenceForURL⟩
  | travel =>
      ⟨TravelController.cellForItemAt, fun _ => TravelController.cellListener referenceForURL⟩
  | detail =>
      ⟨DetailController.cellForItemAt, fun row => DetailController.cellListener row referenceForURL⟩
  | gallery => ⟨GalleryController.cellForItemAt referenceForURL, fun _ _ => pure none⟩
  | search => ⟨SearchController.cellForItemAt referenceForURL, fun _ _ => pure none⟩
  | story => ⟨StoryController.cellForItemAt referenceForURL, fun _ _ => pure none⟩

end ScreenName

namespace CellReuse
open StepSystem

/-- `image` is the URL of the picture shown. -/
structure Cell where
  label : Option String := none
  image : Option String := none
  deriving DecidableEq, Repr

/-- A call of `cellForItemAt`. `requested` is the URL of the row's picture: the one
known then, or the one that the row's document named last. -/
structure Binding (ι : Type) where
  cell : ι
  row : ℕ
  requested : Option String
  deriving DecidableEq, Repr

/-- The cells, the calls of `cellForItemAt` so far and the downloads in flight,
each with the cell that its closure captured. -/
structure Pool (ι : Type) where
  cells : ι → Cell := fun _ => {}
  bindings : List (Binding ι) := []
  downloads : List (ι × String) := []

/-- A binding is made by a controller in any state. -/
inductive Event (σ ι : Type) where
  | bind (cell : ι) (c : σ) (row : ℕ)
  | deliver (binding : ℕ) (c : σ) (document : DocumentSnapshot)
  | complete (download : ℕ)

variable {σ ι : Type} [DecidableEq ι]

/-- `cell?.label.text = text`, on the screens that set it. -/
def Pool.setLabel (p : Pool ι) (cell : ι) (label : Option String) : ι → Cell :=
  Function.update p.cells cell { p.cells cell with label := label <|> (p.cells cell).label }

def Pool.setImage (p : Pool ι) (cell : ι) (url : String) : ι → Cell :=
  Function.update p.cells cell { p.cells cell with image := some url }

def step (screen : Screen σ) (p : Pool ι) : Event σ ι → Option (Pool ι)
  | .bind cell c row =>
      match screen.cellForItemAt c row with
      | .ok ⟨label, .url url⟩ => some {
          cells := p.setLabel cell label
          bindings := p.bindings ++ [⟨cell, row, some url⟩]
          downloads := p.downloads ++ [(cell, url)] }
      | .ok ⟨label, .document _ _ _⟩ => some { p with
          cells := p.setLabel cell label
          bindings := p.bindings ++ [⟨cell, row, none⟩] }
      | .error _ => none
  | .deliver n c document =>
      p.bindings[n]?.bind fun b =>
        match (screen.cellListener b.row (some document)).exec c with
        | (.ok (some url), _) => some { p with
            bindings := p.bindings.set n { b with requested := some url }
            downloads := p.downloads ++ [(b.cell, url)] }
        | (.ok none, _) => some p
        | (.error _, _) => none
  | .complete n =>
      p.downloads[n]?.map fun download => { p with
        cells := p.setImage download.1 download.2
        downloads := p.downloads.eraseIdx n }

def lastFor : List (Binding ι) → ι → Option (Binding ι)
  | [], _ => none
  | b :: bs, cell => (lastFor bs cell).or (if b.cell = cell then some b else none)

/-- Once nothing is in flight and every listener has been called, each cell shows
the picture of the row it is bound to. -/
def Settled (p : Pool ι) : Prop :=
  p.downloads = [] → (∀ b ∈ p.bindings, b.requested ≠ none) →
    ∀ cell b, lastFor p.bindings cell = some b →
      (p.cells cell).image = b.requested ∧ (p.cells cell).image ≠ none

/-- The condition on one step: a picture that arrives is the one its cell's row
asked for last, or that one is still in flight, or the row has not asked yet. -/
def Fits (p : Pool ι) : Event σ ι → Prop
  | .complete n => ∀ cell url, p.downloads[n]? = some (cell, url) →
      ∀ b w, lastFor p.bindings cell = some b → b.requested = some w →
        w = url ∨ (cell, w) ∈ p.downloads.eraseIdx n
  | _ => True

/-- The pool as slots: a cell wants the picture of the row it is bound to. -/
def slots (p : Pool ι) : AsyncSlots.State ι String where
  wanted cell := (lastFor p.bindings cell).bind (·.requested)
  shown cell := (p.cells cell).image
  outstanding := p.downloads

theorem lastFor_append (bs : List (Binding ι)) (b : Binding ι) (cell : ι) :
    lastFor (bs ++ [b]) cell = if b.cell = cell then some b else lastFor bs cell := by
  induction bs with
  | nil => simp [lastFor]
  | cons d bs ih =>
      simp only [List.cons_append, lastFor, ih]
      split <;> simp

theorem mem_of_lastFor {bs : List (Binding ι)} {cell : ι} {b : Binding ι}
    (h : lastFor bs cell = some b) : b ∈ bs := by
  induction bs with
  | nil => simp [lastFor] at h
  | cons d bs ih =>
      rcases Option.or_eq_some_iff.mp h with htail | ⟨_, hhead⟩
      · exact List.mem_cons_of_mem d (ih htail)
      · obtain ⟨_, hd⟩ := Option.ite_none_right_eq_some.mp hhead
        cases hd
        exact List.mem_cons_self

/-- Changing a binding changes what its cell is bound to, or nothing where the
cell has been bound again. -/
theorem lastFor_set {bs : List (Binding ι)} {n : ℕ} {b : Binding ι} (hn : bs[n]? = some b)
    (requested : Option String) :
    (∀ cell, lastFor (bs.set n { b with requested }) cell =
      if b.cell = cell then some { b with requested } else lastFor bs cell) ∨
    ∀ cell, lastFor (bs.set n { b with requested }) cell = lastFor bs cell := by
  induction bs generalizing n with
  | nil => simp at hn
  | cons d bs ih =>
      cases n with
      | zero =>
          obtain rfl : d = b := by simpa using hn
          cases hlater : lastFor bs d.cell with
          | none =>
              refine Or.inl fun cell => ?_
              simp only [List.set_cons_zero, lastFor]
              split
              next h =>
                  subst h
                  simp [hlater]
              next => simp
          | some later =>
              refine Or.inr fun cell => ?_
              simp only [List.set_cons_zero, lastFor]
              split
              next h =>
                  subst h
                  simp [hlater]
              next h => rfl
      | succ n =>
          have hn' : bs[n]? = some b := by simpa using hn
          rcases ih hn' with hchanged | hsame
          · refine Or.inl fun cell => ?_
            simp only [List.set_cons_succ, lastFor, hchanged cell]
            split <;> simp
          · refine Or.inr fun cell => ?_
            simp only [List.set_cons_succ, lastFor, hsame cell]

theorem setLabel_image (p : Pool ι) (cell : ι) (label : Option String) (i : ι) :
    (p.setLabel cell label i).image = (p.cells i).image := by
  by_cases hi : i = cell
  · subst hi
    simp [Pool.setLabel]
  · simp [Pool.setLabel, Function.update_of_ne hi]

theorem setImage_image (p : Pool ι) (cell : ι) (url : String) :
    (fun i => (p.setImage cell url i).image) =
      Function.update (fun i => (p.cells i).image) cell (some url) := by
  funext i
  by_cases hi : i = cell
  · subst hi
    simp [Pool.setImage]
  · simp [Pool.setImage, Function.update_of_ne hi]

/-- A cell that is bound to something else wants something else. -/
theorem wanted_update {bound bound' : ι → Option (Binding ι)} {b : Binding ι}
    (h : ∀ cell, bound' cell = if b.cell = cell then some b else bound cell) :
    (fun cell => (bound' cell).bind (·.requested)) =
      Function.update (fun cell => (bound cell).bind (·.requested)) b.cell b.requested := by
  funext cell
  rw [h]
  by_cases hcell : cell = b.cell
  · subst hcell
    simp
  · rw [Function.update_of_ne hcell, if_neg (fun h => hcell h.symm)]

theorem wanted_append (bs : List (Binding ι)) (b : Binding ι) :
    (fun cell => (lastFor (bs ++ [b]) cell).bind (·.requested)) =
      Function.update (fun cell => (lastFor bs cell).bind (·.requested)) b.cell b.requested :=
  wanted_update (lastFor_append bs b)

/-- A binding is a slot that waits or asks, a delivery is a slot that asks, for
what it wants or for what it wanted before, and a completion is a request that
finishes. -/
theorem step_refines {screen : Screen σ} {p q : Pool ι} {e : Event σ ι}
    (h : step screen p e = some q) (hfits : Fits p e) :
    slots q = slots p ∨ ∃ d, AsyncSlots.step (slots p) d = some (slots q) ∧
      AsyncSlots.Fits (slots p) d := by
  cases e with
  | bind cell c row =>
      simp only [step] at h
      split at h
      next label url _ =>
          cases h
          refine Or.inr ⟨.request cell url, ?_, trivial⟩
          simp only [AsyncSlots.step, slots, wanted_append, setLabel_image]
      next label _ _ _ _ =>
          cases h
          refine Or.inr ⟨.await cell, ?_, trivial⟩
          simp only [AsyncSlots.step, slots, wanted_append, setLabel_image]
      next => simp at h
  | deliver n c document =>
      obtain ⟨b, hb, hlistener⟩ := Option.bind_eq_some_iff.mp h
      split at hlistener
      next url _ _ =>
          cases hlistener
          refine Or.inr ?_
          rcases lastFor_set hb (some url) with hchanged | hsame
          · refine ⟨.request b.cell url, ?_, trivial⟩
            have hwanted := wanted_update (b := { b with requested := some url }) hchanged
            simp only [AsyncSlots.step, slots, hwanted]
          · refine ⟨.issue b.cell url, ?_, trivial⟩
            simp only [AsyncSlots.step, slots, hsame]
      next =>
          cases hlistener
          exact Or.inl rfl
      next => simp at hlistener
  | complete n =>
      obtain ⟨⟨cell, url⟩, hn, rfl⟩ := Option.map_eq_some_iff.mp h
      refine Or.inr ⟨.finish n, ?_, ?_⟩
      · simp only [AsyncSlots.step, slots, hn, Option.map_some, setImage_image]
      · intro i k hik w hw
        obtain ⟨b, hb, hrequested⟩ := Option.bind_eq_some_iff.mp hw
        exact hfits i k hik b w hb hrequested

theorem settled_of_covered {p : Pool ι} (h : AsyncSlots.Covered (slots p)) : Settled p := by
  intro hdownloads hrequested cell b hb
  cases hurl : b.requested with
  | none => exact absurd hurl (hrequested b (mem_of_lastFor hb))
  | some url =>
      have hwanted : (slots p).wanted cell = some url := by
        simp only [slots, hb, Option.bind_some, hurl]
      have hshown : (p.cells cell).image = some url := h.settled hdownloads cell url hwanted
      exact ⟨hshown, by simp [hshown]⟩

/-- On each of the six screens, in every order of bindings, deliveries and
completions, the cells are right whenever nothing is in flight, as long as no
completion overwrites the last picture that a row asked for. -/
theorem cells_settled (referenceForURL : String → Bool) (name : ScreenName)
    (es : List (Event name.Controller ι))
    (h : EachStep (step (name.screen referenceForURL)) Fits {} es) :
    Throughout (step (name.screen referenceForURL)) Settled {} es := by
  have hempty : AsyncSlots.Covered (slots ({} : Pool ι)) := by
    intro cell url hwanted
    simp [slots, lastFor] at hwanted
  have hrefines : ∀ (p : Pool ι) (e : Event name.Controller ι) (q : Pool ι),
      step (name.screen referenceForURL) p e = some q → Fits p e →
        slots q = slots p ∨ ∃ d, AsyncSlots.step (slots p) d = some (slots q) ∧
          AsyncSlots.Fits (slots p) d :=
    fun _ _ _ => step_refines
  have hcovered := throughout_of_refines hrefines
    (fun _ _ _ hs ht hfits => AsyncSlots.step_covered hs ht hfits) hempty h
  intro pre q hpre hq
  exact settled_of_covered (hcovered pre q hpre hq)

def twoPictures : GalleryController := { images := ["a", "b"], reported := ["a", "b"] }

def urlOf (name : String) : String := "gs://youroutehknu.appspot.com/images/" ++ name

/-- A cell is bound to the first row and reused for the second. -/
def reuse : List (Event GalleryController (Fin 1)) := [.bind 0 twoPictures 0, .bind 0 twoPictures 1]

theorem cells_settled_in_order :
    Throughout (step (ScreenName.gallery.screen fun _ => true)) Settled {}
      (reuse ++ [.complete 0, .complete 0]) := by
  apply cells_settled (fun _ => true) .gallery
  simp only [reuse, List.cons_append, List.nil_append, eachStep_cons]
  intro p₁ h₁
  cases h₁
  refine ⟨trivial, ?_⟩
  intro p₂ h₂
  cases h₂
  refine ⟨trivial, ?_⟩
  intro p₃ h₃
  cases h₃
  constructor
  · intro cell url hn b w hb hw
    obtain ⟨rfl, rfl⟩ := Prod.mk.inj (Option.some.inj hn)
    cases hb
    cases hw
    exact Or.inr (by decide)
  · intro p₄ h₄
    cases h₄
    refine ⟨?_, eachStep_nil⟩
    intro cell url hn b w hb hw
    obtain ⟨rfl, rfl⟩ := Prod.mk.inj (Option.some.inj hn)
    cases hb
    cases hw
    exact Or.inl rfl

theorem late_picture_stays :
    ∃ p, run (step (ScreenName.gallery.screen fun _ => true)) {}
        (reuse ++ [.complete 1, .complete 0]) = some p ∧ p.downloads = [] ∧
      lastFor p.bindings 0 = some ⟨0, 1, some (urlOf "b")⟩ ∧
      (p.cells 0).image = some (urlOf "a") ∧ ¬ Settled p := by
  refine ⟨_, rfl, rfl, rfl, rfl, ?_⟩
  intro h
  have hcell := (h rfl (by decide) 0 ⟨0, 1, some (urlOf "b")⟩ rfl).1
  exact absurd hcell (by decide)

end CellReuse

end YouRoute
