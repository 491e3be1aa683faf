import YouRoute.CompletionOrder
import Mathlib.Data.Fin.VecNotation
import Mathlib.Data.List.FinRange
import Mathlib.Data.Rat.Defs

/-!
# Routes on the map

`loadAnnotations` pins five places and asks for the four routes between consecutive
ones. Each completion handler adds the first route it was given to the map and moves
the map to that route. The overlays do not depend on the order in which the answers
arrive, but the region is the one of the route that arrives last.
-/

namespace YouRoute

structure CLLocationCoordinate2D (F : Type) where
  latitude : F
  longitude : F
  deriving DecidableEq, Repr

structure MKCoordinateSpan (F : Type) where
  latitudeDelta : F
  longitudeDelta : F
  deriving DecidableEq, Repr

structure MKCoordinateRegion (F : Type) where
  center : CLLocationCoordinate2D F
  span : MKCoordinateSpan F
  deriving DecidableEq, Repr

structure MKMapPoint (F : Type) where
  x : F
  y : F
  deriving DecidableEq, Repr

structure MKMapSize (F : Type) where
  width : F
  height : F
  deriving DecidableEq, Repr

structure MKMapRect (F : Type) where
  origin : MKMapPoint F
  size : MKMapSize F
  deriving DecidableEq, Repr

structure MKPolyline (F : Type) where
  points : List (MKMapPoint F)
  boundingMapRect : MKMapRect F
  deriving DecidableEq, Repr

structure MKRoute (F : Type) where
  polyline : MKPolyline F

/-- A response has at least one route. -/
structure MKDirectionsResponse (F : Type) where
  routes : List (MKRoute F)
  routes_ne : routes ≠ []

/-- `directionResonse.routes[0]` -/
def MKDirectionsResponse.route {F : Type} (response : MKDirectionsResponse F) : MKRoute F :=
  response.routes.head response.routes_ne

inductive MKDirectionsTransportType where
  | automobile
  | walking
  | transit
  | any
  deriving DecidableEq, Repr

structure MKDirectionsRequest (F : Type) where
  source : CLLocationCoordinate2D F
  destination : CLLocationCoordinate2D F
  requestsAlternateRoutes : Bool
  transportType : MKDirectionsTransportType
  deriving DecidableEq, Repr

inductive MKOverlayLevel where
  | aboveRoads
  | aboveLabels
  deriving DecidableEq, Repr

structure ImageAnnotation (F Image : Type) where
  coordinate : CLLocationCoordinate2D F
  title : Option String
  image : Option Image

/-- What the code asked of the map. `region` is the last one requested. -/
structure MKMapView (F Image : Type) where
  annotations : List <| ImageAnnotation F Image := []
  overlays : List (MKPolyline F × MKOverlayLevel) := []
  region : Option (MKCoordinateRegion F) := none

namespace MKMapView

variable {F Image : Type}

def addAnnotation (map : MKMapView F Image) (pin : ImageAnnotation F Image) :
    MKMapView F Image :=
  { map with annotations := map.annotations ++ [pin] }

def addOverlay (map : MKMapView F Image) (polyline : MKPolyline F) (level : MKOverlayLevel) :
    MKMapView F Image :=
  { map with overlays := map.overlays ++ [(polyline, level)] }

def setRegion (map : MKMapView F Image) (region : MKCoordinateRegion F) : MKMapView F Image :=
  { map with region := some region }

end MKMapView

structure MapController (F Image : Type) where
  mapView : MKMapView F Image
  count : ℕ := 1

namespace MapController
open CompletionOrder

section Loading

variable {F Image : Type} [OfScientific F] (named : String → Option Image)

def initControls (c : MapController F Image) : MapController F Image :=
  let center : CLLocationCoordinate2D F := ⟨35.819393, 129.208035⟩
  let region : MKCoordinateRegion F := ⟨center, ⟨0.04, 0.04⟩⟩
  { c with mapView := c.mapView.setRegion region }

/-- The latitudes and longitudes of `locations`. -/
def locations : List (CLLocationCoordinate2D F) :=
  [⟨35.790262, 129.332017⟩, ⟨35.829393, 129.218035⟩, ⟨35.830013, 129.227206⟩,
    ⟨35.819393, 129.208035⟩, ⟨35.809393, 129.213035⟩]

/-- The body of the loop over `locations`, on the controller and `myCoordinate`. -/
def annotate (st : MapController F Image × List (CLLocationCoordinate2D F))
    (location : CLLocationCoordinate2D F) :
    MapController F Image × List (CLLocationCoordinate2D F) :=
  let c := st.1
  let annotation : ImageAnnotation F Image :=
    { coordinate := location
      title := some (toString c.count ++ ".jpg")
      image := named ("불국사" ++ toString c.count ++ ".jpeg") }
  let coordinate := annotation.coordinate
  ({ c with mapView := c.mapView.addAnnotation annotation, count := c.count + 1 },
    st.2 ++ [coordinate])

def directionRequest (source destination : CLLocationCoordinate2D F) : MKDirectionsRequest F where
  source := source
  destination := destination
  requestsAlternateRoutes := true
  transportType := .automobile

/-- The controller when the call returns, and the requests under way. -/
def loadAnnotations (c : MapController F Image) :
    Option (MapController F Image × Vector (MKDirectionsRequest F) 4) := do
  let (c, myCoordinate) := locations.foldl (annotate named) (c, [])
  let source1 ← myCoordinate[0]?
  let source2 ← myCoordinate[1]?
  let source3 ← myCoordinate[2]?
  let source4 ← myCoordinate[3]?
  let destination1 ← myCoordinate[1]?
  let destination2 ← myCoordinate[2]?
  let destination3 ← myCoordinate[3]?
  let destination4 ← myCoordinate[4]?
  let directionRequest1 := directionRequest source1 destination1
  let directionRequest2 := directionRequest source2 destination2
  let directionRequest3 := directionRequest source3 destination3
  let directionRequest4 := directionRequest source4 destination4
  pure (c, #v[directionRequest1, directionRequest2, directionRequest3, directionRequest4])

def viewDidLoad (c : MapController F Image) :
    Option (MapController F Image × Vector (MKDirectionsRequest F) 4) :=
  loadAnnotations named c.initControls

/-- The trip starts a request from each place to the next one, whatever the map holds. -/
theorem loadAnnotations_eq (c : MapController F Image) :
    loadAnnotations named c = some
      ((locations.foldl (annotate named) (c, [])).1,
        ⟨(List.zipWith directionRequest locations locations.tail).toArray, rfl⟩) := by
  rfl

end Loading

section Completions

variable {F Image : Type} (regionOf : MKMapRect F → MKCoordinateRegion F)

/-- The completion handler of each request; `regionOf` is `MKCoordinateRegion(rect)`. -/
def completion (c : MapController F Image) (response : Option (MKDirectionsResponse F)) :
    MapController F Image :=
  match response with
  | none => c
  | some directionResonse =>
      let route := directionResonse.route
      let mapView := c.mapView.addOverlay route.polyline .aboveRoads
      let rect := route.polyline.boundingMapRect
      { c with mapView := mapView.setRegion (regionOf rect) }

/-- The controller after the handlers ran in an order of the requests. -/
def completions (c : MapController F Image) (responses : Fin 4 → Option (MKDirectionsResponse F))
    (order : List (Fin 4)) : MapController F Image :=
  order.foldl (fun c i => completion regionOf c (responses i)) c

/-- The overlay that a handler adds. -/
def addedOverlay (responses : Fin 4 → Option (MKDirectionsResponse F)) (i : Fin 4) :
    Option (MKPolyline F × MKOverlayLevel) :=
  (responses i).map fun response => (response.route.polyline, .aboveRoads)

/-- The region that a handler requests. -/
def requestedRegion (responses : Fin 4 → Option (MKDirectionsResponse F)) (i : Fin 4) :
    Option (Option (MKCoordinateRegion F)) :=
  (responses i).map fun response => some (regionOf response.route.polyline.boundingMapRect)

theorem completion_mapView (c : MapController F Image)
    (responses : Fin 4 → Option (MKDirectionsResponse F)) (i : Fin 4) :
    (completion regionOf c (responses i)).mapView.overlays =
      c.mapView.overlays ++ (addedOverlay responses i).toList ∧
    (completion regionOf c (responses i)).mapView.region =
      (requestedRegion regionOf responses i).getD c.mapView.region := by
  unfold addedOverlay requestedRegion
  cases responses i with
  | none => exact ⟨(List.append_nil _).symm, rfl⟩
  | some response => exact ⟨rfl, rfl⟩

theorem completions_mapView (c : MapController F Image)
    (responses : Fin 4 → Option (MKDirectionsResponse F)) (order : List (Fin 4)) :
    (completions regionOf c responses order).mapView.overlays =
      c.mapView.overlays ++ order.filterMap (addedOverlay responses) ∧
    (completions regionOf c responses order).mapView.region =
      lastWrite (requestedRegion regionOf responses) c.mapView.region order := by
  induction order generalizing c with
  | nil => exact ⟨(List.append_nil _).symm, rfl⟩
  | cons i order ih =>
      obtain ⟨hoverlays, hregion⟩ := completion_mapView regionOf c responses i
      have htail := ih (completion regionOf c (responses i))
      rw [hoverlays, hregion] at htail
      simp only [List.filterMap_eq_flatMap_toList] at htail ⊢
      rw [List.flatMap_cons, ← List.append_assoc]
      exact htail

/-- The map ends up the same in every order of the four completions. -/
def OrderFree (c : MapController F Image)
    (responses : Fin 4 → Option (MKDirectionsResponse F)) : Prop :=
  ∀ order order' : List (Fin 4), order.Perm (List.finRange 4) → order'.Perm (List.finRange 4) →
    (∀ overlay, overlay ∈ (completions regionOf c responses order).mapView.overlays ↔
      overlay ∈ (completions regionOf c responses order').mapView.overlays) ∧
    (completions regionOf c responses order).mapView.region =
      (completions regionOf c responses order').mapView.region

theorem overlays_perm (c : MapController F Image)
    (responses : Fin 4 → Option (MKDirectionsResponse F)) {order order' : List (Fin 4)}
    (h : order.Perm order') :
    (completions regionOf c responses order).mapView.overlays.Perm
      (completions regionOf c responses order').mapView.overlays := by
  rw [(completions_mapView regionOf c responses order).1,
    (completions_mapView regionOf c responses order').1]
  exact (h.filterMap (addedOverlay responses)).append_left c.mapView.overlays

theorem orderFree_iff (c : MapController F Image)
    (responses : Fin 4 → Option (MKDirectionsResponse F)) :
    OrderFree regionOf c responses ↔
      ∀ i j r s, responses i = some r → responses j = some s →
        regionOf r.route.polyline.boundingMapRect = regionOf s.route.polyline.boundingMapRect := by
  have hwrites := lastWrite_order_iff (requestedRegion regionOf responses) c.mapView.region
    (List.finRange 4)
  have hregion : ∀ order, (completions regionOf c responses order).mapView.region =
      lastWrite (requestedRegion regionOf responses) c.mapView.region order :=
    fun order => (completions_mapView regionOf c responses order).2
  constructor
  · intro h i j r s hr hs
    have hsame : ∀ order order' : List (Fin 4), order.Perm (List.finRange 4) →
        order'.Perm (List.finRange 4) →
        lastWrite (requestedRegion regionOf responses) c.mapView.region order =
          lastWrite (requestedRegion regionOf responses) c.mapView.region order' := by
      intro order order' horder horder'
      rw [← hregion, ← hregion]
      exact (h order order' horder horder').2
    have hi : requestedRegion regionOf responses i =
        some (some (regionOf r.route.polyline.boundingMapRect)) := by
      rw [requestedRegion, hr, Option.map_some]
    have hj : requestedRegion regionOf responses j =
        some (some (regionOf s.route.polyline.boundingMapRect)) := by
      rw [requestedRegion, hs, Option.map_some]
    apply Option.some.inj
    exact hwrites.mp hsame i (List.mem_finRange i) j (List.mem_finRange j) _ _ hi hj
  · intro h order order' horder horder'
    constructor
    · intro overlay
      exact (overlays_perm regionOf c responses (horder.trans horder'.symm)).mem_iff
    · rw [hregion, hregion]
      apply hwrites.mpr _ order order' horder horder'
      intro i _ j _ a b ha hb
      obtain ⟨r, hr, rfl⟩ := Option.map_eq_some_iff.mp ha
      obtain ⟨s, hs, rfl⟩ := Option.map_eq_some_iff.mp hb
      rw [h i j r s hr hs]

end Completions

/-- The map after the four requests that `viewDidLoad` starts is the same in every
order of their completions exactly when all routes found have the same region. -/
theorem map_order_free_iff {F Image : Type} [OfScientific F] (named : String → Option Image)
    (regionOf : MKMapRect F → MKCoordinateRegion F) (c : MapController F Image)
    (responses : Fin 4 → Option (MKDirectionsResponse F)) :
    ∃ loaded requests, viewDidLoad named c = some (loaded, requests) ∧
      (OrderFree regionOf loaded responses ↔
        ∀ i j r s, responses i = some r → responses j = some s →
          regionOf r.route.polyline.boundingMapRect =
            regionOf s.route.polyline.boundingMapRect) :=
  ⟨_, _, loadAnnotations_eq named c.initControls, orderFree_iff regionOf _ responses⟩

/-- `MKCoordinateRegion(rect)` for a rectangle of no height on the equator, on a map
2^28 points wide. -/
def equatorRegion (rect : MKMapRect ℚ) : MKCoordinateRegion ℚ where
  center := ⟨0, (rect.origin.x + rect.size.width / 2) * 360 / 268435456 - 180⟩
  span := ⟨0, rect.size.width * 360 / 268435456⟩

/-- A straight route along the equator. -/
def equatorRoute (x width : ℚ) : MKDirectionsResponse ℚ where
  routes := [⟨[⟨x, 134217728⟩, ⟨x + width, 134217728⟩], ⟨⟨x, 134217728⟩, ⟨width, 0⟩⟩⟩]
  routes_ne := by simp

/-- Two legs are found and two are not. -/
def twoLegs : Fin 4 → Option (MKDirectionsResponse ℚ) :=
  ![some (equatorRoute 134217728 100), some (equatorRoute 134217828 100), none, none]

theorem region_of_last_answer :
    ∃ loaded requests,
      viewDidLoad (fun _ => none) ({ mapView := {} } : MapController ℚ String) =
        some (loaded, requests) ∧ ¬ OrderFree equatorRegion loaded twoLegs := by
  refine ⟨_, _, loadAnnotations_eq _ _, ?_⟩
  intro h
  have hregion := (h [0, 1, 2, 3] [1, 0, 2, 3] (by decide) (by decide)).2
  revert hregion
  decide +kernel

end MapController

end YouRoute
