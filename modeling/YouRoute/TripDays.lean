import YouRoute.SnapshotMirrors

/-!
# The days of a trip

The detail screen has one listener that fills its rows from the names of the
days, and one for each cell that reads the pictures of the row's day from a
field of the same document. In a well-formed trip each name has its field. The
rows are the days of the last document exactly as long as the rows mirror the
document.
-/

namespace YouRoute

/-- A trip that names its days and has a non-empty array of strings for each. -/
structure TripSnapshot extends StringArraySnapshot "DAY" where
  pictures : ∀ row < elements.length, ∃ names : List String, names ≠ [] ∧
    document.HoldsStrings (DetailController.dayField row) names

namespace TripDays
open StepSystem SnapshotMirrors DetailController

/-- Each row has the field of its day behind it, so that the cell's listener
reaches the URL, and the day's name as its label. -/
def RowsBacked (c : DetailController) (d : TripSnapshot) : Prop :=
  ∀ row < c.reported.length,
    (∃ names : List String, names ≠ [] ∧ d.document.HoldsStrings (dayField row) names) ∧
    (∀ referenceForURL trap,
      ((cellListener row referenceForURL (some d.document)).exec c).1 = .error trap →
        trap = .invalidArgument) ∧
    ∃ name, c.images[row]? = some name ∧ d.elements[row]? = some name

theorem cellListener_trap {c : DetailController} {document : DocumentSnapshot} {row : ℕ}
    {names : List String} (hne : names ≠ [])
    (h : document.HoldsStrings (dayField row) names) {referenceForURL : String → Bool}
    {trap : Trap}
    (htrap : ((cellListener row referenceForURL (some document)).exec c).1 = .error trap) :
    trap = .invalidArgument := by
  cases names with
  | nil => exact absurd rfl hne
  | cons url urls =>
      rw [cellListener, pictureListener_url _ _ h] at htrap
      split at htrap
      next => simp at htrap
      next => exact (Except.error.inj htrap).symm

theorem reported_run {c t : DetailController} {pre : List (StringArraySnapshot "DAY")}
    {d : StringArraySnapshot "DAY"}
    (h : run (delivery DetailController.test) c (pre ++ [d]) = some t) :
    t.reported = t.images := by
  obtain ⟨u, _, hdelivery⟩ := run_snoc_eq_some.mp h
  rw [eq_received DetailController.view hdelivery]
  rfl

theorem rowsBacked_iff {c : DetailController} {d : TripSnapshot} (hreported : c.reported = c.images)
    {before : List String} (himages : c.images = before ++ d.elements) :
    RowsBacked c d ↔ c.images = d.elements := by
  constructor
  · intro h
    have hlength : c.images.length ≤ d.elements.length := by
      by_contra hlt
      obtain ⟨_, _, name, _, hname⟩ := h d.elements.length (by rw [hreported]; omega)
      simp at hname
    rw [himages, List.length_append] at hlength
    have hbefore : before = [] := List.length_eq_zero_iff.mp (by omega)
    rw [himages, hbefore, List.nil_append]
  · intro h row hrow
    rw [hreported, h] at hrow
    obtain ⟨names, hne, hholds⟩ := d.pictures row hrow
    refine ⟨⟨names, hne, hholds⟩, fun _ _ => cellListener_trap hne hholds, ?_⟩
    rw [h]
    exact ⟨d.elements[row], List.getElem?_eq_getElem hrow, List.getElem?_eq_getElem hrow⟩

/-- The rows are backed by the document after every delivery exactly when every
trip delivered before the last one has no days. -/
theorem rows_backed_iff (c : DetailController) (ds : List TripSnapshot) :
    AfterEach (fun c (d : TripSnapshot) => deliver DetailController.test c d.document) RowsBacked
        { c with images := [] } ds ↔
      ∀ d ∈ ds.dropLast, d.elements = [] := by
  have hmirror := mirrors_iff (s := { c with images := [] }) DetailController.view rfl
    (ds.map TripSnapshot.toStringArraySnapshot)
  rw [← List.map_dropLast, List.forall_mem_map] at hmirror
  rw [← hmirror, Mirrors, afterEach_map]
  apply afterEach_congr
  intro pre d t ht
  have hrun := (run_map (delivery DetailController.test) TripSnapshot.toStringArraySnapshot
    { c with images := [] } (pre ++ [d])).trans ht
  rw [List.map_append, List.map_singleton] at hrun
  obtain ⟨u, hu, hall⟩ := run_delivery DetailController.view
    (pre.map TripSnapshot.toStringArraySnapshot ++ [d.toStringArraySnapshot])
    { c with images := [] }
  obtain rfl := Option.some.inj (hrun.symm.trans hu)
  rw [List.flatMap_append, List.flatMap_singleton] at hall
  exact rowsBacked_iff (reported_run hrun) hall

/-- A trip of one day. -/
def oneDay : TripSnapshot where
  document := ⟨some [("DAY", .array [.string "1일차"]),
    ("DAY-1", .array [.string "gs://youroutehknu.appspot.com/images/1.jpg"])]⟩
  elements := ["1일차"]
  holds := rfl
  pictures := by
    intro row hrow
    obtain rfl : row = 0 := by simpa using hrow
    exact ⟨["gs://youroutehknu.appspot.com/images/1.jpg"], by simp, rfl⟩

/-- Delivered twice, the trip has a second row with no day behind it, and the
listener of its cell ends the app. -/
theorem second_row_unbacked :
    ∃ t, run (fun c (d : TripSnapshot) => deliver DetailController.test c d.document)
        { rcvlabel := "부산" } [oneDay, oneDay] = some t ∧
      1 < t.reported.length ∧ oneDay.document.get (dayField 1) = none ∧
      ((cellListener 1 (fun _ => true) (some oneDay.document)).exec t).1 = .error .forcedCast ∧
      ¬ RowsBacked t oneDay := by
  refine ⟨{ rcvlabel := "부산", images := ["1일차", "1일차"], reported := ["1일차", "1일차"] },
    rfl, by decide, rfl, rfl, ?_⟩
  intro h
  obtain ⟨_, _, name, _, hname⟩ := h 1 (by decide)
  simp [oneDay] at hname

end TripDays

end YouRoute
