import YouRoute.EventManagers
import YouRoute.SnapshotMirrors

/-!
# Listeners of one document

A listener of a document listens to the query for its key and converts each view
snapshot to a snapshot of the document. The controllers append the array that each
of these snapshots brings. Along any run in which no change is held back the last
snapshot has the data that the local store holds, so a controller's list ends with
the array of the stored document, and is that array where all earlier ones were empty.
-/

namespace YouRoute
open StepSystem

def Query.atPath {K : Type*} [LinearOrder K] (D : Type*) (key : K) : Query K D where
  order := (Comparator.ofLinearOrder K).on Prod.fst
  key_of_same _ _ h := Comparator.ofLinearOrder_eq.mp h
  matchesDocument k _ := decide (k = key)
  limitType := .none
  limit := 0

section

variable {K D : Type*} [LinearOrder K]

structure DocumentEvent (K D : Type*) where
  key : K
  document : Option (Document K D)
  hasPendingWrites : Bool
  fromCache : Bool

variable (key : K)

/-- Nothing results where a view has more than one document. -/
def DocumentEvent.convert (snapshot : ViewSnapshot (Query.atPath D key)) :
    Option (DocumentEvent K D) :=
  if snapshot.documents.size ≤ 1 then
    let document := snapshot.documents.getDocument key
    some
      { key := key
        document := document
        hasPendingWrites := document.isSome && snapshot.mutatedKeys.contains key
        fromCache := snapshot.fromCache }
  else
    none

def ListenerEntry.deliveries (entry : ListenerEntry (Query.atPath D key)) :
    Option (List (DocumentEvent K D)) :=
  entry.log.events.mapM (DocumentEvent.convert key)

def DocumentEvent.snapshot (fields : D → List (String × FieldValue)) (event : DocumentEvent K D) :
    DocumentSnapshot :=
  ⟨event.document.map fun doc => fields doc.data⟩

def LocalDocuments.snapshot (fields : D → List (String × FieldValue))
    (stored : LocalDocuments K D) : DocumentSnapshot :=
  ⟨(stored.get key).map fun doc => fields doc.data⟩

/-- All events of the listeners reach them, the last one with the data of the store. -/
def QuerySystem.Delivers (s : QuerySystem (Query.atPath D key)) : Prop :=
  ∀ info, s.info = some info → ∀ entry ∈ info.listeners, ∃ events,
    entry.deliveries key = some events ∧
      (∀ event ∈ events, event.hasPendingWrites = true → event.document.isSome = true) ∧
      ∀ last, events.getLast? = some last →
        last.document.map Document.data = (s.stored.get key).map Document.data

/-- A controller that was called with all the events of a listener has the array of the
stored document at the end of its list, and nothing before it where the earlier arrays
were empty. -/
def QuerySystem.Fills {σ : Type} (view : ListView σ) (field : String)
    (fields : D → List (String × FieldValue)) (s : QuerySystem (Query.atPath D key)) : Prop :=
  ∀ info, s.info = some info → ∀ entry ∈ info.listeners, ∃ events,
    entry.deliveries key = some events ∧ ∀ c t,
      run (deliver (view.listener field)) c (events.map (·.snapshot fields)) = some t →
      events = [] ∨ ∃ older names, view.list t = view.list c ++ older ++ names ∧
        (s.stored.snapshot key fields).HoldsStrings field names ∧
        (older = [] ↔ ∀ event ∈ events.dropLast, (event.snapshot fields).HoldsStrings field [])

end

namespace DocumentListeners
open EventManagers IncrementalViews

variable {K D : Type*} [LinearOrder K] {key : K}

theorem size_le_one {docs : DocumentSet (Query.atPath D key)} (h : docs.Fits) :
    docs.size ≤ 1 := by
  rw [← docs.length_documents, ← List.length_map Document.key]
  have hkeys : ∀ k ∈ docs.documents.map Document.key, k = key := by
    intro k hk
    obtain ⟨doc, hdoc, rfl⟩ := List.mem_map.mp hk
    exact of_decide_eq_true (h.matched doc hdoc)
  have hnodup := docs.keys_nodup
  cases hlist : docs.documents.map Document.key with
  | nil => simp
  | cons k rest =>
      cases rest with
      | nil => simp
      | cons l rest =>
          rw [hlist] at hkeys hnodup
          have hsame : k = l :=
            (hkeys k List.mem_cons_self).trans
              (hkeys l (List.mem_cons_of_mem k List.mem_cons_self)).symm
          exact ((List.nodup_cons.mp hnodup).1 (hsame ▸ List.mem_cons_self)).elim

def converted (snapshot : ViewSnapshot (Query.atPath D key)) : DocumentEvent K D where
  key := key
  document := snapshot.documents.getDocument key
  hasPendingWrites :=
    (snapshot.documents.getDocument key).isSome && snapshot.mutatedKeys.contains key
  fromCache := snapshot.fromCache

theorem deliveries_eq {entry : ListenerEntry (Query.atPath D key)}
    (h : ∀ event ∈ entry.log.events, event.documents.Fits) :
    entry.deliveries key = some (entry.log.events.map converted) := by
  unfold ListenerEntry.deliveries
  revert h
  induction entry.log.events with
  | nil => exact fun _ => rfl
  | cons event events ih =>
      intro h
      have hevent : DocumentEvent.convert key event = some (converted event) :=
        if_pos (size_le_one (h event List.mem_cons_self))
      rw [List.mapM_cons, hevent, ih fun later hlater => h later (List.mem_cons_of_mem event hlater)]
      rfl

theorem matching_atPath (stored : LocalDocuments K D) :
    stored.matching (Query.atPath D key) key = (stored.get key).map Document.data := by
  unfold LocalDocuments.matching
  cases hget : stored.get key with
  | none => rfl
  | some doc =>
      have haccepts : (Query.atPath D key).accepts doc = true :=
        decide_eq_true (stored.keyed key doc hget)
      rw [Option.filter_some, if_pos haccepts]

theorem getDocument_of_upToDate {s : StoredView (Query.atPath D key)} (h : s.UpToDate) :
    (s.view.documentSet.getDocument key).map Document.data =
      (s.stored.get key).map Document.data := by
  rw [← matching_atPath]
  refine Option.ext ?_
  intro data
  have hmem := h.answers (key, data)
  rw [mem_dataEntries] at hmem
  exact hmem

theorem last_delivery {s : QuerySystem (Query.atPath D key)}
    {view : View (Query.atPath D key)} {info : QueryListenersInfo (Query.atPath D key)}
    (h : s.Serves view info) {entry : ListenerEntry (Query.atPath D key)}
    (hentry : entry ∈ info.listeners) {last : DocumentEvent K D}
    (hlast : (entry.log.events.map converted).getLast? = some last) :
    last.document.map Document.data = (s.stored.get key).map Document.data := by
  rw [List.getLast?_map, Option.map_eq_some_iff] at hlast
  obtain ⟨event, hevent, rfl⟩ := hlast
  have hsame := (h.keepsUp entry hentry).shows.current event hevent key
  exact hsame.trans (getDocument_of_upToDate h.upToDate)

section Controllers

variable {σ : Type} (view : ListView σ) {field : String}

/-- A controller only survives documents that hold an array of strings. -/
theorem exists_arrays {c t : σ} {docs : List DocumentSnapshot}
    (h : run (deliver (view.listener field)) c docs = some t) :
    ∃ arrays : List (StringArraySnapshot field), arrays.map (·.document) = docs := by
  induction docs generalizing c with
  | nil => exact ⟨[], rfl⟩
  | cons doc docs ih =>
      obtain ⟨u, hu, hrest⟩ := run_cons_eq_some.mp h
      obtain ⟨arrays, rfl⟩ := ih hrest
      obtain ⟨names, hnames⟩ : ∃ names, doc.HoldsStrings field names := by
        by_contra hnone
        obtain ⟨names, hfails⟩ := appendListener_fails field view.append view.reloadData
          (not_exists.mp hnone) c
        simp only [deliver, ListView.listener, hfails] at hu
        cases hu
      exact ⟨⟨doc, names, hnames⟩ :: arrays, rfl⟩

theorem holdsStrings_nil (array : StringArraySnapshot field) :
    array.document.HoldsStrings field [] ↔ array.elements = [] := by
  have hholds := array.holds
  unfold DocumentSnapshot.HoldsStrings at hholds ⊢
  rw [hholds]
  constructor
  · intro h
    have hnil : array.elements.map FieldValue.string = [] := FieldValue.array.inj (Option.some.inj h)
    exact List.map_eq_nil_iff.mp hnil
  · intro h
    rw [h]

theorem list_of_run {c t : σ} {docs : List DocumentSnapshot} {last : DocumentSnapshot}
    (h : run (deliver (view.listener field)) c docs = some t) (hlast : docs.getLast? = some last) :
    ∃ older names, view.list t = view.list c ++ older ++ names ∧ last.HoldsStrings field names ∧
      (older = [] ↔ ∀ doc ∈ docs.dropLast, doc.HoldsStrings field []) := by
  obtain ⟨arrays, rfl⟩ := exists_arrays view h
  rw [List.getLast?_map, Option.map_eq_some_iff] at hlast
  obtain ⟨array, harray, rfl⟩ := hlast
  have hsplit : arrays.dropLast ++ [array] = arrays := List.dropLast_append_getLast? array harray
  obtain ⟨u, hu, hlist⟩ := SnapshotMirrors.run_delivery view arrays c
  rw [run_map] at h
  obtain rfl := Option.some.inj (h.symm.trans hu)
  refine ⟨arrays.dropLast.flatMap (·.elements), array.elements, ?_, array.holds, ?_⟩
  · rw [hlist, List.append_assoc, ← List.flatMap_singleton (·.elements) array,
      ← List.flatMap_append, hsplit]
  · rw [List.flatMap_eq_nil_iff, ← List.map_dropLast, List.forall_mem_map]
    exact forall₂_congr fun array _ => (holdsStrings_nil array).symm

end Controllers

section Runs

variable [DecidableEq D] {stored : LocalDocuments K D} {events : List (QueryEvent K D)}

theorem serves_of_run
    (htold : EachStep QuerySystem.step
      (fun s event => s.Told event ∧ s.NothingHeldBack event ∧ s.TargetFits event)
      (QuerySystem.start (Query.atPath D key) stored) events)
    {pre : List (QueryEvent K D)} (hpre : pre <+: events) {s : QuerySystem (Query.atPath D key)}
    (hrun : run QuerySystem.step (QuerySystem.start (Query.atPath D key) stored) pre = some s)
    {info : QueryListenersInfo (Query.atPath D key)} (hinfo : s.info = some info) :
    ∃ view, s.Serves view info := by
  rcases throughout_sound htold pre s hpre hrun with ⟨-, hnone⟩ | ⟨view, info', -, hinfo', hserves⟩
  · rw [hnone] at hinfo
    cases hinfo
  · obtain rfl := Option.some.inj (hinfo.symm.trans hinfo')
    exact ⟨view, hserves⟩

/-- The conversion of a view never has too many documents, and the last event has the data
of the store. -/
theorem events_delivered (key : K) (stored : LocalDocuments K D) (events : List (QueryEvent K D))
    (htold : EachStep QuerySystem.step
      (fun s event => s.Told event ∧ s.NothingHeldBack event ∧ s.TargetFits event)
      (QuerySystem.start (Query.atPath D key) stored) events) :
    Throughout QuerySystem.step (QuerySystem.Delivers key)
      (QuerySystem.start (Query.atPath D key) stored) events := by
  intro pre s hpre hrun info hinfo entry hentry
  obtain ⟨view, hserves⟩ := serves_of_run htold hpre hrun hinfo
  refine ⟨_, deliveries_eq (hserves.keepsUp entry hentry).fits, ?_, ?_⟩
  · intro event hevent hpending
    obtain ⟨snapshot, -, rfl⟩ := List.mem_map.mp hevent
    exact (Bool.and_eq_true_iff.mp hpending).1
  · intro last hlast
    exact last_delivery hserves hentry hlast

def trips (names : List String) : LocalDocuments ℕ (List String) where
  get k := if k = 0 then some ⟨0, names, .synced⟩ else none
  keyed k d h := by
    split_ifs at h with hk
    exact Option.some.inj h ▸ hk.symm

def tripFields (names : List String) : List (String × FieldValue) :=
  [("Country", .array (names.map .string))]

def tripChange (names : List String) : KeyMap ℕ (MaybeDocument ℕ (List String)) :=
  SortedMap.empty.insert 0 (.document ⟨0, names, .synced⟩)

/-- A listener of the document is added, and then the server sends a new version of it. -/
def tripEvents (names newNames : List String) : List (QueryEvent ℕ (List String)) :=
  [.addQueryListener 0 ListenOptions.defaultOptions SortedMap.empty (tripChange names) none,
    .changed (trips newNames) (tripChange newNames) (tripChange newNames)
      (some ⟨true, SortedMap.empty.insert 0 (), SortedMap.empty, SortedMap.empty⟩)]

theorem get_trips (names : List String) (k : ℕ) :
    (trips names).get k = if k = 0 then some ⟨0, names, .synced⟩ else none := rfl

theorem find_tripChange (names : List String) (k : ℕ) : (tripChange names).find k =
    if k = 0 then some (.document ⟨0, names, .synced⟩) else none :=
  KeyMap.find_insert SortedMap.empty k 0 _

theorem tripChange_told (names : List String) (k : ℕ) : (tripChange names).find k =
    (((trips names).get k).filter (Query.atPath (List String) 0).accepts).map .document := by
  rw [find_tripChange, get_trips]
  by_cases hk : k = 0
  · rw [if_pos hk, if_pos hk]
    rfl
  · rw [if_neg hk, if_neg hk]
    rfl

theorem tripEvents_told (names newNames : List String) :
    EachStep QuerySystem.step
      (fun s event => s.Told event ∧ s.NothingHeldBack event ∧ s.TargetFits event)
      (QuerySystem.start (Query.atPath (List String) 0) (trips names))
      (tripEvents names newNames) := by
  refine eachStep_cons.mpr ?_
  intro s hs
  refine ⟨⟨fun _ => tripChange_told names, trivial, trivial⟩, ?_⟩
  have hstored := stored_addQueryListener hs
  refine eachStep_cons.mpr ?_
  intro t _
  refine ⟨⟨?_, ?_, ?_⟩, eachStep_nil⟩
  · intro view _
    refine ⟨?_, ?_, tripChange_told newNames⟩
    · intro k hk
      rw [find_tripChange] at hk
      split_ifs at hk with hother
      rw [hstored, QuerySystem.start, get_trips, get_trips, if_neg hother, if_neg hother]
    · intro k maybeDoc hk
      rw [find_tripChange] at hk
      split_ifs at hk with hzero
      rw [← Option.some.inj hk, get_trips, if_pos hzero]
      rfl
  · intro view _ k oldDoc newDoc _ _ hnew _ hcommitted
    have hget := (Option.filter_eq_some_iff.mp hnew).1
    rw [get_trips] at hget
    split_ifs at hget
    rw [← Option.some.inj hget] at hcommitted
    cases hcommitted
  · intro view _ change hchange k hk
    cases hchange
    cases hk

theorem seoul_delivered :
    Throughout QuerySystem.step (QuerySystem.Delivers 0)
      (QuerySystem.start (Query.atPath (List String) 0) (trips ["서울"]))
      (tripEvents ["서울"] ["서울", "부산"]) :=
  events_delivered 0 (trips ["서울"]) (tripEvents ["서울"] ["서울", "부산"])
    (tripEvents_told ["서울"] ["서울", "부산"])

/-- At all times the list of a controller ends with the array that the store holds. -/
theorem lists_follow_store {σ : Type} (view : ListView σ) (field : String)
    (fields : D → List (String × FieldValue)) (key : K) (stored : LocalDocuments K D)
    (events : List (QueryEvent K D))
    (htold : EachStep QuerySystem.step
      (fun s event => s.Told event ∧ s.NothingHeldBack event ∧ s.TargetFits event)
      (QuerySystem.start (Query.atPath D key) stored) events) :
    Throughout QuerySystem.step (QuerySystem.Fills key view field fields)
      (QuerySystem.start (Query.atPath D key) stored) events := by
  intro pre s hpre hrun info hinfo entry hentry
  obtain ⟨_, hserves⟩ := serves_of_run htold hpre hrun hinfo
  refine ⟨_, deliveries_eq (hserves.keepsUp entry hentry).fits, ?_⟩
  intro c t ht
  cases hlast : (entry.log.events.map converted).getLast? with
  | none => exact .inl (List.getLast?_eq_none_iff.mp hlast)
  | some last =>
      have hsnapshot : last.snapshot fields = s.stored.snapshot key fields := by
        have hdata := last_delivery hserves hentry hlast
        have hfields := congrArg (Option.map fields) hdata
        rw [Option.map_map, Option.map_map] at hfields
        exact congrArg DocumentSnapshot.mk hfields
      obtain ⟨older, names, hlist, hnames, hnone⟩ := list_of_run view ht
        (by rw [List.getLast?_map, hlast]; rfl)
      dsimp only at hnames
      rw [hsnapshot] at hnames
      refine .inr ⟨older, names, hlist, hnames, ?_⟩
      rw [hnone, ← List.map_dropLast, List.forall_mem_map]

theorem main_list_follows_store :
    Throughout QuerySystem.step (QuerySystem.Fills 0 MainController.view "Country" tripFields)
      (QuerySystem.start (Query.atPath (List String) 0) (trips []))
      (tripEvents [] ["서울", "부산"]) :=
  lists_follow_store MainController.view "Country" tripFields 0 (trips [])
    (tripEvents [] ["서울", "부산"]) (tripEvents_told [] ["서울", "부산"])

end Runs

end DocumentListeners

end YouRoute
