import YouRoute.IncrementalViews
import YouRoute.QueryListeners

/-!
# The event manager and the views behind it

The first listener of a query makes the sync engine set up a view for it, and the
view goes with the last one. All listeners of a query share its view, and one that
joins late starts from the last snapshot. The state here is what the event manager
and the sync engine hold for one query, beside the documents of the local store.
Whatever listeners come and go, no assertion is met, and every listener that has
raised an event shows what the query says of the store.
-/

namespace YouRoute

section

variable {K D : Type*} [LinearOrder K] {q : Query K D}

/-- A listener, told apart from others by its number, with the events it has raised. -/
structure ListenerEntry (q : Query K D) where
  id : ℕ
  log : ListenerLog q

structure QueryListenersInfo (q : Query K D) where
  listeners : List (ListenerEntry q)
  viewSnapshot : Option (ViewSnapshot q)

/-- The local store, and what is held for one query: its view in the sync engine and its
listeners in the event manager. -/
structure QuerySystem (q : Query K D) where
  stored : LocalDocuments K D
  view : Option (View q)
  info : Option (QueryListenersInfo q)
  onlineState : OnlineState

namespace QueryListenersInfo

/-- Hand a snapshot to all listeners and keep it. -/
def onViewSnapshot (info : QueryListenersInfo q) (snapshot : ViewSnapshot q) :
    Option (QueryListenersInfo q) :=
  (info.listeners.mapM fun (entry : ListenerEntry q) => (entry.log.receive snapshot).map fun log =>
    { entry with log := log }).map fun listeners => ⟨listeners, some snapshot⟩

def handleOnlineStateChange (info : QueryListenersInfo q) (onlineState : OnlineState) :
    QueryListenersInfo q :=
  { info with
    listeners := info.listeners.map fun entry =>
      { entry with log := entry.log.changeOnlineState onlineState } }

def erase (info : QueryListenersInfo q) (id : ℕ) : QueryListenersInfo q :=
  { info with listeners := info.listeners.eraseP fun entry => entry.id == id }

end QueryListenersInfo

inductive QueryEvent (K D : Type*) [LinearOrder K] where
  | addQueryListener (id : ℕ) (options : ListenOptions) (remoteKeys : KeySet K)
      (queryResult : KeyMap K (MaybeDocument K D)) (synthesized : Option Bool)
  | removeQueryListener (id : ℕ)
  | changed (stored : LocalDocuments K D) (docChanges queryResult : KeyMap K (MaybeDocument K D))
      (targetChange : Option (TargetChange K))
  | onlineState (state : OnlineState)
  | rejectedListen

namespace QuerySystem

def start (q : Query K D) (stored : LocalDocuments K D) : QuerySystem q :=
  ⟨stored, none, none, .unknown⟩

/-- Snapshots of a query without listeners are dropped. -/
def onViewSnapshots (s : QuerySystem q) : Option (ViewSnapshot q) → Option (QuerySystem q)
  | none => some s
  | some snapshot =>
      match s.info with
      | none => some s
      | some info => (info.onViewSnapshot snapshot).map fun info => { s with info := some info }

section Step

variable [DecidableEq D]

/-- The sync engine sets up the view of the query and hands on its first snapshot. -/
def listen (s : QuerySystem q) (remoteKeys : KeySet K)
    (queryResult : KeyMap K (MaybeDocument K D)) (synthesized : Option Bool) :
    Option (QuerySystem q) :=
  match s.view with
  | some _ => none
  | none =>
      (StoredView.initializeViewAndComputeSnapshot q remoteKeys s.stored queryResult
        synthesized).bind fun (stored, change) =>
          if change.snapshot.isSome then
            { s with view := some stored.view }.onViewSnapshots change.snapshot
          else
            none

def addQueryListener (s : QuerySystem q) (id : ℕ) (options : ListenOptions)
    (remoteKeys : KeySet K) (queryResult : KeyMap K (MaybeDocument K D))
    (synthesized : Option Bool) : Option (QuerySystem q) :=
  let info := s.info.getD ⟨[], none⟩
  let log := (ListenerLog.create q options).changeOnlineState s.onlineState
  if !log.events.isEmpty then
    none
  else
    (info.viewSnapshot.elim (some log) log.receive).bind fun log =>
      let added := { s with
        info := some { info with listeners := info.listeners ++ [⟨id, log⟩] } }
      if s.info.isNone then added.listen remoteKeys queryResult synthesized else some added

/-- The sync engine gives up the view of the query. -/
def stopListening (s : QuerySystem q) : Option (QuerySystem q) :=
  s.view.map fun _ => { s with view := none }

def removeQueryListener (s : QuerySystem q) (id : ℕ) : Option (QuerySystem q) :=
  match s.info with
  | none => some s
  | some info =>
      if (info.erase id).listeners.isEmpty then
        { s with info := none }.stopListening
      else
        some { s with info := some (info.erase id) }

def emitNewSnapshot (s : QuerySystem q) (stored : LocalDocuments K D)
    (docChanges queryResult : KeyMap K (MaybeDocument K D))
    (targetChange : Option (TargetChange K)) : Option (QuerySystem q) :=
  match s.view with
  | none => some { s with stored := stored }
  | some view =>
      (view.emitNewSnapshot docChanges queryResult targetChange).bind fun (view, change) =>
        { s with stored := stored, view := some view }.onViewSnapshots change.snapshot

/-- The views hear of the online state before the listeners do. -/
def handleOnlineStateChange (s : QuerySystem q) (onlineState : OnlineState) :
    Option (QuerySystem q) :=
  let applied :=
    match s.view with
    | none => some s
    | some view =>
        (view.applyOnlineStateChange onlineState).bind fun (view, change) =>
          if change.limboChanges.isEmpty then
            { s with view := some view }.onViewSnapshots change.snapshot
          else
            none
  applied.map fun s =>
    { s with
      info := s.info.map fun info => info.handleOnlineStateChange onlineState
      onlineState := onlineState }

/-- A listen that the server rejects takes its view and its listeners with it. -/
def handleRejectedListen (s : QuerySystem q) : Option (QuerySystem q) :=
  s.view.map fun _ => { s with view := none, info := none }

def step (s : QuerySystem q) : QueryEvent K D → Option (QuerySystem q)
  | .addQueryListener id options remoteKeys queryResult synthesized =>
      s.addQueryListener id options remoteKeys queryResult synthesized
  | .removeQueryListener id => s.removeQueryListener id
  | .changed stored docChanges queryResult targetChange =>
      s.emitNewSnapshot stored docChanges queryResult targetChange
  | .onlineState state => s.handleOnlineStateChange state
  | .rejectedListen => s.handleRejectedListen

end Step

/-- What the local store and the server tell is right. -/
def Told (s : QuerySystem q) : QueryEvent K D → Prop
  | .addQueryListener _ _ _ queryResult _ =>
      s.info = none →
        ∀ k, queryResult.find k = ((s.stored.get k).filter q.accepts).map .document
  | .removeQueryListener _ => True
  | .changed stored docChanges queryResult targetChange =>
      ∀ view, s.view = some view →
        StoredView.Told ⟨s.stored, view⟩ (.changed stored docChanges queryResult targetChange)
  | .onlineState _ => True
  | .rejectedListen => s.view.isSome = true

/-- No change of a document in the view is held back until its write is synced. -/
def NothingHeldBack (s : QuerySystem q) : QueryEvent K D → Prop
  | .changed stored docChanges queryResult targetChange =>
      ∀ view, s.view = some view → StoredView.NothingHeldBack ⟨s.stored, view⟩
        (.changed stored docChanges queryResult targetChange)
  | _ => True

/-- The server calls only documents modified that the query has or gets. -/
def TargetFits (s : QuerySystem q) : QueryEvent K D → Prop
  | .changed stored docChanges queryResult targetChange =>
      ∀ view, s.view = some view → StoredView.TargetFits ⟨s.stored, view⟩
        (.changed stored docChanges queryResult targetChange)
  | _ => True

end QuerySystem

/-- A snapshot that says how its documents came about, and says something. -/
structure ViewSnapshot.Valid (snapshot : ViewSnapshot q) : Prop where
  reports : ∃ brought refilled, Reports brought refilled snapshot.oldDocuments
    snapshot.documentChanges snapshot.documents
  news : snapshot.documentChanges ≠ [] ∨ snapshot.syncStateChanged = true

/-- Documents that a query can answer with. -/
structure DocumentSet.Fits (docs : DocumentSet q) : Prop where
  matched : ∀ doc ∈ docs.documents, q.accepts doc = true
  limited : q.limitType ≠ .none → docs.size ≤ q.limit

/-- A listener that keeps up with the documents of a view. -/
structure ListenerEntry.KeepsUp (entry : ListenerEntry q) (onlineState : OnlineState)
    (docs : DocumentSet q) : Prop where
  fits : ∀ event ∈ entry.log.events, event.documents.Fits
  shows : entry.log.Shows docs
  waits : entry.log.Waits docs
  onlineState : entry.log.listener.onlineState = onlineState

/-- The listeners of a query and its view fit together. -/
structure QuerySystem.Serves (s : QuerySystem q) (view : View q) (info : QueryListenersInfo q) :
    Prop where
  upToDate : StoredView.UpToDate ⟨s.stored, view⟩
  listened : info.listeners ≠ []
  cached : ∃ snapshot, info.viewSnapshot = some snapshot ∧ snapshot.Valid ∧
    snapshot.documents = view.documentSet
  keepsUp : ∀ entry ∈ info.listeners, entry.KeepsUp s.onlineState view.documentSet

/-- There is a view exactly while there are listeners. -/
def QuerySystem.Sound (s : QuerySystem q) : Prop :=
  s.view = none ∧ s.info = none ∨
    ∃ view info, s.view = some view ∧ s.info = some info ∧ s.Serves view info

/-- Who replays the events of a listener has the answer to the query. -/
def QuerySystem.ListenersShowStore (s : QuerySystem q) : Prop :=
  ∀ info, s.info = some info → ∀ entry ∈ info.listeners, entry.log.events ≠ [] →
    q.Answers (s.stored.selected q) entry.log.shown.dataEntries

/-- The events of a listener come in order and have a reason, and so has their absence. -/
structure ListenerEntry.InOrder (entry : ListenerEntry q) (docs : DocumentSet q) : Prop where
  fits : ∀ event ∈ entry.log.events, event.documents.Fits
  first : ∀ event rest, entry.log.events = event :: rest →
    event = QueryListener.initialEvent event ∧
      ∀ later ∈ rest, WorthRaising entry.log.listener.options later
  current : ∀ event, entry.log.events.getLast? = some event → SameData event.documents docs
  exact : entry.log.events ≠ [] →
    entry.log.listener.options.includeDocumentMetadataChanges = true → entry.log.shown = docs
  waits : entry.log.events = [] → ∃ last, entry.log.listener.snapshot = some last ∧
    last.fromCache = true ∧ last.documents = docs ∧
    entry.log.listener.onlineState ≠ .offline ∧
    (entry.log.listener.options.waitForSyncWhenOnline = true ∨ docs.size = 0)

def QuerySystem.EventsInOrder (s : QuerySystem q) : Prop :=
  ∀ info, s.info = some info → ∃ view, s.view = some view ∧
    ∀ entry ∈ info.listeners, entry.InOrder view.documentSet

end

namespace EventManagers
open StepSystem ViewDiffs ViewRuns IncrementalViews QueryListeners

variable {K D : Type*} [LinearOrder K] {q : Query K D}

theorem fits_of_upToDate {s : StoredView q} (h : s.UpToDate) : s.view.documentSet.Fits := by
  constructor
  · intro doc hdoc
    have hentry : doc.entry ∈ s.view.documentSet.dataEntries := List.mem_map.mpr ⟨doc, hdoc, rfl⟩
    obtain ⟨d, hd, hdata⟩ := Option.map_eq_some_iff.mp (mem_of_answers h.answers hentry)
    obtain ⟨hget, haccepts⟩ := Option.filter_eq_some_iff.mp hd
    have hkey : d.key = doc.key := s.stored.keyed doc.key d hget
    unfold Query.accepts at haccepts ⊢
    rw [hkey, hdata] at haccepts
    exact haccepts
  · intro hlimit
    have hanswers := h.answers
    have hlength : s.view.documentSet.dataEntries.length = s.view.documentSet.size := by
      rw [DocumentSet.dataEntries, List.length_map, DocumentSet.length_documents]
    unfold Query.Answers at hanswers
    cases htype : q.limitType with
    | none => exact (hlimit htype).elim
    | first =>
        rw [htype] at hanswers
        rw [← hlength]
        exact hanswers.length_le
    | last =>
        rw [htype] at hanswers
        have hle := hanswers.length_le
        rw [List.length_reverse, hlength] at hle
        exact hle

section Listeners

variable {onlineState : OnlineState} {snapshot : ViewSnapshot q}

/-- A listener that shows the old documents of a snapshot keeps up with it. -/
theorem receive_keepsUp {entry : ListenerEntry q} (hvalid : snapshot.Valid)
    (hfits : snapshot.documents.Fits) (hevents : ∀ event ∈ entry.log.events, event.documents.Fits)
    (hshows : entry.log.Shows snapshot.oldDocuments)
    (honline : entry.log.listener.onlineState = onlineState) :
    ∃ log, entry.log.receive snapshot = some log ∧
      ({ entry with log := log } : ListenerEntry q).KeepsUp onlineState snapshot.documents := by
  obtain ⟨_, _, hreports⟩ := hvalid.reports
  obtain ⟨log, hlog, hnext, hwaits, hstate, hfrom⟩ :=
    receive_shows hvalid.news hreports hshows
  refine ⟨log, hlog, ⟨?_, hnext, hwaits, hstate.trans honline⟩⟩
  intro event hevent
  cases hfrom event hevent with
  | inl hold => exact hevents event hold
  | inr hnew => exact hnew ▸ hfits

/-- A listener whose events fit, and which shows the given documents. -/
def Listens (onlineState : OnlineState) (docs : DocumentSet q) (entry : ListenerEntry q) : Prop :=
  (∀ event ∈ entry.log.events, event.documents.Fits) ∧ entry.log.Shows docs ∧
    entry.log.listener.onlineState = onlineState

/-- All listeners of a query receive a snapshot without an assertion. -/
theorem onViewSnapshot_keepsUp {info : QueryListenersInfo q} (hvalid : snapshot.Valid)
    (hfits : snapshot.documents.Fits)
    (h : ∀ entry ∈ info.listeners, Listens onlineState snapshot.oldDocuments entry) :
    ∃ next, info.onViewSnapshot snapshot = some next ∧ next.viewSnapshot = some snapshot ∧
      next.listeners.length = info.listeners.length ∧
      ∀ entry ∈ next.listeners, entry.KeepsUp onlineState snapshot.documents := by
  obtain ⟨listeners, cached⟩ := info
  suffices hlisteners : ∃ next, (listeners.mapM fun (entry : ListenerEntry q) =>
      (entry.log.receive snapshot).map fun log => { entry with log := log }) = some next ∧
      next.length = listeners.length ∧
      ∀ entry ∈ next, entry.KeepsUp onlineState snapshot.documents by
    obtain ⟨next, hnext, hlength, hkeeps⟩ := hlisteners
    exact ⟨⟨next, some snapshot⟩, by rw [QueryListenersInfo.onViewSnapshot, hnext]; rfl, rfl,
      hlength, hkeeps⟩
  induction listeners with
  | nil => exact ⟨[], rfl, rfl, by simp⟩
  | cons entry listeners ih =>
      obtain ⟨hevents, hshows, honline⟩ := h entry List.mem_cons_self
      obtain ⟨log, hlog, hkeep⟩ := receive_keepsUp hvalid hfits hevents hshows honline
      obtain ⟨next, hnext, hlength, hkeeps⟩ :=
        ih fun other hother => h other (List.mem_cons_of_mem entry hother)
      refine ⟨{ entry with log := log } :: next, ?_, by simpa using hlength, ?_⟩
      · rw [List.mapM_cons, hlog, hnext]
        rfl
      · intro other hother
        cases List.mem_cons.mp hother with
        | inl heq => exact heq ▸ hkeep
        | inr hin => exact hkeeps other hin

theorem changeOnlineState_create (options : ListenOptions) (onlineState : OnlineState) :
    (ListenerLog.create q options).changeOnlineState onlineState =
      ⟨{ QueryListener.create q options with onlineState := onlineState }, []⟩ := rfl

end Listeners

section Snapshots

variable {s : QuerySystem q} {view : View q} {info : QueryListenersInfo q}

/-- A snapshot of an up to date view leaves its listeners in step with it. -/
theorem onViewSnapshots_sound {snapshot : ViewSnapshot q} (hview : s.view = some view)
    (hinfo : s.info = some info) (hup : StoredView.UpToDate ⟨s.stored, view⟩)
    (hlistened : info.listeners ≠ []) (hvalid : snapshot.Valid)
    (hdocs : snapshot.documents = view.documentSet)
    (h : ∀ entry ∈ info.listeners, Listens s.onlineState snapshot.oldDocuments entry) :
    ∃ t, s.onViewSnapshots (some snapshot) = some t ∧ t.onlineState = s.onlineState ∧
      t.Sound := by
  obtain ⟨next, hnext, hcached, hlength, hkeeps⟩ :=
    onViewSnapshot_keepsUp hvalid (hdocs ▸ fits_of_upToDate hup) h
  rw [hdocs] at hkeeps
  refine ⟨{ s with info := some next }, ?_, rfl, .inr ⟨view, next, hview, rfl, ?_⟩⟩
  · simp only [QuerySystem.onViewSnapshots, hinfo, hnext, Option.map_some]
  · refine ⟨hup, ?_, ⟨snapshot, hcached, hvalid, hdocs⟩, hkeeps⟩
    intro hnil
    rw [hnil] at hlength
    exact hlistened (List.length_eq_zero_iff.mp hlength.symm)

/-- What applied changes raise reaches the listeners of the query. -/
theorem applied_sound {docChanges : ViewDocumentChanges q} {targeted updated : View q}
    {targetChange : Option (TargetChange K)} {change : ViewChange q}
    (hinfo : s.info = some info) (hserves : s.Serves view info) (before : View q)
    (hbefore : before.documentSet = view.documentSet)
    {brought refilled : Document K D → Prop}
    (htracks : docChanges.Tracks brought refilled before.documentSet.getDocument)
    (happlied : Applied before docChanges targetChange targeted updated change)
    (stored : LocalDocuments K D) (hup : StoredView.UpToDate ⟨stored, updated⟩) :
    ∃ t, ({ s with stored := stored, view := some updated } : QuerySystem q).onViewSnapshots
        change.snapshot = some t ∧ t.onlineState = s.onlineState ∧ t.Sound := by
  rcases happlied.snapshot_cases htracks with ⟨hnone, hdocs, -⟩ |
    ⟨snapshot, hsome, hold, hnew, -, hreports, -, -, -, -, hnews⟩
  · rw [hnone]
    refine ⟨_, rfl, rfl, .inr ⟨updated, info, rfl, hinfo, hup, hserves.listened, ?_, ?_⟩⟩
    · rw [hdocs, hbefore]
      exact hserves.cached
    · rw [hdocs, hbefore]
      exact hserves.keepsUp
  · rw [hsome]
    refine onViewSnapshots_sound rfl hinfo hup hserves.listened ⟨⟨_, _, hreports⟩, hnews⟩ hnew ?_
    intro entry hentry
    have hkeeps := hserves.keepsUp entry hentry
    rw [hold, hbefore]
    exact ⟨hkeeps.fits, hkeeps.shows, hkeeps.onlineState⟩

end Snapshots

section Steps

variable [DecidableEq D] {s : QuerySystem q}

theorem changed_sound (hs : s.Sound) {stored : LocalDocuments K D}
    {docChanges queryResult : KeyMap K (MaybeDocument K D)} {targetChange : Option (TargetChange K)}
    (htold : s.Told (.changed stored docChanges queryResult targetChange))
    (hwait : s.NothingHeldBack (.changed stored docChanges queryResult targetChange))
    (htarget : s.TargetFits (.changed stored docChanges queryResult targetChange)) :
    ∃ t, s.emitNewSnapshot stored docChanges queryResult targetChange = some t ∧ t.Sound := by
  rcases hs with ⟨hview, hinfo⟩ | ⟨view, info, hview, hinfo, hserves⟩
  · exact ⟨{ s with stored := stored }, by rw [QuerySystem.emitNewSnapshot, hview],
      .inl ⟨hview, hinfo⟩⟩
  · obtain ⟨next, hnext, hup⟩ := step_of_told hserves.upToDate (htold view hview)
      (hwait view hview) (htarget view hview)
    obtain ⟨⟨updated, change⟩, hemit, rfl⟩ := Option.map_eq_some_iff.mp hnext
    obtain ⟨changes, htracks, targeted, happlied⟩ :=
      emitNewSnapshot_cases hserves.upToDate.mutated hemit
    obtain ⟨t, ht, -, hsound⟩ := applied_sound hinfo hserves view rfl htracks happlied stored
      hup
    refine ⟨t, ?_, hsound⟩
    simp only [QuerySystem.emitNewSnapshot, hview, hemit, Option.bind_some]
    exact ht

omit [DecidableEq D] in
theorem handleOnlineStateChange_keepsUp (hs : s.Sound) (onlineState : OnlineState) :
    ({ s with
      info := s.info.map fun info => info.handleOnlineStateChange onlineState
      onlineState := onlineState } : QuerySystem q).Sound := by
  rcases hs with ⟨hview, hinfo⟩ | ⟨view, info, hview, hinfo, hserves⟩
  · exact .inl ⟨hview, by simp [hinfo]⟩
  · refine .inr ⟨view, info.handleOnlineStateChange onlineState, hview, by simp [hinfo],
      hserves.upToDate, ?_, hserves.cached, ?_⟩
    · intro hnil
      exact hserves.listened (List.map_eq_nil_iff.mp hnil)
    · intro entry hentry
      obtain ⟨before, hbefore, rfl⟩ := List.mem_map.mp hentry
      have hkeeps := hserves.keepsUp before hbefore
      obtain ⟨hshows, hwaits, hstate, hfrom⟩ :=
        changeOnlineState_shows hkeeps.shows hkeeps.waits onlineState
      refine ⟨?_, hshows, hwaits, hstate⟩
      intro event hevent
      cases hfrom event hevent with
      | inl hold => exact hkeeps.fits event hold
      | inr hnew => exact hnew ▸ fits_of_upToDate hserves.upToDate

omit [DecidableEq D] in
/-- Going offline changes no limbo documents. -/
theorem limboChanges_offline {view targeted updated : View q} {change : ViewChange q}
    {docChanges : ViewDocumentChanges q}
    (h : Applied { view with current := false } docChanges none targeted updated change) :
    change.limboChanges = [] := by
  have htargeted := Option.some.inj h.targetedBy
  rw [h.limbo_eq, ← htargeted]
  rfl

theorem onlineState_sound (hs : s.Sound) (onlineState : OnlineState) :
    ∃ t, s.handleOnlineStateChange onlineState = some t ∧ t.Sound := by
  rcases hs with ⟨hview, hinfo⟩ | ⟨view, info, hview, hinfo, hserves⟩
  · refine ⟨_, ?_, handleOnlineStateChange_keepsUp (.inl ⟨hview, hinfo⟩) onlineState⟩
    simp only [QuerySystem.handleOnlineStateChange, hview, Option.map_some]
  · obtain ⟨next, hnext, hup⟩ :=
      step_of_told hserves.upToDate (show StoredView.Told _ (.onlineState onlineState) from trivial)
        trivial trivial
    obtain ⟨⟨updated, change⟩, happly, rfl⟩ := Option.map_eq_some_iff.mp hnext
    obtain ⟨t, ht, hsound, hlimbo⟩ : ∃ t, ({ s with view := some updated } :
        QuerySystem q).onViewSnapshots change.snapshot = some t ∧ t.Sound ∧
        change.limboChanges = [] := by
      rcases applyOnlineStateChange_cases happly with ⟨rfl, rfl⟩ | ⟨targeted, happlied⟩
      · exact ⟨_, rfl, .inr ⟨updated, info, rfl, hinfo, hserves.upToDate, hserves.listened,
          hserves.cached, hserves.keepsUp⟩, rfl⟩
      · obtain ⟨t, ht, -, hsound⟩ := applied_sound hinfo hserves { view with current := false } rfl
          (unchanged_tracks hserves.upToDate.mutated) happlied s.stored hup
        exact ⟨t, ht, hsound, limboChanges_offline happlied⟩
    refine ⟨_, ?_, handleOnlineStateChange_keepsUp hsound onlineState⟩
    simp only [QuerySystem.handleOnlineStateChange, hview, happly, Option.bind_some, hlimbo,
      List.isEmpty_nil, if_true, ht, Option.map_some]

theorem listen_sound {entry : ListenerEntry q} {remoteKeys : KeySet K}
    {queryResult : KeyMap K (MaybeDocument K D)} (synthesized : Option Bool)
    (hview : s.view = none) (hinfo : s.info = some ⟨[entry], none⟩)
    (hlistens : Listens s.onlineState DocumentSet.empty entry)
    (hresult : ∀ k, queryResult.find k = ((s.stored.get k).filter q.accepts).map .document) :
    ∃ t, s.listen remoteKeys queryResult synthesized = some t ∧ t.Sound := by
  obtain ⟨next, change, hinit, hup, hsome⟩ :=
    initializeView_upToDate q remoteKeys s.stored ⟨queryResult, hresult⟩ synthesized
  obtain ⟨changes, hchanges, hrest⟩ := Option.bind_eq_some_iff.mp hinit
  obtain ⟨⟨view, _⟩, happly, heq⟩ := Option.map_eq_some_iff.mp hrest
  obtain ⟨rfl, rfl⟩ := Prod.mk.inj heq
  obtain ⟨-, targeted, happlied⟩ := applyChanges_cases happly
  have htracks :=
    (tracks_of_computeDocumentChanges mutatedExact_empty hchanges fun _ => False).1
  rcases happlied.snapshot_cases htracks with ⟨hnone, -, -⟩ |
    ⟨snapshot, hsnapshot, hold, hnew, -, hreports, -, -, -, -, hnews⟩
  · rw [hnone] at hsome
    cases hsome
  · obtain ⟨t, ht, -, hsound⟩ : ∃ t, ({ s with view := some view } :
        QuerySystem q).onViewSnapshots (some snapshot) = some t ∧
        t.onlineState = s.onlineState ∧ t.Sound := by
      refine onViewSnapshots_sound rfl hinfo hup (by simp) ⟨⟨_, _, hreports⟩, hnews⟩ hnew ?_
      intro entry hentry
      rw [List.mem_singleton.mp hentry, hold]
      exact hlistens
    refine ⟨t, ?_, hsound⟩
    simp only [QuerySystem.listen, hview, hinit, Option.bind_some, hsnapshot, Option.isSome_some,
      if_true]
    exact ht

theorem addQueryListener_sound (hs : s.Sound) (id : ℕ) (options : ListenOptions)
    {remoteKeys : KeySet K} {queryResult : KeyMap K (MaybeDocument K D)}
    {synthesized : Option Bool}
    (htold : s.Told (.addQueryListener id options remoteKeys queryResult synthesized)) :
    ∃ t, s.addQueryListener id options remoteKeys queryResult synthesized = some t ∧ t.Sound := by
  rcases hs with ⟨hview, hinfo⟩ | ⟨view, info, hview, hinfo, hserves⟩
  · let listening : QuerySystem q := { s with
      info := some ⟨[⟨id, ⟨{ QueryListener.create q options with
        onlineState := s.onlineState }, []⟩⟩], none⟩ }
    have hlisten : listening.view = none := hview
    obtain ⟨t, ht, hsound⟩ :=
      listen_sound synthesized hlisten rfl ⟨by simp, shows_nil rfl _, rfl⟩ (htold hinfo)
    refine ⟨t, ?_, hsound⟩
    simp only [QuerySystem.addQueryListener, changeOnlineState_create, hinfo]
    exact ht
  · obtain ⟨snapshot, hcached, hvalid, hdocs⟩ := hserves.cached
    let entry : ListenerEntry q :=
      ⟨id, ⟨{ QueryListener.create q options with onlineState := s.onlineState }, []⟩⟩
    have hentry : entry.log.Shows snapshot.oldDocuments := shows_nil rfl _
    obtain ⟨log, hlog, hkeep⟩ := receive_keepsUp hvalid
      (hdocs ▸ fits_of_upToDate hserves.upToDate) (by simp [entry]) hentry rfl
    rw [hdocs] at hkeep
    refine ⟨{ s with info := some { info with listeners := info.listeners ++ [⟨id, log⟩] } }, ?_,
      .inr ⟨view, _, hview, rfl, hserves.upToDate, by simp, ⟨snapshot, hcached, hvalid, hdocs⟩, ?_⟩⟩
    · simp only [QuerySystem.addQueryListener, changeOnlineState_create, hinfo, Option.getD_some,
        hcached, Option.elim_some]
      change (entry.log.receive snapshot).bind _ = _
      rw [hlog]
      rfl
    · intro entry hentry
      cases List.mem_append.mp hentry with
      | inl hold => exact hserves.keepsUp entry hold
      | inr hadded => exact List.mem_singleton.mp hadded ▸ hkeep

omit [DecidableEq D] in
theorem removeQueryListener_sound (hs : s.Sound) (id : ℕ) :
    ∃ t, s.removeQueryListener id = some t ∧ t.Sound := by
  rcases hs with ⟨hview, hinfo⟩ | ⟨view, info, hview, hinfo, hserves⟩
  · exact ⟨s, by rw [QuerySystem.removeQueryListener, hinfo], .inl ⟨hview, hinfo⟩⟩
  · simp only [QuerySystem.removeQueryListener, hinfo, QuerySystem.stopListening, hview,
      Option.map_some]
    split_ifs with hempty
    · exact ⟨_, rfl, .inl ⟨rfl, rfl⟩⟩
    · refine ⟨_, rfl, .inr ⟨view, info.erase id, rfl, rfl, hserves.upToDate, ?_, hserves.cached,
        ?_⟩⟩
      · intro hnil
        exact hempty (List.isEmpty_iff.mpr hnil)
      · intro entry hentry
        exact hserves.keepsUp entry (List.mem_of_mem_eraseP hentry)

theorem step_sound (hs : s.Sound) {event : QueryEvent K D} (htold : s.Told event)
    (hwait : s.NothingHeldBack event) (htarget : s.TargetFits event) :
    ∃ t, s.step event = some t ∧ t.Sound := by
  cases event with
  | addQueryListener id options remoteKeys queryResult synthesized =>
      exact addQueryListener_sound hs id options htold
  | removeQueryListener id => exact removeQueryListener_sound hs id
  | changed stored docChanges queryResult targetChange => exact changed_sound hs htold hwait htarget
  | onlineState state => exact onlineState_sound hs state
  | rejectedListen =>
      obtain ⟨view, hview⟩ := Option.isSome_iff_exists.mp htold
      exact ⟨{ s with view := none, info := none },
        by simp only [QuerySystem.step, QuerySystem.handleRejectedListen, hview, Option.map_some],
        .inl ⟨rfl, rfl⟩⟩

end Steps

section Runs

variable [DecidableEq D]

theorem throughout_sound {stored : LocalDocuments K D} {events : List (QueryEvent K D)}
    (htold : EachStep QuerySystem.step
      (fun s event => s.Told event ∧ s.NothingHeldBack event ∧ s.TargetFits event)
      (QuerySystem.start q stored) events) :
    Throughout QuerySystem.step QuerySystem.Sound (QuerySystem.start q stored) events := by
  refine throughout_of_eachStep ?_ (.inl ⟨rfl, rfl⟩) htold
  intro s event t hs ht htold
  obtain ⟨u, hu, hsound⟩ := step_sound hs htold.1 htold.2.1 htold.2.2
  rw [hu] at ht
  exact Option.some.inj ht ▸ hsound

omit [DecidableEq D] in
theorem dataEntries_eq {s t : DocumentSet q} (h : SameData s t) :
    s.dataEntries = t.dataEntries := by
  refine q.order.eq_of_sorted (dataEntries_sorted s) (dataEntries_sorted t) ?_
  intro e
  rw [mem_dataEntries, mem_dataEntries, h e.1]

/-- One document, with a number. -/
def numbered (number : ℕ) : LocalDocuments ℕ ℕ where
  get k := if k = 1 then some ⟨1, number, .synced⟩ else none
  keyed k d h := by
    split_ifs at h with hk
    exact Option.some.inj h ▸ hk.symm

/-- The document is numbered anew before a listener joins and after it did, when the server
adds it to the query. -/
def numberedAnew : List (QueryEvent ℕ ℕ) :=
  [.changed (numbered 5) (numbers [(1, 5)]) (numbers [(1, 5)]) none,
    .addQueryListener 0 ListenOptions.defaultOptions SortedMap.empty (numbers [(1, 5)]) none,
    .changed (numbered 7) (numbers [(1, 7)]) (numbers [(1, 7)])
      (some ⟨true, SortedMap.empty.insert 1 (), SortedMap.empty.insert 1 (), SortedMap.empty⟩)]

theorem get_numbered (number k : ℕ) :
    (numbered number).get k = if k = 1 then some ⟨1, number, .synced⟩ else none := rfl

theorem find_numbers (number k : ℕ) :
    (numbers [(1, number)]).find k =
      if k = 1 then some (.document ⟨1, number, .synced⟩) else none :=
  KeyMap.find_insert SortedMap.empty k 1 _

/-- Running the query finds the numbered document, unless its number is zero. -/
theorem numbers_told {number : ℕ} (h : number ≠ 0) (k : ℕ) :
    (numbers [(1, number)]).find k =
      (((numbered number).get k).filter lowest.accepts).map .document := by
  rw [find_numbers, get_numbered]
  by_cases hk : k = 1
  · have haccepts : lowest.accepts ⟨1, number, .synced⟩ = true := bne_iff_ne.mpr h
    rw [if_pos hk, if_pos hk, Option.filter_some, if_pos haccepts]
    rfl
  · rw [if_neg hk, if_neg hk]
    rfl

omit [DecidableEq D] in
theorem stored_onViewSnapshots {s t : QuerySystem q} {snapshot : Option (ViewSnapshot q)}
    (h : s.onViewSnapshots snapshot = some t) : t.stored = s.stored := by
  unfold QuerySystem.onViewSnapshots at h
  split at h
  · exact congrArg QuerySystem.stored (Option.some.inj h).symm
  · split at h
    · exact congrArg QuerySystem.stored (Option.some.inj h).symm
    · obtain ⟨info, -, rfl⟩ := Option.map_eq_some_iff.mp h
      rfl

theorem stored_listen {s t : QuerySystem q} {remoteKeys : KeySet K}
    {queryResult : KeyMap K (MaybeDocument K D)} {synthesized : Option Bool}
    (h : s.listen remoteKeys queryResult synthesized = some t) : t.stored = s.stored := by
  cases hview : s.view with
  | some view =>
      simp only [QuerySystem.listen, hview] at h
      cases h
  | none =>
      simp only [QuerySystem.listen, hview] at h
      obtain ⟨⟨next, change⟩, -, hnext⟩ := Option.bind_eq_some_iff.mp h
      obtain ⟨-, hsome⟩ := Option.ite_none_right_eq_some.mp hnext
      have hkept := stored_onViewSnapshots hsome
      exact hkept

/-- A new listener leaves the local store as it is. -/
theorem stored_addQueryListener {s t : QuerySystem q} {id : ℕ} {options : ListenOptions}
    {remoteKeys : KeySet K} {queryResult : KeyMap K (MaybeDocument K D)}
    {synthesized : Option Bool}
    (h : s.step (.addQueryListener id options remoteKeys queryResult synthesized) = some t) :
    t.stored = s.stored := by
  simp only [QuerySystem.step, QuerySystem.addQueryListener] at h
  split_ifs at h with hraised hfirst
  · obtain ⟨log, -, hlisten⟩ := Option.bind_eq_some_iff.mp h
    have hkept := stored_listen hlisten
    exact hkept
  · obtain ⟨log, -, hadded⟩ := Option.bind_eq_some_iff.mp h
    rw [← Option.some.inj hadded]

theorem numberedAnew_told :
    EachStep QuerySystem.step
      (fun s event => s.Told event ∧ s.NothingHeldBack event ∧ s.TargetFits event)
      (QuerySystem.start lowest (numbered 0)) numberedAnew := by
  have hunheard : (QuerySystem.start lowest (numbered 0)).view = none := rfl
  refine eachStep_cons.mpr ?_
  intro s hs
  refine ⟨⟨?_, ?_, ?_⟩, ?_⟩
  · exact fun view hview => by cases hunheard.symm.trans hview
  · exact fun view hview => by cases hunheard.symm.trans hview
  · exact fun view hview => by cases hunheard.symm.trans hview
  cases hs
  refine eachStep_cons.mpr ?_
  intro t ht
  have hstored := stored_addQueryListener ht
  refine ⟨⟨fun _ => numbers_told (by decide), trivial, trivial⟩, ?_⟩
  refine eachStep_cons.mpr ?_
  intro u _
  refine ⟨⟨?_, ?_, ?_⟩, eachStep_nil⟩
  · intro view _
    refine ⟨?_, ?_, numbers_told (by decide)⟩
    · intro k hk
      rw [find_numbers] at hk
      split_ifs at hk with hother
      rw [hstored, get_numbered, get_numbered, if_neg hother, if_neg hother]
    · intro k maybeDoc hk
      rw [find_numbers] at hk
      split_ifs at hk with hone
      rw [← Option.some.inj hk, get_numbered, if_pos hone]
      rfl
  · intro view _ k oldDoc newDoc _ _ hnew _ hcommitted
    have hget := (Option.filter_eq_some_iff.mp hnew).1
    rw [get_numbered] at hget
    split_ifs at hget
    rw [← Option.some.inj hget] at hcommitted
    cases hcommitted
  · intro view _ change hchange k hk
    cases hchange
    exact .inr hk

end Runs

end EventManagers

end YouRoute
