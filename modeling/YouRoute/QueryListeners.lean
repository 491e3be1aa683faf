import YouRoute.ViewRuns

/-!
# Listeners of a query

A listener turns the snapshots of a view into events. Its first event shows all
documents as added. It waits for the server or for documents, unless the client
is offline. Later events pass on the changes, without those to metadata unless
they are asked for. After any events that it raised, replaying them shows the
documents of the view, up to metadata that were not asked for.
-/

namespace YouRoute

structure ListenOptions where
  includeQueryMetadataChanges : Bool
  includeDocumentMetadataChanges : Bool
  waitForSyncWhenOnline : Bool
deriving DecidableEq, Repr

namespace ListenOptions

def defaultOptions : ListenOptions := ⟨false, false, false⟩

end ListenOptions

section

variable {K D : Type*} [LinearOrder K] {q : Query K D}

structure QueryListener (q : Query K D) where
  options : ListenOptions
  raisedInitialEvent : Bool
  onlineState : OnlineState
  snapshot : Option (ViewSnapshot q)

namespace QueryListener

def create (q : Query K D) (options : ListenOptions) : QueryListener q :=
  ⟨options, false, .unknown, none⟩

def shouldRaiseInitialEvent (listener : QueryListener q) (snapshot : ViewSnapshot q)
    (onlineState : OnlineState) : Bool :=
  if !snapshot.fromCache then
    true
  else if listener.options.waitForSyncWhenOnline && onlineState != .offline then
    false
  else
    snapshot.documents.size != 0 || onlineState == .offline

def shouldRaiseEvent (listener : QueryListener q) (snapshot : ViewSnapshot q) : Bool :=
  if !snapshot.documentChanges.isEmpty then
    true
  else
    let hasPendingWritesChanged := listener.snapshot.any fun last =>
      last.hasPendingWrites != snapshot.hasPendingWrites
    if snapshot.syncStateChanged || hasPendingWritesChanged then
      listener.options.includeQueryMetadataChanges
    else
      false

/-- The first event, which shows every document of the snapshot as added. -/
def initialEvent (snapshot : ViewSnapshot q) : ViewSnapshot q :=
  ViewSnapshot.fromInitialDocuments snapshot.documents snapshot.mutatedKeys snapshot.fromCache
    snapshot.excludesMetadataChanges

/-- The snapshot without the changes to metadata, unless they are asked for. -/
def strip (listener : QueryListener q) (snapshot : ViewSnapshot q) : ViewSnapshot q :=
  if listener.options.includeDocumentMetadataChanges then
    snapshot
  else
    { snapshot with
      documentChanges := snapshot.documentChanges.filter fun change => change.type != .metadata
      excludesMetadataChanges := true }

/-- The listener after a snapshot, and the event it raises for it. -/
def onViewSnapshot (listener : QueryListener q) (snapshot : ViewSnapshot q) :
    Option (QueryListener q × Option (ViewSnapshot q)) :=
  if snapshot.documentChanges.isEmpty && !snapshot.syncStateChanged then
    none
  else
    let stripped := listener.strip snapshot
    if !listener.raisedInitialEvent then
      if listener.shouldRaiseInitialEvent stripped listener.onlineState then
        some ({ listener with raisedInitialEvent := true, snapshot := some stripped },
          some (initialEvent stripped))
      else
        some ({ listener with snapshot := some stripped }, none)
    else if listener.shouldRaiseEvent stripped then
      some ({ listener with snapshot := some stripped }, some stripped)
    else
      some ({ listener with snapshot := some stripped }, none)

/-- The listener after a change of the online state, and the event it raises for it. -/
def onOnlineStateChanged (listener : QueryListener q) (onlineState : OnlineState) :
    QueryListener q × Option (ViewSnapshot q) :=
  let updated := { listener with onlineState := onlineState }
  match listener.snapshot with
  | none => (updated, none)
  | some snapshot =>
      if !listener.raisedInitialEvent && updated.shouldRaiseInitialEvent snapshot onlineState then
        ({ updated with raisedInitialEvent := true }, some (initialEvent snapshot))
      else
        (updated, none)

end QueryListener

/-- A listener with the events it has raised. -/
structure ListenerLog (q : Query K D) where
  listener : QueryListener q
  events : List (ViewSnapshot q)

namespace ListenerLog

def create (q : Query K D) (options : ListenOptions) : ListenerLog q :=
  ⟨QueryListener.create q options, []⟩

def receive (log : ListenerLog q) (snapshot : ViewSnapshot q) : Option (ListenerLog q) :=
  (log.listener.onViewSnapshot snapshot).map fun (listener, event) =>
    ⟨listener, log.events ++ event.toList⟩

def changeOnlineState (log : ListenerLog q) (onlineState : OnlineState) : ListenerLog q :=
  let (listener, event) := log.listener.onOnlineStateChanged onlineState
  ⟨listener, log.events ++ event.toList⟩

/-- What a client shows that replays the changes of all events. -/
def shown (log : ListenerLog q) : DocumentSet q :=
  log.events.foldl (fun docs event => replay docs event.documentChanges) DocumentSet.empty

end ListenerLog

/-- The same documents, whatever is known of their writes. -/
def SameData (s t : DocumentSet q) : Prop :=
  ∀ k, (s.getDocument k).map Document.data = (t.getDocument k).map Document.data

/-- An event after the first is news that the options ask for. -/
structure WorthRaising (options : ListenOptions) (event : ViewSnapshot q) : Prop where
  news : options.includeQueryMetadataChanges = false → event.documentChanges ≠ []
  data : options.includeDocumentMetadataChanges = false →
    ∀ change ∈ event.documentChanges, change.type ≠ .metadata

/-- The events of a listener are in order and show the given documents. -/
structure ListenerLog.Shows (log : ListenerLog q) (docs : DocumentSet q) : Prop where
  raised : log.listener.raisedInitialEvent = false ↔ log.events = []
  first : ∀ event rest, log.events = event :: rest →
    event = QueryListener.initialEvent event ∧
      ∀ later ∈ rest, WorthRaising log.listener.options later
  shown : log.events ≠ [] → SameData log.shown docs
  exact : log.events ≠ [] → log.listener.options.includeDocumentMetadataChanges = true →
    log.shown = docs
  current : ∀ event, log.events.getLast? = some event → SameData event.documents docs

/-- The last snapshot of a listener has the given documents, and a listener without events
waits for the server or for documents. -/
def ListenerLog.Waits (log : ListenerLog q) (docs : DocumentSet q) : Prop :=
  ∃ last, log.listener.snapshot = some last ∧ last.documents = docs ∧
    (log.listener.raisedInitialEvent = false →
      last.fromCache = true ∧ log.listener.onlineState ≠ .offline ∧
        (log.listener.options.waitForSyncWhenOnline = true ∨ docs.size = 0))

end

namespace QueryListeners

variable {K D : Type*} [LinearOrder K] {q : Query K D}
variable {brought refilled : Document K D → Prop}

theorem SameData.refl (docs : DocumentSet q) : SameData docs docs := fun _ => rfl

theorem find?_filter_metadata {changes : List (DocumentViewChange K D)}
    (hdistinct : (changes.map fun change => change.document.key).Nodup) (k : K) :
    (changes.filter fun change => change.type != .metadata).find?
        (fun change => change.document.key == k) =
      (changes.find? fun change => change.document.key == k).filter
        fun change => change.type != .metadata := by
  induction changes with
  | nil => rfl
  | cons change changes ih =>
      obtain ⟨hnot, hnodup⟩ := List.nodup_cons.mp hdistinct
      rw [List.filter_cons]
      by_cases hk : change.document.key = k
      · rw [show (change :: changes).find? _ = some change from
          List.find?_cons_of_pos (by simpa using hk), Option.filter_some]
        split_ifs with hmeta
        · exact List.find?_cons_of_pos (by simpa using hk)
        · refine List.find?_eq_none.mpr ?_
          intro other hother hkey
          refine hnot (List.mem_map.mpr ⟨other, List.mem_of_mem_filter hother, ?_⟩)
          exact (beq_iff_eq.mp hkey).trans hk.symm
      · rw [List.find?_cons_of_neg (by simpa using hk), ← ih hnodup]
        split_ifs with hmeta
        · exact List.find?_cons_of_neg (by simpa using hk)
        · rfl

omit [LinearOrder K] in
/-- A copy with the old data has the new data after the change. -/
theorem data_outcome {old new copy : Option (Document K D)}
    {change : Option (DocumentViewChange K D)} (h : NetChange brought refilled old new change)
    (hcopy : copy.map Document.data = old.map Document.data) :
    (outcome copy change).map Document.data = new.map Document.data := by
  cases h with
  | unchanged => exact hcopy
  | added => rfl
  | removed => rfl
  | modified => rfl
  | metadata => rfl

omit [LinearOrder K] in
/-- A change of metadata can be left out. -/
theorem data_outcome_filter {old new copy : Option (Document K D)}
    {change : Option (DocumentViewChange K D)} (h : NetChange brought refilled old new change)
    (hcopy : copy.map Document.data = old.map Document.data) :
    (outcome copy (change.filter fun change => change.type != .metadata)).map
      Document.data = new.map Document.data := by
  cases h with
  | unchanged => exact hcopy
  | added => rfl
  | removed => rfl
  | modified => rfl
  | metadata _ hdata _ => exact hcopy.trans (congrArg some hdata)

/-- Replaying changes without those to metadata keeps up with the data. -/
theorem sameData_replay_filter {shown docs newDocs : DocumentSet q}
    {changes : List (DocumentViewChange K D)} (h : Reports brought refilled docs changes newDocs)
    (hsame : SameData shown docs) :
    SameData (replay shown (changes.filter fun change => change.type != .metadata)) newDocs := by
  intro k
  have hdistinct : ((changes.filter fun change => change.type != .metadata).map
      fun change => change.document.key).Nodup :=
    h.distinct.sublist (List.filter_sublist.map _)
  rw [ViewRuns.getDocument_replay hdistinct, find?_filter_metadata h.distinct]
  exact data_outcome_filter (h.net k) (hsame k)

theorem sameData_replay {shown docs newDocs : DocumentSet q}
    {changes : List (DocumentViewChange K D)} (h : Reports brought refilled docs changes newDocs)
    (hsame : SameData shown docs) : SameData (replay shown changes) newDocs := by
  intro k
  rw [ViewRuns.getDocument_replay h.distinct]
  exact data_outcome (h.net k) (hsame k)

/-- The first event shows the documents of its snapshot. -/
theorem replay_initialEvent (snapshot : ViewSnapshot q) :
    replay DocumentSet.empty (QueryListener.initialEvent snapshot).documentChanges =
      snapshot.documents := by
  have hdistinct : ((snapshot.documents.documents.map fun doc =>
      (⟨doc, .added⟩ : DocumentViewChange K D)).map fun change => change.document.key).Nodup := by
    rw [List.map_map]
    exact DocumentSet.keys_nodup snapshot.documents
  refine DocumentSet.ext_getDocument ?_
  intro k
  change (replay DocumentSet.empty (snapshot.documents.documents.map fun doc =>
    (⟨doc, .added⟩ : DocumentViewChange K D))).getDocument k = _
  rw [ViewRuns.getDocument_replay hdistinct, List.find?_map]
  cases hget : snapshot.documents.getDocument k with
  | none =>
      have hnone : snapshot.documents.documents.find? ((fun change => change.document.key == k) ∘
          fun doc => (⟨doc, .added⟩ : DocumentViewChange K D)) = none := by
        refine List.find?_eq_none.mpr ?_
        intro doc hdoc hkey
        rw [← beq_iff_eq.mp hkey, DocumentSet.mem_documents.mp hdoc] at hget
        cases hget
      rw [hnone]
      rfl
  | some doc =>
      have hkey : doc.key = k := DocumentSet.key_of_getDocument hget
      have hmem : doc ∈ snapshot.documents.documents :=
        DocumentSet.mem_documents.mpr (by rw [hkey]; exact hget)
      cases hfind : snapshot.documents.documents.find? ((fun change => change.document.key == k) ∘
          fun doc => (⟨doc, .added⟩ : DocumentViewChange K D)) with
      | none => exact (List.find?_eq_none.mp hfind doc hmem (beq_iff_eq.mpr hkey)).elim
      | some other =>
          have hother : other.key = k := beq_iff_eq.mp (List.find?_some hfind :)
          rw [DocumentSet.eq_of_key_eq (List.mem_of_find?_eq_some hfind) hmem
            (hother.trans hkey.symm)]
          rfl

section Receive

variable {log : ListenerLog q} {snapshot : ViewSnapshot q}

theorem strip_documents (listener : QueryListener q) (snapshot : ViewSnapshot q) :
    (listener.strip snapshot).documents = snapshot.documents := by
  unfold QueryListener.strip
  split_ifs
  · rfl
  · rfl

theorem strip_replay (listener : QueryListener q) {shown : DocumentSet q}
    (hreports : Reports brought refilled snapshot.oldDocuments snapshot.documentChanges
      snapshot.documents)
    (hsame : SameData shown snapshot.oldDocuments) :
    SameData (replay shown (listener.strip snapshot).documentChanges) snapshot.documents := by
  unfold QueryListener.strip
  split_ifs
  · exact sameData_replay hreports hsame
  · exact sameData_replay_filter hreports hsame

theorem strip_exact (listener : QueryListener q)
    (h : listener.options.includeDocumentMetadataChanges = true) (snapshot : ViewSnapshot q) :
    listener.strip snapshot = snapshot := if_pos h

theorem not_shouldRaiseInitialEvent {listener : QueryListener q} {onlineState : OnlineState}
    (h : listener.shouldRaiseInitialEvent snapshot onlineState = false) :
    snapshot.fromCache = true ∧ onlineState ≠ .offline ∧
      (listener.options.waitForSyncWhenOnline = true ∨ snapshot.documents.size = 0) := by
  unfold QueryListener.shouldRaiseInitialEvent at h
  split_ifs at h with hcache hwait
  · rw [Bool.and_eq_true, bne_iff_ne] at hwait
    exact ⟨by simpa using hcache, hwait.2, .inl hwait.1⟩
  · rw [Bool.or_eq_false_iff] at h
    exact ⟨by simpa using hcache, by simpa using h.2, .inr (by simpa using h.1)⟩

/-- What is raised after the first event is news that the options ask for. -/
theorem worthRaising_strip {listener : QueryListener q}
    (h : listener.shouldRaiseEvent (listener.strip snapshot) = true) :
    WorthRaising listener.options (listener.strip snapshot) where
  news := by
    intro hquery hnil
    simp [QueryListener.shouldRaiseEvent, hnil, hquery] at h
  data := by
    intro hinclude change hchange
    rw [QueryListener.strip, if_neg (by simp [hinclude])] at hchange
    exact bne_iff_ne.mp (List.mem_filter.mp hchange).2

theorem shown_concat (events : List (ViewSnapshot q)) (listener : QueryListener q)
    (event : ViewSnapshot q) :
    (⟨listener, events ++ [event]⟩ : ListenerLog q).shown =
      replay (⟨listener, events⟩ : ListenerLog q).shown event.documentChanges := by
  simp only [ListenerLog.shown, List.foldl_append, List.foldl_cons, List.foldl_nil]

theorem shows_nil {listener : QueryListener q} (hraised : listener.raisedInitialEvent = false)
    (docs : DocumentSet q) : (⟨listener, []⟩ : ListenerLog q).Shows docs where
  raised := iff_of_true hraised rfl
  first _ _ h := nomatch h
  shown h := (h rfl).elim
  exact h := (h rfl).elim
  current _ h := nomatch h

theorem shows_initialEvent (listener : QueryListener q)
    (hraised : listener.raisedInitialEvent = true) (snapshot : ViewSnapshot q) :
    (⟨listener, [QueryListener.initialEvent snapshot]⟩ : ListenerLog q).Shows
      snapshot.documents := by
  have hshown : (⟨listener, [QueryListener.initialEvent snapshot]⟩ : ListenerLog q).shown =
      snapshot.documents := replay_initialEvent snapshot
  constructor
  · exact iff_of_false (by simp [hraised]) (by simp)
  · intro event rest h
    obtain ⟨rfl, rfl⟩ := List.cons.inj h
    exact ⟨rfl, by simp⟩
  · intro _
    rw [hshown]
    exact SameData.refl _
  · intro _ _
    exact hshown
  · intro event h
    cases h
    exact SameData.refl _

variable {listener : QueryListener q} {events : List (ViewSnapshot q)}
variable {docs newDocs : DocumentSet q}

theorem shows_keep (updated : QueryListener q)
    (h : (⟨listener, events⟩ : ListenerLog q).Shows docs) (hevents : events ≠ [])
    (hoptions : updated.options = listener.options) (hraised : updated.raisedInitialEvent = true)
    (hsame : SameData (⟨listener, events⟩ : ListenerLog q).shown newDocs)
    (hexact : listener.options.includeDocumentMetadataChanges = true →
      (⟨listener, events⟩ : ListenerLog q).shown = newDocs)
    (hcurrent : ∀ event, events.getLast? = some event → SameData event.documents newDocs) :
    (⟨updated, events⟩ : ListenerLog q).Shows newDocs := by
  constructor
  · exact iff_of_false (by simp [hraised]) hevents
  · intro event rest he
    rw [hoptions]
    exact h.first event rest he
  · intro _
    exact hsame
  · intro _ hinclude
    rw [hoptions] at hinclude
    exact hexact hinclude
  · exact hcurrent

theorem shows_concat (updated : QueryListener q)
    (h : (⟨listener, events⟩ : ListenerLog q).Shows docs) (hevents : events ≠ [])
    (hoptions : updated.options = listener.options) (hraised : updated.raisedInitialEvent = true)
    {event : ViewSnapshot q} (hworth : WorthRaising listener.options event)
    (hsame : SameData
      (replay (⟨listener, events⟩ : ListenerLog q).shown event.documentChanges) newDocs)
    (hexact : listener.options.includeDocumentMetadataChanges = true →
      replay (⟨listener, events⟩ : ListenerLog q).shown event.documentChanges = newDocs)
    (hdocs : event.documents = newDocs) :
    (⟨updated, events ++ [event]⟩ : ListenerLog q).Shows newDocs := by
  constructor
  · exact iff_of_false (by simp [hraised]) (by simp)
  · intro first rest he
    cases events with
    | nil => exact (hevents rfl).elim
    | cons head others =>
        obtain ⟨rfl, rfl⟩ := List.cons.inj he
        have hfirst := h.first head others rfl
        refine ⟨hfirst.1, ?_⟩
        intro later hlater
        rw [hoptions]
        cases List.mem_append.mp hlater with
        | inl hold => exact hfirst.2 later hold
        | inr hnew => exact List.mem_singleton.mp hnew ▸ hworth
  · intro _
    rw [shown_concat]
    exact hsame
  · intro _ hinclude
    rw [hoptions] at hinclude
    rw [shown_concat]
    exact hexact hinclude
  · intro last hlast
    rw [List.getLast?_concat] at hlast
    rw [← Option.some.inj hlast, hdocs]
    exact SameData.refl _

/-- A snapshot with news is received without an assertion, and its documents are shown. -/
theorem receive_shows {log : ListenerLog q}
    (hnews : snapshot.documentChanges ≠ [] ∨ snapshot.syncStateChanged = true)
    (hreports : Reports brought refilled snapshot.oldDocuments snapshot.documentChanges
      snapshot.documents)
    (hlog : log.Shows snapshot.oldDocuments) :
    ∃ next, log.receive snapshot = some next ∧ next.Shows snapshot.documents ∧
      next.Waits snapshot.documents ∧ next.listener.onlineState = log.listener.onlineState ∧
      ∀ event ∈ next.events, event ∈ log.events ∨ event.documents = snapshot.documents := by
  obtain ⟨listener, events⟩ := log
  have hquiet : ¬(snapshot.documentChanges.isEmpty && !snapshot.syncStateChanged) = true := by
    intro hboth
    rw [Bool.and_eq_true, List.isEmpty_iff] at hboth
    cases hnews with
    | inl hchanges => exact hchanges hboth.1
    | inr hsync => simp [hsync] at hboth
  have hdocs := strip_documents listener snapshot
  simp only [ListenerLog.receive, QueryListener.onViewSnapshot, if_neg hquiet]
  cases hraised : listener.raisedInitialEvent with
  | false =>
      have hevents : events = [] := hlog.raised.mp hraised
      subst hevents
      cases hshould : listener.shouldRaiseInitialEvent (listener.strip snapshot)
        listener.onlineState with
      | true =>
          have hshows := shows_initialEvent { listener with
            raisedInitialEvent := true
            snapshot := some (listener.strip snapshot) } rfl (listener.strip snapshot)
          rw [hdocs] at hshows
          refine ⟨_, rfl, hshows, ⟨_, rfl, hdocs, fun h => nomatch h⟩, rfl, ?_⟩
          intro event hevent
          exact .inr (List.mem_singleton.mp hevent ▸ hdocs)
      | false =>
          have hwaits := not_shouldRaiseInitialEvent hshould
          rw [hdocs] at hwaits
          exact ⟨_, rfl, shows_nil rfl _, ⟨_, rfl, hdocs, fun _ => hwaits⟩, rfl, by simp⟩
  | true =>
      have hevents : events ≠ [] := by
        intro hnil
        have hfalse := hlog.raised.mpr hnil
        rw [hraised] at hfalse
        cases hfalse
      have hsame := strip_replay listener hreports (hlog.shown hevents)
      have hexact : listener.options.includeDocumentMetadataChanges = true →
          replay (⟨listener, events⟩ : ListenerLog q).shown
            (listener.strip snapshot).documentChanges = snapshot.documents := by
        intro hinclude
        rw [strip_exact listener hinclude, hlog.exact hevents hinclude]
        exact ViewRuns.replay_eq_of_reports hreports
      cases hshould : listener.shouldRaiseEvent (listener.strip snapshot) with
      | true =>
          have hshows := shows_concat { listener with
            raisedInitialEvent := true
            snapshot := some (listener.strip snapshot) } hlog hevents rfl rfl
            (worthRaising_strip hshould) hsame hexact hdocs
          refine ⟨_, rfl, hshows, ⟨_, rfl, hdocs, fun h => nomatch h⟩, rfl, ?_⟩
          intro event hevent
          cases List.mem_append.mp hevent with
          | inl hold => exact .inl hold
          | inr hnew => exact .inr (List.mem_singleton.mp hnew ▸ hdocs)
      | false =>
          have hnil : (listener.strip snapshot).documentChanges = [] := by
            unfold QueryListener.shouldRaiseEvent at hshould
            split_ifs at hshould with hempty
            all_goals simpa using hempty
          have hkept : ∀ {shown : DocumentSet q}, SameData shown snapshot.oldDocuments →
              SameData shown snapshot.documents := by
            intro shown hshown
            have hreplay := strip_replay listener hreports hshown
            rw [hnil] at hreplay
            exact hreplay
          rw [hnil] at hexact
          have hshows := shows_keep { listener with
            raisedInitialEvent := true
            snapshot := some (listener.strip snapshot) } hlog hevents rfl rfl
            (hkept (hlog.shown hevents)) hexact fun event hlast => hkept (hlog.current event hlast)
          refine ⟨_, rfl, ?_, ⟨_, rfl, hdocs, fun h => nomatch h⟩, rfl, ?_⟩
          · simp only [Option.toList_none, List.append_nil]
            exact hshows
          · simp only [Option.toList_none, List.append_nil]
            intro event
            exact .inl

/-- A change of the online state raises at most the first event. -/
theorem changeOnlineState_shows {log : ListenerLog q} (hshows : log.Shows docs)
    (hwaits : log.Waits docs) (onlineState : OnlineState) :
    (log.changeOnlineState onlineState).Shows docs ∧
      (log.changeOnlineState onlineState).Waits docs ∧
      (log.changeOnlineState onlineState).listener.onlineState = onlineState ∧
      ∀ event ∈ (log.changeOnlineState onlineState).events,
        event ∈ log.events ∨ event.documents = docs := by
  obtain ⟨listener, events⟩ := log
  obtain ⟨last, hlast, rfl, hwait⟩ := hwaits
  dsimp only at hlast
  simp only [ListenerLog.changeOnlineState, QueryListener.onOnlineStateChanged, hlast]
  cases hraised : listener.raisedInitialEvent with
  | true =>
      have hevents : events ≠ [] := by
        intro hnil
        have hfalse := hshows.raised.mpr hnil
        rw [hraised] at hfalse
        cases hfalse
      simp only [Bool.not_true, Bool.false_and, Bool.false_eq_true, if_false, Option.toList_none,
        List.append_nil]
      refine ⟨?_, ⟨last, rfl, rfl, fun h => nomatch h⟩, trivial, fun _ => .inl⟩
      exact shows_keep _ hshows hevents rfl rfl (hshows.shown hevents) (hshows.exact hevents)
        hshows.current
  | false =>
      have hevents : events = [] := hshows.raised.mp hraised
      subst hevents
      split_ifs with hshould
      · refine ⟨shows_initialEvent _ rfl last, ⟨last, rfl, rfl, fun h => nomatch h⟩, rfl, ?_⟩
        intro event hevent
        exact .inr (List.mem_singleton.mp hevent ▸ rfl)
      · rw [Bool.not_false, Bool.true_and] at hshould
        have hwait' := not_shouldRaiseInitialEvent (Bool.eq_false_iff.mpr hshould)
        exact ⟨shows_nil rfl _, ⟨last, rfl, rfl, fun _ => hwait'⟩, rfl, by simp⟩

end Receive

end QueryListeners

end YouRoute
