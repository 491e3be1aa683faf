import YouRoute.StepSystem
import YouRoute.ViewDiffs

/-!
# Runs of a view

A view goes from one event to the next: documents of the local store changed, or
the client went online or offline. The snapshots raised along a run form a chain.
Each one starts from the documents of the one before and reports exactly how they
differ from its own, and its flags say how the sync state developed. Whoever
replays the changes of the snapshots holds the documents of the view.
-/

namespace YouRoute

section

variable {K D : Type*} [LinearOrder K] {q : Query K D}

inductive ViewEvent (K D : Type*) [LinearOrder K] where
  | changed (docChanges queryResult : KeyMap K (MaybeDocument K D))
      (targetChange : Option (TargetChange K))
  | onlineState (state : OnlineState)

section Step

variable [DecidableEq D]

/-- Run the query again where the changes need a refill. -/
def View.refill (view : View q) (queryResult : KeyMap K (MaybeDocument K D))
    (changes : ViewDocumentChanges q) : Option (ViewDocumentChanges q) :=
  if changes.needsRefill then view.computeDocumentChanges queryResult (some changes)
  else some changes

/-- What one view does when new snapshots are emitted. -/
def View.emitNewSnapshot (view : View q) (docChanges queryResult : KeyMap K (MaybeDocument K D))
    (targetChange : Option (TargetChange K)) : Option (View q × ViewChange q) :=
  (view.computeDocumentChanges docChanges none).bind fun changes =>
    (view.refill queryResult changes).bind fun refilled =>
      view.applyChanges refilled targetChange

def View.step (view : View q) : ViewEvent K D → Option (View q × ViewChange q)
  | .changed docChanges queryResult targetChange =>
      view.emitNewSnapshot docChanges queryResult targetChange
  | .onlineState state => view.applyOnlineStateChange state

/-- A view with all that it was told and has raised so far. -/
structure ViewLog (q : Query K D) where
  view : View q
  events : List (ViewEvent K D)
  snapshots : List (ViewSnapshot q)
  limboChanges : List (LimboDocumentChange K)

def ViewLog.start (q : Query K D) (remoteDocuments : KeySet K) : ViewLog q :=
  ⟨View.create q remoteDocuments, [], [], []⟩

def ViewLog.step (log : ViewLog q) (event : ViewEvent K D) : Option (ViewLog q) :=
  (log.view.step event).map fun (view, change) =>
    ⟨view, log.events ++ [event], log.snapshots ++ change.snapshot.toList,
      log.limboChanges ++ change.limboChanges⟩

end Step

/-- Each document changed has one change, and that says how it changed. -/
structure Reports (brought refilled : Document K D → Prop) (docs : DocumentSet q)
    (changes : List (DocumentViewChange K D)) (newDocs : DocumentSet q) : Prop where
  distinct : (changes.map fun change => change.document.key).Nodup
  net : ∀ k, NetChange brought refilled (docs.getDocument k) (newDocs.getDocument k)
    (changes.find? fun change => change.document.key == k)

/-- The changes are what the event did to the documents, where the query was run again only
if a document fell out of a full view. -/
def ViewEvent.Explains (docs : DocumentSet q) (changes : List (DocumentViewChange K D))
    (newDocs : DocumentSet q) : ViewEvent K D → Prop
  | .changed docChanges queryResult _ =>
      Reports (Brings docChanges) (fun d => AsksRefill docs docChanges ∧ Brings queryResult d)
        docs changes newDocs
  | .onlineState _ => changes = [] ∧ newDocs = docs

/-- Snapshots in a row, at most one for each event, up to the present documents and sync
state. -/
inductive SnapshotChain : List (ViewEvent K D) → List (ViewSnapshot q) → DocumentSet q →
    SyncState → Prop
  | nil : SnapshotChain [] [] DocumentSet.empty .none
  | quiet {events : List (ViewEvent K D)} {snapshots : List (ViewSnapshot q)}
      {docs : DocumentSet q} {state : SyncState} (event : ViewEvent K D) :
      SnapshotChain events snapshots docs state →
      SnapshotChain (events ++ [event]) snapshots docs state
  | snoc {events : List (ViewEvent K D)} {snapshots : List (ViewSnapshot q)} {state : SyncState}
      {snapshot : ViewSnapshot q} (event : ViewEvent K D) (newState : SyncState) :
      SnapshotChain events snapshots snapshot.oldDocuments state →
      event.Explains snapshot.oldDocuments snapshot.documentChanges snapshot.documents →
      MutatedExact snapshot.documents snapshot.mutatedKeys →
      snapshot.fromCache = (newState == .localOnly) →
      snapshot.syncStateChanged = (newState != state) →
      snapshot.excludesMetadataChanges = false →
      (snapshot.documentChanges ≠ [] ∨ snapshot.syncStateChanged = true) →
      SnapshotChain (events ++ [event]) (snapshots ++ [snapshot]) snapshot.documents newState

/-- The limbo documents by the changes told so far. -/
def replayLimbo (changes : List (LimboDocumentChange K)) : KeySet K :=
  changes.foldl (fun limbo change =>
    match change with
    | .added key => limbo.insert key ()
    | .removed key => limbo.erase key) SortedMap.empty

/-- What is known of a view with its log in every state a run reaches. -/
structure ViewLog.Coherent [DecidableEq D] (log : ViewLog q) : Prop where
  mutated : MutatedExact log.view.documentSet log.view.mutatedKeys
  chain : SnapshotChain log.events log.snapshots log.view.documentSet log.view.syncState
  limbo : log.view.current = true →
    ∀ k, log.view.limboDocuments.contains k = log.view.shouldBeInLimbo k
  limboChanges : replayLimbo log.limboChanges = log.view.limboDocuments
  synced : log.view.syncState ≠ .none → (log.view.syncState = .synced ↔
    log.view.current = true ∧ ∀ k, log.view.limboDocuments.contains k = false)

/-- A client's own copy after one change. -/
def replayChange (docs : DocumentSet q) (change : DocumentViewChange K D) : DocumentSet q :=
  match change.type with
  | .removed => docs.erase change.document.key
  | _ => docs.insert (some change.document)

def replay (docs : DocumentSet q) (changes : List (DocumentViewChange K D)) : DocumentSet q :=
  changes.foldl replayChange docs

end

namespace ViewRuns
open StepSystem ViewDiffs

variable {K D : Type*} [LinearOrder K] {q : Query K D}

section Replay

theorem getDocument_replayChange (docs : DocumentSet q) (change : DocumentViewChange K D) (k : K) :
    (replayChange docs change).getDocument k =
      if k = change.document.key then
        (if change.type = .removed then none else some change.document)
      else docs.getDocument k := by
  obtain ⟨doc, type⟩ := change
  cases type with
  | removed => simp [replayChange, DocumentSet.getDocument_erase]
  | added => simp [replayChange, DocumentSet.getDocument_insert]
  | modified => simp [replayChange, DocumentSet.getDocument_insert]
  | metadata => simp [replayChange, DocumentSet.getDocument_insert]

theorem getDocument_replay {changes : List (DocumentViewChange K D)}
    (h : (changes.map fun change => change.document.key).Nodup) (docs : DocumentSet q) (k : K) :
    (replay docs changes).getDocument k =
      outcome (docs.getDocument k) (changes.find? fun change => change.document.key == k) := by
  induction changes generalizing docs with
  | nil => rfl
  | cons change changes ih =>
      obtain ⟨hnot, hnodup⟩ := List.nodup_cons.mp h
      rw [replay, List.foldl_cons]
      refine (ih hnodup (replayChange docs change)).trans ?_
      rw [getDocument_replayChange]
      by_cases hk : change.document.key = k
      · have hnone : (changes.find? fun change => change.document.key == k) = none := by
          refine List.find?_eq_none.mpr ?_
          intro other hother hkey
          rw [← hk, beq_iff_eq] at hkey
          exact hnot (List.mem_map.mpr ⟨other, hother, hkey⟩)
        rw [hnone, List.find?_cons_of_pos (by simp [hk]), if_pos hk.symm]
        rfl
      · rw [List.find?_cons_of_neg (by simp [hk]), if_neg (Ne.symm hk)]

/-- The reported changes turn the old documents into the new ones. -/
theorem replay_eq_of_reports {brought refilled : Document K D → Prop}
    {docs newDocs : DocumentSet q} {changes : List (DocumentViewChange K D)}
    (h : Reports brought refilled docs changes newDocs) :
    replay docs changes = newDocs := by
  refine DocumentSet.ext_getDocument ?_
  intro k
  rw [getDocument_replay h.distinct]
  exact outcome_eq (h.net k)

end Replay

section Reports

variable {brought refilled : Document K D → Prop}

/-- The changes of a set, listed in any order, report what the set describes. -/
theorem reports_of_perm {docs newDocs : DocumentSet q} {set : DocumentViewChangeSet K D}
    {changes : List (DocumentViewChange K D)}
    (h : Describes brought refilled docs.getDocument set newDocs.getDocument)
    (hperm : changes.Perm (getChanges set)) : Reports brought refilled docs changes newDocs := by
  have hkeys : (getChanges set).map (fun change => change.document.key) = set.keys := by
    rw [getChanges, List.map_map, SortedMap.keys]
    refine List.map_congr_left ?_
    intro e he
    exact h.keyed e.1 e.2 (KeyMap.mem_entries.mp he)
  have hmem : ∀ change, change ∈ changes ↔ set.find change.document.key = some change := by
    intro change
    rw [hperm.mem_iff, getChanges, List.mem_map]
    constructor
    · rintro ⟨e, he, rfl⟩
      have hfind := KeyMap.mem_entries.mp he
      rw [h.keyed e.1 e.2 hfind]
      exact hfind
    · intro hfind
      exact ⟨(change.document.key, change), KeyMap.mem_entries.mpr hfind, rfl⟩
  refine ⟨?_, ?_⟩
  · rw [(hperm.map _).nodup_iff, hkeys]
    exact set.keys_nodup
  · intro k
    have hfind : (changes.find? fun change => change.document.key == k) = set.find k := by
      cases hk : set.find k with
      | none =>
          refine List.find?_eq_none.mpr ?_
          intro change hchange hkey
          rw [← beq_iff_eq.mp hkey, (hmem change).mp hchange] at hk
          cases hk
      | some change =>
          have hkey : change.document.key = k := h.keyed k change hk
          cases hother : changes.find? fun change => change.document.key == k with
          | none =>
              have hin : change ∈ changes := (hmem change).mpr (by rw [hkey]; exact hk)
              exact (List.find?_eq_none.mp hother change hin (beq_iff_eq.mpr hkey)).elim
          | some other =>
              have hok : other.document.key = k :=
                beq_iff_eq.mp (List.find?_some hother :)
              have hset := (hmem other).mp (List.mem_of_find?_eq_some hother)
              rw [hok, hk] at hset
              exact hset.symm
    rw [hfind]
    exact h.net k

theorem eq_of_reports_nil {docs newDocs : DocumentSet q}
    (h : Reports brought refilled docs [] newDocs) : docs = newDocs := replay_eq_of_reports h

end Reports

section Apply

theorem applyTargetChange_keeps {view targeted : View q} {change : TargetChange K}
    (h : view.applyTargetChange change = some targeted) :
    targeted.documentSet = view.documentSet ∧ targeted.mutatedKeys = view.mutatedKeys ∧
      targeted.limboDocuments = view.limboDocuments ∧ targeted.syncState = view.syncState := by
  simp only [View.applyTargetChange] at h
  split_ifs at h
  cases h
  exact ⟨rfl, rfl, rfl, rfl⟩

theorem updateLimboDocuments_keeps (view : View q) :
    view.updateLimboDocuments.1.documentSet = view.documentSet ∧
      view.updateLimboDocuments.1.mutatedKeys = view.mutatedKeys ∧
      view.updateLimboDocuments.1.syncedDocuments = view.syncedDocuments ∧
      view.updateLimboDocuments.1.current = view.current ∧
      view.updateLimboDocuments.1.syncState = view.syncState := by
  unfold View.updateLimboDocuments
  split_ifs
  · exact ⟨rfl, rfl, rfl, rfl, rfl⟩
  · exact ⟨rfl, rfl, rfl, rfl, rfl⟩

/-- What applying changes leaves: the view with its target change and limbo documents
updated, and the snapshot if there is news. -/
structure Applied (view : View q) (docChanges : ViewDocumentChanges q)
    (targetChange : Option (TargetChange K)) (targeted updated : View q)
    (change : ViewChange q) : Prop where
  targetedBy : targetChange.elim
    (some { view with
      documentSet := docChanges.documentSet
      mutatedKeys := docChanges.mutatedKeys })
    ({ view with
      documentSet := docChanges.documentSet
      mutatedKeys := docChanges.mutatedKeys } : View q).applyTargetChange = some targeted
  updated_eq : updated = { targeted.updateLimboDocuments.1 with syncState := updated.syncState }
  syncState_eq : updated.syncState =
    if updated.limboDocuments.size = 0 ∧ updated.current then .synced else .localOnly
  limbo_eq : change.limboChanges = targeted.updateLimboDocuments.2
  snapshot_eq : change.snapshot =
    if (sortedChanges q docChanges.changeSet).isEmpty &&
      !(updated.syncState != view.syncState) then none
    else some
      { documents := docChanges.documentSet
        oldDocuments := view.documentSet
        documentChanges := sortedChanges q docChanges.changeSet
        mutatedKeys := docChanges.mutatedKeys
        fromCache := updated.syncState == .localOnly
        syncStateChanged := updated.syncState != view.syncState
        excludesMetadataChanges := false }

theorem applyChanges_cases {view updated : View q} {docChanges : ViewDocumentChanges q}
    {targetChange : Option (TargetChange K)} {change : ViewChange q}
    (h : view.applyChanges docChanges targetChange = some (updated, change)) :
    docChanges.needsRefill = false ∧
      ∃ targeted, Applied view docChanges targetChange targeted updated change := by
  unfold View.applyChanges at h
  split_ifs at h with hrefill
  refine ⟨Bool.eq_false_iff.mpr hrefill, ?_⟩
  obtain ⟨targeted, htargeted, hresult⟩ := Option.map_eq_some_iff.mp h
  have hstate : targeted.updateLimboDocuments.1.syncState = view.syncState := by
    rw [(updateLimboDocuments_keeps targeted).2.2.2.2]
    cases targetChange with
    | none =>
        cases htargeted
        rfl
    | some c => exact (applyTargetChange_keeps htargeted).2.2.2
  simp only [hstate] at hresult
  generalize hnew : (if targeted.updateLimboDocuments.1.limboDocuments.size = 0 ∧
    targeted.updateLimboDocuments.1.current = true then SyncState.synced
    else SyncState.localOnly) = newState at hresult
  split_ifs at hresult with hquiet
  · obtain ⟨rfl, rfl⟩ := Prod.mk.inj hresult
    exact ⟨targeted, htargeted, rfl, hnew.symm, rfl, (if_pos hquiet).symm⟩
  · obtain ⟨rfl, rfl⟩ := Prod.mk.inj hresult
    exact ⟨targeted, htargeted, rfl, hnew.symm, rfl, (if_neg hquiet).symm⟩

end Apply

section Chain

variable {view targeted updated : View q} {docChanges : ViewDocumentChanges q}
variable {targetChange : Option (TargetChange K)} {change : ViewChange q}
variable {brought refilled : Document K D → Prop}

theorem Applied.targeted_keeps (h : Applied view docChanges targetChange targeted updated change) :
    targeted.documentSet = docChanges.documentSet ∧
      targeted.mutatedKeys = docChanges.mutatedKeys ∧
      targeted.limboDocuments = view.limboDocuments := by
  have htargeted := h.targetedBy
  cases targetChange with
  | none =>
      have heq := Option.some.inj htargeted
      rw [← heq]
      exact ⟨rfl, rfl, rfl⟩
  | some c =>
      have hkeeps := applyTargetChange_keeps htargeted
      exact ⟨hkeeps.1, hkeeps.2.1, hkeeps.2.2.1⟩

theorem Applied.documents_eq (h : Applied view docChanges targetChange targeted updated change) :
    updated.documentSet = docChanges.documentSet ∧
      updated.mutatedKeys = docChanges.mutatedKeys := by
  have hkeeps := updateLimboDocuments_keeps targeted
  rw [h.updated_eq]
  exact ⟨hkeeps.1.trans h.targeted_keeps.1, hkeeps.2.1.trans h.targeted_keeps.2.1⟩

theorem Applied.reports (h : Applied view docChanges targetChange targeted updated change)
    (htracks : docChanges.Tracks brought refilled view.documentSet.getDocument) :
    Reports brought refilled view.documentSet (sortedChanges q docChanges.changeSet)
      updated.documentSet := by
  rw [h.documents_eq.1]
  exact reports_of_perm htracks.describes (List.perm_insertionSort _ _)

/-- Applied changes raise a snapshot of what they did, unless they did nothing. -/
theorem Applied.snapshot_cases (h : Applied view docChanges targetChange targeted updated change)
    (htracks : docChanges.Tracks brought refilled view.documentSet.getDocument) :
    (change.snapshot = none ∧ updated.documentSet = view.documentSet ∧
      updated.syncState = view.syncState) ∨
    ∃ snapshot, change.snapshot = some snapshot ∧ snapshot.oldDocuments = view.documentSet ∧
      snapshot.documents = updated.documentSet ∧
      snapshot.documentChanges = sortedChanges q docChanges.changeSet ∧
      Reports brought refilled snapshot.oldDocuments snapshot.documentChanges
        snapshot.documents ∧
      MutatedExact snapshot.documents snapshot.mutatedKeys ∧
      snapshot.fromCache = (updated.syncState == .localOnly) ∧
      snapshot.syncStateChanged = (updated.syncState != view.syncState) ∧
      snapshot.excludesMetadataChanges = false ∧
      (snapshot.documentChanges ≠ [] ∨ snapshot.syncStateChanged = true) := by
  have hreports := h.reports htracks
  rw [h.documents_eq.1] at hreports
  rw [h.snapshot_eq, h.documents_eq.1]
  split_ifs with hquiet
  · obtain ⟨hempty, hstate⟩ := Bool.and_eq_true_iff.mp hquiet
    rw [List.isEmpty_iff.mp hempty] at hreports
    exact .inl ⟨rfl, (eq_of_reports_nil hreports).symm, by simpa using hstate⟩
  · refine .inr ⟨_, rfl, rfl, rfl, rfl, hreports, htracks.mutated, rfl, rfl, rfl, ?_⟩
    rw [Bool.and_eq_true, not_and_or] at hquiet
    cases hquiet with
    | inl hempty => exact .inl fun hnil => hempty (List.isEmpty_iff.mpr hnil)
    | inr hstate =>
        right
        simpa using hstate

/-- Applied changes extend the chain by at most one snapshot. -/
theorem Applied.chain (h : Applied view docChanges targetChange targeted updated change)
    (htracks : docChanges.Tracks brought refilled view.documentSet.getDocument)
    {event : ViewEvent K D}
    (hexplains : event.Explains view.documentSet (sortedChanges q docChanges.changeSet)
      updated.documentSet)
    {events : List (ViewEvent K D)} {snapshots : List (ViewSnapshot q)}
    (hchain : SnapshotChain events snapshots view.documentSet view.syncState) :
    SnapshotChain (events ++ [event]) (snapshots ++ change.snapshot.toList) updated.documentSet
      updated.syncState := by
  rcases h.snapshot_cases htracks with ⟨hnone, hdocs, hstate⟩ |
    ⟨snapshot, hsome, hold, hnew, hchanges, -, hmutated, hcache, hsync, hexclude, hnews⟩
  · rw [hnone, hdocs, hstate, Option.toList_none, List.append_nil]
    exact .quiet event hchain
  · rw [← hold] at hchain
    rw [← hold, ← hchanges, ← hnew] at hexplains
    rw [hsome, ← hnew]
    exact .snoc event updated.syncState hchain hexplains hmutated hcache hsync hexclude hnews

end Chain

section Limbo

theorem keySet_ext {s t : KeySet K} (h : ∀ k, s.contains k = t.contains k) : s = t := by
  refine KeyMap.ext_find ?_
  intro k
  have hk := h k
  unfold SortedMap.contains at hk
  cases hs : s.find k with
  | none =>
      rw [hs] at hk
      exact (Option.isNone_iff_eq_none.mp (by rw [← Option.not_isSome, ← hk]; rfl)).symm
  | some u =>
      rw [hs] at hk
      obtain ⟨v, hv⟩ := Option.isSome_iff_exists.mp hk.symm
      rw [hv]

theorem contains_foldl_insert (keys : List K) (s : KeySet K) (k : K) :
    (keys.foldl (fun (s : KeySet K) key => s.insert key ()) s).contains k = true ↔
      k ∈ keys ∨ s.contains k = true := by
  induction keys generalizing s with
  | nil => simp
  | cons key keys ih =>
      rw [List.foldl_cons, ih, contains_insert, List.mem_cons]
      tauto

theorem contains_foldl_erase (keys : List K) (s : KeySet K) (k : K) :
    (keys.foldl (fun (s : KeySet K) key => s.erase key) s).contains k = true ↔
      k ∉ keys ∧ s.contains k = true := by
  induction keys generalizing s with
  | nil => simp
  | cons key keys ih =>
      rw [List.foldl_cons, ih, contains_erase, List.mem_cons]
      tauto

theorem contains_foldl_limbo (p : Document K D → Bool) (docs : List (Document K D))
    (s : KeySet K) (k : K) :
    (docs.foldl (fun (s : KeySet K) doc => if p doc then s.insert doc.key () else s) s).contains k
        = true ↔ (∃ doc ∈ docs, p doc = true ∧ doc.key = k) ∨ s.contains k = true := by
  induction docs generalizing s with
  | nil => simp
  | cons doc docs ih =>
      rw [List.foldl_cons, ih, List.exists_mem_cons_iff]
      split_ifs with hp
      · rw [contains_insert]
        simp only [hp, true_and, eq_comm (a := k)]
        exact or_left_comm.trans or_assoc.symm
      · simp [hp]

/-- While the view is current its limbo documents are those that should be in limbo. -/
theorem contains_updateLimboDocuments {view : View q} (h : view.current = true) (k : K) :
    view.updateLimboDocuments.1.limboDocuments.contains k = view.shouldBeInLimbo k := by
  rw [Bool.eq_iff_iff, View.updateLimboDocuments, if_pos h]
  simp only []
  rw [contains_foldl_limbo]
  constructor
  · rintro (⟨doc, -, hlimbo, rfl⟩ | hempty)
    · exact hlimbo
    · cases hempty
  · intro hlimbo
    left
    cases hdoc : view.documentSet.getDocument k with
    | none => simp [View.shouldBeInLimbo, hdoc] at hlimbo
    | some doc =>
        have hkey : doc.key = k := DocumentSet.key_of_getDocument hdoc
        refine ⟨doc, DocumentSet.mem_documents.mpr (by rw [hkey]; exact hdoc), ?_, hkey⟩
        rw [hkey]
        exact hlimbo

theorem foldl_limboChanges (removed added : List K) (s : KeySet K) :
    (removed.map LimboDocumentChange.removed ++ added.map LimboDocumentChange.added).foldl
        (fun (limbo : KeySet K) change =>
          match change with
          | .added key => limbo.insert key ()
          | .removed key => limbo.erase key) s =
      added.foldl (fun s key => s.insert key ()) (removed.foldl (fun s key => s.erase key) s) := by
  rw [List.foldl_append, List.foldl_map, List.foldl_map]

/-- The limbo changes lead from the old limbo documents to the new ones. -/
theorem replayLimbo_append {changes : List (LimboDocumentChange K)} {view : View q}
    (h : replayLimbo changes = view.limboDocuments) :
    replayLimbo (changes ++ view.updateLimboDocuments.2) =
      view.updateLimboDocuments.1.limboDocuments := by
  rw [replayLimbo, List.foldl_append]
  change List.foldl _ (replayLimbo changes) _ = _
  rw [h]
  unfold View.updateLimboDocuments
  split_ifs with hcurrent
  · simp only []
    rw [foldl_limboChanges]
    refine keySet_ext ?_
    intro k
    rw [Bool.eq_iff_iff, contains_foldl_insert, contains_foldl_erase]
    simp only [List.mem_filter, KeyMap.mem_keys, Bool.not_eq_true']
    generalize (List.foldl _ _ _ : KeySet K).contains k = b
    cases b <;> cases view.limboDocuments.contains k <;> simp
  · rfl

end Limbo

section Runs

variable [DecidableEq D]

theorem keyed_of_foldlM {view : View q} {oldDocumentSet : DocumentSet q}
    {last first : Option (Document K D)} {es : List (K × MaybeDocument K D)}
    {s t : ViewDocumentChanges q}
    (h : es.foldlM (view.changeDocument oldDocumentSet last first) s = some t) :
    ∀ e ∈ es, e.2.hasKey e.1 = true := by
  induction es generalizing s with
  | nil => simp
  | cons e es ih =>
      rw [List.foldlM_cons] at h
      obtain ⟨u, hu, hes⟩ := Option.bind_eq_some_iff.mp h
      intro d hd
      rcases List.mem_cons.mp hd with rfl | hd
      · unfold View.changeDocument at hu
        by_contra hkey
        rw [if_neg hkey] at hu
        cases hu
      · exact ih hes d hd

/-- The assertion on the keys of the changed documents held. -/
theorem keyed_of_computeDocumentChanges {view : View q}
    {docChanges : KeyMap K (MaybeDocument K D)} {previous : Option (ViewDocumentChanges q)}
    {changes : ViewDocumentChanges q}
    (h : view.computeDocumentChanges docChanges previous = some changes) : Keyed docChanges := by
  simp only [View.computeDocumentChanges, Option.bind_eq_bind] at h
  obtain ⟨changed, hchanged, -⟩ := Option.bind_eq_some_iff.mp h
  intro k d hd
  exact keyed_of_foldlM hchanged (k, d) (KeyMap.mem_entries.mpr hd)

/-- A first pass places what the changed documents bring. -/
theorem tracks_of_computeDocumentChanges {view : View q}
    (hview : MutatedExact view.documentSet view.mutatedKeys)
    {docChanges : KeyMap K (MaybeDocument K D)} {changes : ViewDocumentChanges q}
    (h : view.computeDocumentChanges docChanges none = some changes)
    (refilled : Document K D → Prop) :
    changes.Tracks (Brings docChanges) refilled view.documentSet.getDocument ∧
      (changes.needsRefill = true → AsksRefill view.documentSet docChanges) := by
  have hnone : ∀ p, (none : Option (ViewDocumentChanges q)) = some p →
      p.Tracks (Brings docChanges) refilled view.documentSet.getDocument := by
    intro p hp
    cases hp
  obtain ⟨_, limited, _, _, hasks, htracks, hrefill, _, hcompute⟩ :=
    computeDocumentChanges_tracks view hview (keyed_of_computeDocumentChanges h) none hnone
      fun _ hd => .inl ⟨hd, rfl⟩
  rw [hcompute] at h
  split_ifs at h
  rw [← Option.some.inj h]
  exact ⟨htracks, fun hneeds => hasks (hrefill.symm.trans hneeds)⟩

/-- A second pass places what the query brings. -/
theorem tracks_of_refill {view : View q} (hview : MutatedExact view.documentSet view.mutatedKeys)
    {queryResult : KeyMap K (MaybeDocument K D)} {changes refilledChanges : ViewDocumentChanges q}
    {brought refilled : Document K D → Prop}
    (htracks : changes.Tracks brought refilled view.documentSet.getDocument)
    (hrefilled : changes.needsRefill = true → ∀ d, Brings queryResult d → refilled d)
    (h : view.refill queryResult changes = some refilledChanges) :
    refilledChanges.Tracks brought refilled view.documentSet.getDocument := by
  unfold View.refill at h
  split_ifs at h with hneeds
  · obtain ⟨_, limited, _, _, _, hltracks, _, _, hcompute⟩ :=
      computeDocumentChanges_tracks view hview (keyed_of_computeDocumentChanges h) (some changes)
        (fun _ hp => Option.some.inj hp ▸ htracks)
        (fun d hd => .inr (hrefilled hneeds d hd))
    rw [hcompute] at h
    split_ifs at h
    exact Option.some.inj h ▸ hltracks
  · exact Option.some.inj h ▸ htracks

/-- Emitting a new snapshot applies changes that describe what became of the documents. -/
theorem emitNewSnapshot_cases {view updated : View q} {change : ViewChange q}
    (hview : MutatedExact view.documentSet view.mutatedKeys)
    {docChanges queryResult : KeyMap K (MaybeDocument K D)}
    {targetChange : Option (TargetChange K)}
    (h : view.emitNewSnapshot docChanges queryResult targetChange = some (updated, change)) :
    ∃ changes : ViewDocumentChanges q,
      changes.Tracks (Brings docChanges)
        (fun d => AsksRefill view.documentSet docChanges ∧ Brings queryResult d)
        view.documentSet.getDocument ∧
      ∃ targeted, Applied view changes targetChange targeted updated change := by
  obtain ⟨changes, hchanges, h⟩ := Option.bind_eq_some_iff.mp h
  obtain ⟨refilled, hrefilled, h⟩ := Option.bind_eq_some_iff.mp h
  obtain ⟨htracks, hasks⟩ := tracks_of_computeDocumentChanges hview hchanges
    fun d => AsksRefill view.documentSet docChanges ∧ Brings queryResult d
  refine ⟨refilled, ?_, (applyChanges_cases h).2⟩
  exact tracks_of_refill hview htracks (fun hneeds d hd => ⟨hasks hneeds, hd⟩) hrefilled

omit [DecidableEq D] in
theorem unchanged_tracks {view : View q} (hview : MutatedExact view.documentSet view.mutatedKeys) :
    (⟨view.documentSet, SortedMap.empty, view.mutatedKeys, false⟩ : ViewDocumentChanges q).Tracks
      (Brings SortedMap.empty) (Brings SortedMap.empty) view.documentSet.getDocument :=
  ⟨describes_empty _, hview⟩

omit [DecidableEq D] in
/-- Going offline applies no changes to a view that is current no more. -/
theorem applyOnlineStateChange_cases {view updated : View q} {change : ViewChange q}
    {state : OnlineState}
    (h : view.applyOnlineStateChange state = some (updated, change)) :
    (updated = view ∧ change = ⟨none, []⟩) ∨
      ∃ targeted, Applied { view with current := false }
        ⟨view.documentSet, SortedMap.empty, view.mutatedKeys, false⟩ none targeted updated
        change := by
  unfold View.applyOnlineStateChange at h
  split_ifs at h
  · exact .inr (applyChanges_cases h).2
  · cases h
    exact .inl ⟨rfl, rfl⟩

/-- Applied changes keep what is known of a view and its log. -/
theorem Applied.coherent {view targeted updated : View q} {docChanges : ViewDocumentChanges q}
    {targetChange : Option (TargetChange K)} {change : ViewChange q}
    (h : Applied view docChanges targetChange targeted updated change)
    {brought refilled : Document K D → Prop}
    (htracks : docChanges.Tracks brought refilled view.documentSet.getDocument)
    {event : ViewEvent K D}
    (hexplains : event.Explains view.documentSet (sortedChanges q docChanges.changeSet)
      updated.documentSet)
    {events : List (ViewEvent K D)} {snapshots : List (ViewSnapshot q)}
    {limboChanges : List (LimboDocumentChange K)}
    (hchain : SnapshotChain events snapshots view.documentSet view.syncState)
    (hlimbo : replayLimbo limboChanges = view.limboDocuments) :
    (⟨updated, events ++ [event], snapshots ++ change.snapshot.toList,
      limboChanges ++ change.limboChanges⟩ : ViewLog q).Coherent := by
  have hkeeps := updateLimboDocuments_keeps targeted
  have hcurrent : updated.current = targeted.current :=
    (congrArg View.current h.updated_eq).trans hkeeps.2.2.2.1
  have hlimboDocs : updated.limboDocuments = targeted.updateLimboDocuments.1.limboDocuments :=
    (congrArg View.limboDocuments h.updated_eq).trans rfl
  refine ⟨?_, h.chain htracks hexplains hchain, ?_, ?_, ?_⟩
  · rw [h.documents_eq.1, h.documents_eq.2]
    exact htracks.mutated
  · intro hon k
    have hshould : updated.shouldBeInLimbo k = targeted.shouldBeInLimbo k := by
      have hsynced : updated.syncedDocuments = targeted.syncedDocuments :=
        (congrArg View.syncedDocuments h.updated_eq).trans hkeeps.2.2.1
      unfold View.shouldBeInLimbo
      rw [hsynced, h.documents_eq.1, h.targeted_keeps.1]
    rw [hshould, hlimboDocs]
    exact contains_updateLimboDocuments (hcurrent ▸ hon) k
  · rw [hlimboDocs, h.limbo_eq]
    exact replayLimbo_append (hlimbo.trans h.targeted_keeps.2.2.symm)
  · intro _
    have hsize : updated.limboDocuments.size = 0 ↔
        ∀ k, updated.limboDocuments.contains k = false := by
      rw [SortedMap.size, List.length_eq_zero_iff]
      constructor
      · intro hnil k
        rw [SortedMap.contains, SortedMap.find, hnil]
        rfl
      · intro hnone
        refine List.eq_nil_iff_forall_not_mem.mpr ?_
        intro e he
        have hin := hnone e.1
        rw [SortedMap.contains, SortedMap.find_of_mem he] at hin
        cases hin
    rw [h.syncState_eq, ← hsize]
    split_ifs with hsynced
    · exact iff_of_true rfl hsynced.symm
    · exact iff_of_false (by decide) fun h => hsynced h.symm

/-- One event keeps what is known of a view and its log. -/
theorem step_coherent (log : ViewLog q) (event : ViewEvent K D) (next : ViewLog q)
    (h : log.Coherent) (hstep : log.step event = some next) : next.Coherent := by
  obtain ⟨⟨updated, change⟩, hview, rfl⟩ := Option.map_eq_some_iff.mp hstep
  cases event with
  | changed docChanges queryResult targetChange =>
      obtain ⟨changes, htracks, targeted, happlied⟩ := emitNewSnapshot_cases h.mutated hview
      have hexplains : (ViewEvent.changed docChanges queryResult targetChange).Explains
          log.view.documentSet (sortedChanges q changes.changeSet) updated.documentSet :=
        happlied.reports htracks
      exact happlied.coherent htracks hexplains h.chain h.limboChanges
  | onlineState state =>
      rcases applyOnlineStateChange_cases hview with ⟨rfl, rfl⟩ | ⟨targeted, happlied⟩
      · simp only [Option.toList_none, List.append_nil]
        exact ⟨h.mutated, .quiet _ h.chain, h.limbo, h.limboChanges, h.synced⟩
      · have hexplains : (ViewEvent.onlineState (K := K) (D := D) state).Explains
            log.view.documentSet (sortedChanges q SortedMap.empty) updated.documentSet :=
          ⟨rfl, happlied.documents_eq.1⟩
        exact happlied.coherent (unchanged_tracks h.mutated) hexplains h.chain h.limboChanges

theorem start_coherent (q : Query K D) (remoteDocuments : KeySet K) :
    (ViewLog.start q remoteDocuments).Coherent where
  mutated := mutatedExact_empty
  chain := .nil
  limbo h := nomatch h
  limboChanges := rfl
  synced h := (h rfl).elim

/-- What is known of a view holds in every state that a run from a new view reaches. -/
theorem throughout_coherent (q : Query K D) (remoteDocuments : KeySet K)
    (events : List (ViewEvent K D)) :
    Throughout ViewLog.step ViewLog.Coherent (ViewLog.start q remoteDocuments) events :=
  throughout_of_step step_coherent (start_coherent q remoteDocuments)

/-- At all times the snapshots form a chain that ends in the documents of the view. -/
theorem snapshots_form_chain (q : Query K D) (remoteDocuments : KeySet K)
    (events : List (ViewEvent K D)) :
    Throughout ViewLog.step
      (fun log => SnapshotChain log.events log.snapshots log.view.documentSet log.view.syncState)
      (ViewLog.start q remoteDocuments) events := by
  intro pre log hpre hrun
  exact (throughout_coherent q remoteDocuments events pre log hpre hrun).chain

omit [DecidableEq D] in
theorem replay_chain {events : List (ViewEvent K D)} {snapshots : List (ViewSnapshot q)}
    {docs : DocumentSet q} {state : SyncState} (h : SnapshotChain events snapshots docs state) :
    snapshots.foldl (fun docs snapshot => replay docs snapshot.documentChanges)
      DocumentSet.empty = docs := by
  induction h with
  | nil => rfl
  | quiet event _ ih => exact ih
  | snoc event newState _ hexplains _ _ _ _ _ ih =>
      rw [List.foldl_append, ih]
      cases event with
      | changed docChanges queryResult targetChange => exact replay_eq_of_reports hexplains
      | onlineState state =>
          obtain ⟨hnone, hsame⟩ := hexplains
          rw [List.foldl_cons, hnone, hsame]
          rfl

/-- Replaying the changes of all snapshots leads at all times to the documents of the view. -/
theorem snapshots_replay_to_documents (q : Query K D) (remoteDocuments : KeySet K)
    (events : List (ViewEvent K D)) :
    Throughout ViewLog.step
      (fun log => log.snapshots.foldl (fun docs snapshot => replay docs snapshot.documentChanges)
        DocumentSet.empty = log.view.documentSet)
      (ViewLog.start q remoteDocuments) events := by
  intro pre log hpre hrun
  exact replay_chain (throughout_coherent q remoteDocuments events pre log hpre hrun).chain

omit [DecidableEq D] in
theorem shouldBeInLimbo_iff {view : View q} {k : K} : view.shouldBeInLimbo k = true ↔
    view.syncedDocuments.contains k = false ∧
      ∃ doc, view.documentSet.getDocument k = some doc ∧ doc.hasLocalMutations = false := by
  rw [View.shouldBeInLimbo, Bool.and_eq_true, Bool.not_eq_true']
  refine and_congr_right fun _ => ?_
  cases view.documentSet.getDocument k with
  | none => simp
  | some doc => simp

/-- At all times the limbo changes told lead to the limbo documents. While the view is current
these are its documents without local mutations that the server did not confirm, and it is
synced when there are none. -/
theorem limbo_followed (q : Query K D) (remoteDocuments : KeySet K)
    (events : List (ViewEvent K D)) :
    Throughout ViewLog.step
      (fun log => replayLimbo log.limboChanges = log.view.limboDocuments ∧
        (log.view.current = true → ∀ k, log.view.limboDocuments.contains k = true ↔
          log.view.syncedDocuments.contains k = false ∧
            ∃ doc, log.view.documentSet.getDocument k = some doc ∧
              doc.hasLocalMutations = false) ∧
        (log.view.syncState = .synced → log.view.current = true ∧
          ∀ k, log.view.limboDocuments.contains k = false) ∧
        (log.view.syncState = .localOnly → log.view.current = true →
          ∃ k, log.view.limboDocuments.contains k = true))
      (ViewLog.start q remoteDocuments) events := by
  intro pre log hpre hrun
  have h := throughout_coherent q remoteDocuments events pre log hpre hrun
  refine ⟨h.limboChanges, ?_, ?_, ?_⟩
  · intro hcurrent k
    rw [h.limbo hcurrent k]
    exact shouldBeInLimbo_iff
  · intro hstate
    exact (h.synced (by rw [hstate]; decide)).mp hstate
  · intro hstate hcurrent
    by_contra hnone
    have hsynced : log.view.syncState = .synced := by
      refine (h.synced (by rw [hstate]; decide)).mpr ⟨hcurrent, ?_⟩
      exact fun k => Bool.eq_false_iff.mpr fun hk => hnone ⟨k, hk⟩
    rw [hstate] at hsynced
    cases hsynced

end Runs

end ViewRuns

end YouRoute
