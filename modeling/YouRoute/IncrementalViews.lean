import Mathlib.Data.Prod.Lex
import YouRoute.FirstMembers
import YouRoute.ViewRuns

/-!
# Views against the local store

A view never runs its query again unless a limit forces it to. It only follows
the documents that changed. The query itself says what the view should hold: the
documents of the local store that match it, cut to its limit. As long as the view
is told of every change, no change is held back until its write is synced and the
server calls only documents of the query modified, the view holds exactly that, and
no assertion of the client is violated.
-/

namespace YouRoute
open FirstMembers

section

variable {K D : Type*} [LinearOrder K]

/-- The documents of the local store, each under its own key. -/
structure LocalDocuments (K D : Type*) where
  get : K → Option (Document K D)
  keyed : ∀ k d, get k = some d → d.key = k

def MaybeDocument.document? : MaybeDocument K D → Option (Document K D)
  | .document d => some d
  | _ => none

variable (q : Query K D)

/-- The data of a document that the query matches. -/
def LocalDocuments.matching (stored : LocalDocuments K D) (k : K) : Option D :=
  ((stored.get k).filter q.accepts).map Document.data

/-- The keys and data that the query selects from the store, before its limit. -/
def LocalDocuments.selected (stored : LocalDocuments K D) : Set (K × D) :=
  {e | stored.matching q e.1 = some e.2}

def Document.entry (d : Document K D) : K × D := (d.key, d.data)

/-- The keys and data of a view, in its order. -/
def DocumentSet.dataEntries {q : Query K D} (s : DocumentSet q) : List (K × D) :=
  s.documents.map Document.entry

/-- The list holds what the query says: all that is selected, or the first or last of it. -/
def Query.Answers (selected : Set (K × D)) (entries : List (K × D)) : Prop :=
  match q.limitType with
  | .none => ∀ e, e ∈ entries ↔ e ∈ selected
  | .first => IsFirst q.order q.limit selected entries
  | .last => IsFirst q.order.flip q.limit selected entries.reverse

/-- What running the query on the local store gives, its limit left aside. -/
structure QueryResult (stored : LocalDocuments K D) where
  documents : KeyMap K (MaybeDocument K D)
  find_eq : ∀ k, documents.find k = ((stored.get k).filter q.accepts).map .document

/-- The target change that stands in for the sync state of a query with the same target. -/
def TargetChange.createSynthesizedTargetChange (current : Bool) : TargetChange K :=
  ⟨current, SortedMap.empty, SortedMap.empty, SortedMap.empty⟩

variable {q}

/-- A view beside the documents of the local store. -/
structure StoredView (q : Query K D) where
  stored : LocalDocuments K D
  view : View q

/-- The store changes and the view is told, or the client goes online or offline. -/
inductive StoreEvent (K D : Type*) [LinearOrder K] where
  | changed (stored : LocalDocuments K D) (docChanges queryResult : KeyMap K (MaybeDocument K D))
      (targetChange : Option (TargetChange K))
  | onlineState (state : OnlineState)

def StoredView.step [DecidableEq D] (s : StoredView q) : StoreEvent K D → Option (StoredView q)
  | .changed stored docChanges queryResult targetChange =>
      (s.view.emitNewSnapshot docChanges queryResult targetChange).map fun (view, _) =>
        ⟨stored, view⟩
  | .onlineState state =>
      (s.view.applyOnlineStateChange state).map fun (view, _) => ⟨s.stored, view⟩

/-- A new view and what it raises first. -/
def StoredView.initializeViewAndComputeSnapshot [DecidableEq D] (q : Query K D)
    (remoteKeys : KeySet K) (stored : LocalDocuments K D) (queryResult : KeyMap K (MaybeDocument K D))
    (synthesized : Option Bool) : Option (StoredView q × ViewChange q) :=
  let view := View.create q remoteKeys
  (view.computeDocumentChanges queryResult none).bind fun changes =>
    (view.applyChanges changes
      (synthesized.map TargetChange.createSynthesizedTargetChange)).map fun (view, change) =>
        (⟨stored, view⟩, change)

/-- The event tells the view what became of the store. -/
def StoredView.Told (s : StoredView q) : StoreEvent K D → Prop
  | .changed stored docChanges queryResult _ =>
      (∀ k, docChanges.find k = none → stored.get k = s.stored.get k) ∧
      (∀ k maybeDoc, docChanges.find k = some maybeDoc → maybeDoc.document? = stored.get k) ∧
      ∀ k, queryResult.find k = ((stored.get k).filter q.accepts).map .document
  | .onlineState _ => True

/-- No changed document waits for its write to be synced, unless its data stay the same. -/
def StoredView.NothingHeldBack (s : StoredView q) : StoreEvent K D → Prop
  | .changed stored docChanges _ _ =>
      ∀ k oldDoc newDoc, (docChanges.find k).isSome →
        s.view.documentSet.getDocument k = some oldDoc →
        (stored.get k).filter q.accepts = some newDoc →
        oldDoc.hasLocalMutations = true → newDoc.hasCommittedMutations = true →
        newDoc.hasLocalMutations = false → newDoc.data = oldDoc.data
  | .onlineState _ => True

/-- The documents that the server calls modified have been added to the query or are now. -/
def StoredView.TargetFits (s : StoredView q) : StoreEvent K D → Prop
  | .changed _ _ _ targetChange =>
      ∀ change, targetChange = some change → ∀ k, change.modifiedDocuments.contains k = true →
        s.view.syncedDocuments.contains k = true ∨ change.addedDocuments.contains k = true
  | .onlineState _ => True

structure StoredView.UpToDate (s : StoredView q) : Prop where
  mutated : MutatedExact s.view.documentSet s.view.mutatedKeys
  answers : q.Answers (s.stored.selected q) s.view.documentSet.dataEntries

end

namespace IncrementalViews
open StepSystem ViewDiffs ViewRuns

variable {K D : Type*} [LinearOrder K] {q : Query K D}

theorem dataEntries_sorted (s : DocumentSet q) :
    s.dataEntries.Pairwise fun a b => q.order.compare a b = .lt :=
  List.pairwise_map.mpr s.documents_sorted

theorem mem_dataEntries {s : DocumentSet q} {e : K × D} :
    e ∈ s.dataEntries ↔ (s.getDocument e.1).map Document.data = some e.2 := by
  rw [DocumentSet.dataEntries, List.mem_map, Option.map_eq_some_iff]
  constructor
  · rintro ⟨d, hd, rfl⟩
    exact ⟨d, DocumentSet.mem_documents.mp hd, rfl⟩
  · rintro ⟨d, hd, hdata⟩
    have hkey : d.key = e.1 := DocumentSet.key_of_getDocument hd
    exact ⟨d, DocumentSet.mem_documents.mpr (by rw [hkey]; exact hd), Prod.ext hkey hdata⟩

omit [LinearOrder K] in
theorem newDocument_eq (maybeDoc : MaybeDocument K D) :
    newDocument q maybeDoc = maybeDoc.document?.filter q.accepts := by
  cases maybeDoc with
  | document d => rw [newDocument, MaybeDocument.document?, Option.filter_some]
  | noDocument => rfl
  | unknownDocument => rfl

/-- Unless it is held back, a change leaves the data of the new document. -/
theorem data_nextDocument [DecidableEq D] (view : View q) (key : K)
    {old new : Option (Document K D)}
    (h : ∀ o n, old = some o → new = some n →
      shouldWaitForSyncedDocument n o = true → n.data = o.data) :
    (view.nextDocument key old new).map Document.data = new.map Document.data := by
  cases old with
  | none => rfl
  | some o =>
      cases new with
      | none => rfl
      | some n =>
          rw [View.nextDocument]
          split_ifs with hdata hwait hpending
          · exact congrArg some (h o n rfl rfl hwait).symm
          · rfl
          · rfl
          · exact congrArg some (not_not.mp hdata)

omit [LinearOrder K] in
theorem limited_map {A B : Type*} (f : A → B) (docs : List A) :
    (q.limited docs).map f = q.limited (docs.map f) := by
  unfold Query.limited
  cases q.limitType with
  | none => rfl
  | first => exact List.map_take
  | last => rw [List.length_map, List.map_drop]

omit [LinearOrder K] in
theorem reverse_limited_last {A : Type*} (hlast : q.limitType = .last) (docs : List A) :
    (q.limited docs).reverse = docs.reverse.take q.limit := by
  rw [Query.limited, hlast]
  simp only []
  rw [List.reverse_drop]
  by_cases hle : q.limit ≤ docs.length
  · rw [Nat.sub_sub_self hle]
  · rw [List.take_of_length_le (by simp; omega), List.take_of_length_le (by simp; omega)]

omit [LinearOrder K] in
theorem flip_sorted {c : Comparator (K × D)} {xs : List (K × D)}
    (h : xs.Pairwise fun a b => c.compare a b = .lt) :
    xs.reverse.Pairwise fun a b => c.flip.compare a b = .lt :=
  List.pairwise_reverse.mpr h

/-- A set that holds everything selected answers the query once it is cut. -/
theorem answers_of_all {selected : Set (K × D)} {s : DocumentSet q}
    (h : ∀ e, e ∈ s.dataEntries ↔ e ∈ selected) :
    q.Answers selected (q.limited s.dataEntries) := by
  unfold Query.Answers
  cases htype : q.limitType with
  | none =>
      rw [Query.limited, htype]
      exact h
  | first =>
      rw [Query.limited, htype]
      refine isFirst_take q.order (dataEntries_sorted s) (fun e he => (h e).mp he) ?_
      intro e he hnot
      exact (hnot ((h e).mpr he)).elim
  | last =>
      simp only []
      rw [reverse_limited_last htype]
      refine isFirst_take q.order.flip (flip_sorted (dataEntries_sorted s)) ?_ ?_
      · intro e he
        exact (h e).mp (List.mem_reverse.mp he)
      · intro e he hnot
        exact (hnot (List.mem_reverse.mpr ((h e).mpr he))).elim

theorem exists_stayed (old new : DocumentSet q) (P : K × D → Prop)
    (h : ∀ d ∈ old.documents, ∃ n, new.getDocument d.key = some n ∧ P n.entry) :
    ∃ stayed : List (K × D), stayed.Nodup ∧ stayed.length = old.documents.length ∧
      ∀ e ∈ stayed, e ∈ new.dataEntries ∧ P e := by
  refine ⟨old.documents.map fun d => ((new.getDocument d.key).getD d).entry, ?_,
    List.length_map _, ?_⟩
  · refine List.Nodup.of_map Prod.fst ?_
    rw [List.map_map]
    refine (List.map_congr_left ?_ : _ = old.documents.map Document.key) ▸ old.keys_nodup
    intro d hd
    obtain ⟨n, hn, -⟩ := h d hd
    rw [Function.comp_apply, hn]
    exact DocumentSet.key_of_getDocument hn
  · intro e he
    obtain ⟨d, hd, rfl⟩ := List.mem_map.mp he
    obtain ⟨n, hn, hP⟩ := h d hd
    rw [hn]
    refine ⟨?_, hP⟩
    rw [mem_dataEntries]
    have hkey : n.key = d.key := DocumentSet.key_of_getDocument hn
    simp only [Option.getD_some, Document.entry, hkey, hn, Option.map_some]

section Passes

variable {old new : DocumentSet q}

theorem getLast?_dataEntries (s : DocumentSet q) :
    s.dataEntries.getLast? = s.getLastDocument.map Document.entry := List.getLast?_map

theorem getLast?_reverse_dataEntries (s : DocumentSet q) :
    s.dataEntries.reverse.getLast? = s.getFirstDocument.map Document.entry := by
  rw [List.getLast?_reverse]
  exact List.head?_map

omit [LinearOrder K] in
/-- No member of a sorted list lies beyond its last one. -/
theorem compare_getLast?_ne_gt {c : Comparator (K × D)} {xs : List (K × D)}
    (hxs : xs.Pairwise fun a b => c.compare a b = .lt) {e last : K × D} (he : e ∈ xs)
    (hlast : xs.getLast? = some last) : c.compare e last ≠ .gt := by
  obtain ⟨front, rfl⟩ := List.getLast?_eq_some_iff.mp hlast
  intro hgt
  rcases List.mem_append.mp he with he | he
  · have hlt := (List.pairwise_append.mp hxs).2.2 e he last (List.mem_singleton_self last)
    rw [hgt] at hlt
    cases hlt
  · rw [List.mem_singleton.mp he, c.compare_self] at hgt
    cases hgt

/-- Without a refill the changed documents still answer the query once they are cut. -/
theorem answers_of_stays {selected newSelected : Set (K × D)}
    (hanswers : q.Answers selected old.dataEntries)
    (hmem : ∀ e ∈ new.dataEntries, e ∈ newSelected)
    (hrest : ∀ e ∈ newSelected, e ∉ new.dataEntries → e ∈ selected ∧ e ∉ old.dataEntries)
    (hstays : ∀ d ∈ old.documents, (lastInLimit old).isSome || (firstInLimit old).isSome →
      ∃ n, new.getDocument d.key = some n ∧ (n.data = d.data ∨
        (∀ last, lastInLimit old = some last → q.comparator.compare n last ≠ .gt) ∧
        ∀ first, firstInLimit old = some first → q.comparator.compare n first ≠ .lt)) :
    q.Answers newSelected (q.limited new.dataEntries) := by
  have hsameEntry : ∀ d ∈ old.documents, ∀ n, new.getDocument d.key = some n →
      n.data = d.data → n.entry ∈ old.dataEntries := by
    intro d hd n hn hdata
    have hkey : n.key = d.key := DocumentSet.key_of_getDocument hn
    exact List.mem_map.mpr ⟨d, hd, Prod.ext hkey.symm hdata.symm⟩
  unfold Query.Answers at hanswers ⊢
  cases htype : q.limitType with
  | none =>
      rw [htype] at hanswers
      rw [Query.limited, htype]
      intro e
      refine ⟨hmem e, ?_⟩
      intro he
      by_contra hnot
      obtain ⟨hold, hout⟩ := hrest e he hnot
      exact hout ((hanswers e).mpr hold)
  | first =>
      rw [htype] at hanswers
      rw [Query.limited, htype]
      refine isFirst_take_of_stays q.order hanswers (dataEntries_sorted new) hmem hrest ?_
      intro hfull
      have hlen : old.size = q.limit := by
        rw [← old.length_documents, ← hfull, DocumentSet.dataEntries, List.length_map]
      have hlast : lastInLimit old = old.getLastDocument := by
        rw [lastInLimit, Query.hasLimitToFirst, htype, hlen]
        simp
      obtain ⟨stayed, hnodup, hslen, hstay⟩ :=
        exists_stayed old new (fun e => ∀ last, old.dataEntries.getLast? = some last →
          q.order.compare e last ≠ .gt) (by
          intro d hd
          have hpos : (lastInLimit old).isSome || (firstInLimit old).isSome := by
            rw [hlast, DocumentSet.getLastDocument,
              List.getLast?_eq_some_getLast (List.ne_nil_of_mem hd)]
            rfl
          obtain ⟨n, hn, hcase⟩ := hstays d hd hpos
          refine ⟨n, hn, ?_⟩
          intro last hlastEntry
          rcases hcase with hdata | ⟨hlt, -⟩
          · exact compare_getLast?_ne_gt (dataEntries_sorted old) (hsameEntry d hd n hn hdata)
              hlastEntry
          · rw [getLast?_dataEntries] at hlastEntry
            obtain ⟨lastDoc, hlastDoc, rfl⟩ := Option.map_eq_some_iff.mp hlastEntry
            exact hlt lastDoc (hlast.trans hlastDoc))
      refine ⟨stayed, hnodup, ?_, hstay⟩
      rw [hslen, old.length_documents, hlen]
  | last =>
      rw [htype] at hanswers
      simp only [] at hanswers ⊢
      rw [reverse_limited_last htype]
      refine isFirst_take_of_stays q.order.flip hanswers (flip_sorted (dataEntries_sorted new))
        (fun e he => hmem e (List.mem_reverse.mp he)) ?_ ?_
      · intro e he hnot
        obtain ⟨hold, hout⟩ := hrest e he fun hin => hnot (List.mem_reverse.mpr hin)
        exact ⟨hold, fun hin => hout (List.mem_reverse.mp hin)⟩
      intro hfull
      have hlen : old.size = q.limit := by
        rw [← old.length_documents, ← hfull, List.length_reverse, DocumentSet.dataEntries,
          List.length_map]
      have hfirst : firstInLimit old = old.getFirstDocument := by
        rw [firstInLimit, Query.hasLimitToLast, htype, hlen]
        simp
      obtain ⟨stayed, hnodup, hslen, hstay⟩ :=
        exists_stayed old new (fun e => ∀ last, old.dataEntries.reverse.getLast? = some last →
          q.order.flip.compare e last ≠ .gt) (by
          intro d hd
          have hpos : (lastInLimit old).isSome || (firstInLimit old).isSome := by
            rw [hfirst, DocumentSet.getFirstDocument,
              List.head?_eq_some_head (List.ne_nil_of_mem hd)]
            exact Bool.or_true _
          obtain ⟨n, hn, hcase⟩ := hstays d hd hpos
          refine ⟨n, hn, ?_⟩
          intro last hlastEntry
          rcases hcase with hdata | ⟨-, hlt⟩
          · exact compare_getLast?_ne_gt (flip_sorted (dataEntries_sorted old))
              (List.mem_reverse.mpr (hsameEntry d hd n hn hdata)) hlastEntry
          · rw [getLast?_reverse_dataEntries] at hlastEntry
            obtain ⟨firstDoc, hfirstDoc, rfl⟩ := Option.map_eq_some_iff.mp hlastEntry
            rw [Comparator.flip_compare, Ne, q.order.gt_iff_lt]
            exact hlt firstDoc (hfirst.trans hfirstDoc))
      refine ⟨stayed, hnodup, ?_, ?_⟩
      · rw [hslen, old.length_documents, hlen]
      · intro e he
        exact ⟨List.mem_reverse.mpr (hstay e he).1, (hstay e he).2⟩

end Passes

section Step

omit [LinearOrder K] in
theorem mem_of_answers {selected : Set (K × D)} {entries : List (K × D)}
    (h : q.Answers selected entries) {e : K × D} (he : e ∈ entries) : e ∈ selected := by
  unfold Query.Answers at h
  cases htype : q.limitType with
  | none =>
      rw [htype] at h
      exact (h e).mp he
  | first =>
      rw [htype] at h
      exact h.mem e he
  | last =>
      rw [htype] at h
      exact h.mem e (List.mem_reverse.mpr he)

omit [LinearOrder K] in
theorem mem_of_mem_limited {A : Type*} {docs : List A} {a : A} (h : a ∈ q.limited docs) :
    a ∈ docs := by
  unfold Query.limited at h
  cases htype : q.limitType with
  | none =>
      rw [htype] at h
      exact h
  | first =>
      rw [htype] at h
      exact List.mem_of_mem_take h
  | last =>
      rw [htype] at h
      exact List.mem_of_mem_drop h

variable [DecidableEq D]

omit [DecidableEq D] in
/-- Applying changes meets no assertion but the one on the modified documents. -/
theorem exists_applyChanges (view : View q) (docChanges : ViewDocumentChanges q)
    (targetChange : Option (TargetChange K)) (hrefill : docChanges.needsRefill = false)
    (htarget : ∀ change, targetChange = some change →
      ∀ k, change.modifiedDocuments.contains k = true →
        view.syncedDocuments.contains k = true ∨ change.addedDocuments.contains k = true) :
    ∃ updated, view.applyChanges docChanges targetChange = some updated := by
  unfold View.applyChanges
  rw [hrefill]
  simp only [Bool.false_eq_true, if_false]
  cases targetChange with
  | none => exact ⟨_, rfl⟩
  | some change =>
      have hall : (change.modifiedDocuments.keys.all fun key =>
          (change.addedDocuments.keys.foldl (fun (s : KeySet K) key => s.insert key ())
            view.syncedDocuments).contains key) = true := by
        refine List.all_eq_true.mpr ?_
        intro k hk
        rw [contains_foldl_insert, KeyMap.mem_keys]
        exact (htarget change rfl k (KeyMap.mem_keys.mp hk)).symm
      simp only [Option.elim_some, View.applyTargetChange, hall, if_true, Option.map_some]
      exact ⟨_, rfl⟩

/-- A pass over the changed documents of the store, before the limit is met. -/
theorem answers_computeDocumentChanges {view : View q} (stored newStored : LocalDocuments K D)
    {docChanges : KeyMap K (MaybeDocument K D)} (refilled : Document K D → Prop)
    (hview : MutatedExact view.documentSet view.mutatedKeys)
    (hanswers : q.Answers (stored.selected q) view.documentSet.dataEntries)
    (hsame : ∀ k, docChanges.find k = none → newStored.get k = stored.get k)
    (htold : ∀ k maybeDoc, docChanges.find k = some maybeDoc →
      maybeDoc.document? = newStored.get k)
    (hwait : ∀ k oldDoc newDoc, (docChanges.find k).isSome →
      view.documentSet.getDocument k = some oldDoc →
      (newStored.get k).filter q.accepts = some newDoc →
      oldDoc.hasLocalMutations = true → newDoc.hasCommittedMutations = true →
      newDoc.hasLocalMutations = false → newDoc.data = oldDoc.data) :
    ∃ changes, view.computeDocumentChanges docChanges none = some changes ∧
      changes.Tracks (Brings docChanges) refilled view.documentSet.getDocument ∧
      (∀ e ∈ changes.documentSet.dataEntries, e ∈ newStored.selected q) ∧
      (changes.needsRefill = false →
        q.Answers (newStored.selected q) changes.documentSet.dataEntries) ∧
      ((∀ k, view.documentSet.getDocument k = none) → changes.needsRefill = false) := by
  have hkeyed : Keyed docChanges := by
    intro k maybeDoc hfind
    cases maybeDoc with
    | document d =>
        have hd := htold k _ hfind
        exact beq_iff_eq.mpr (newStored.keyed k d hd.symm)
    | noDocument => rfl
    | unknownDocument => rfl
  have hnone : ∀ p, (none : Option (ViewDocumentChanges q)) = some p →
      p.Tracks (Brings docChanges) refilled view.documentSet.getDocument := by
    intro p hp
    cases hp
  obtain ⟨changed, limited, hdocs, hstays, hasks, htracks, hrefill, hcut, hcompute⟩ :=
    computeDocumentChanges_tracks view hview hkeyed none hnone fun _ hd => .inl ⟨hd, rfl⟩
  have hcutEntries :
      limited.documentSet.dataEntries = q.limited changed.documentSet.dataEntries := by
    rw [DocumentSet.dataEntries, hcut, limited_map]
    rfl
  have hchangedData : ∀ k, (docChanges.find k).isSome →
      (changed.documentSet.getDocument k).map Document.data = newStored.matching q k := by
    intro k hk
    obtain ⟨maybeDoc, hfind⟩ := Option.isSome_iff_exists.mp hk
    have hnew : newDocument q maybeDoc = (newStored.get k).filter q.accepts := by
      rw [newDocument_eq, htold k maybeDoc hfind]
    have hk' := hdocs k
    rw [hfind] at hk'
    rw [hk', data_nextDocument, hnew]
    · rfl
    · intro o n ho hn hwaits
      rw [hnew] at hn
      rw [shouldWaitForSyncedDocument, Bool.and_eq_true, Bool.and_eq_true,
        Bool.not_eq_true'] at hwaits
      exact hwait k o n hk ho hn hwaits.1.1 hwaits.1.2 hwaits.2
  have hother : ∀ k, docChanges.find k = none →
      changed.documentSet.getDocument k = view.documentSet.getDocument k := by
    intro k hk
    have hk' := hdocs k
    rw [hk] at hk'
    exact hk'
  have hselected : ∀ e : K × D, docChanges.find e.1 = none →
      (e ∈ newStored.selected q ↔ e ∈ stored.selected q) := by
    intro e he
    rw [LocalDocuments.selected, LocalDocuments.selected, Set.mem_ofPred_eq, Set.mem_ofPred_eq,
      LocalDocuments.matching, LocalDocuments.matching, hsame e.1 he]
  have hmem : ∀ e ∈ changed.documentSet.dataEntries, e ∈ newStored.selected q := by
    intro e he
    rw [mem_dataEntries] at he
    cases hfind : docChanges.find e.1 with
    | some maybeDoc =>
        rw [hchangedData e.1 (by rw [hfind]; rfl)] at he
        exact he
    | none =>
        rw [hother e.1 hfind, ← mem_dataEntries] at he
        exact (hselected e hfind).mpr (mem_of_answers hanswers he)
  refine ⟨limited, ?_, htracks, ?_, ?_, ?_⟩
  · rw [hcompute]
    simp
  · intro e he
    rw [hcutEntries] at he
    exact hmem e (mem_of_mem_limited he)
  · intro hno
    rw [hcutEntries]
    refine answers_of_stays hanswers hmem ?_ ?_
    · intro e he hnot
      have hfind : docChanges.find e.1 = none := by
        by_contra hsome
        refine hnot (mem_dataEntries.mpr ?_)
        rw [hchangedData e.1 (Option.isSome_iff_ne_none.mpr hsome)]
        exact he
      refine ⟨(hselected e hfind).mp he, ?_⟩
      rw [mem_dataEntries, hother e.1 hfind] at hnot
      rwa [mem_dataEntries]
    · intro d hd hlimit
      have hget := DocumentSet.mem_documents.mp hd
      cases hfind : docChanges.find d.key with
      | some maybeDoc =>
          exact hstays (hrefill.symm.trans hno) d.key (by rw [hfind]; rfl) d hget hlimit
      | none => exact ⟨d, (hother d.key hfind).trans hget, .inl rfl⟩
  · intro hempty
    rw [hrefill, Bool.eq_false_iff]
    intro hneeds
    obtain ⟨k, _, _, _, o, ho, _⟩ := hasks hneeds
    rw [View.startingChanges, hempty k] at ho
    cases ho

/-- A second run of the query leaves nothing to ask for. -/
theorem answers_refill {view : View q} {newStored : LocalDocuments K D}
    {queryResult : KeyMap K (MaybeDocument K D)} {changes : ViewDocumentChanges q}
    (hview : MutatedExact view.documentSet view.mutatedKeys)
    {brought : Document K D → Prop}
    (htracks : changes.Tracks brought (Brings queryResult) view.documentSet.getDocument)
    (hmem : ∀ e ∈ changes.documentSet.dataEntries, e ∈ newStored.selected q)
    (hresult : ∀ k, queryResult.find k = ((newStored.get k).filter q.accepts).map .document) :
    ∃ refilled, view.computeDocumentChanges queryResult (some changes) = some refilled ∧
      refilled.Tracks brought (Brings queryResult) view.documentSet.getDocument ∧
      refilled.needsRefill = false ∧
      q.Answers (newStored.selected q) refilled.documentSet.dataEntries := by
  have hkeyed : Keyed queryResult := by
    intro k maybeDoc hfind
    rw [hresult, Option.map_eq_some_iff] at hfind
    obtain ⟨d, hd, rfl⟩ := hfind
    exact beq_iff_eq.mpr (newStored.keyed k d (Option.filter_eq_some_iff.mp hd).1)
  have hsameData : ∀ k o, changes.documentSet.getDocument k = some o →
      newStored.matching q k = some o.data := by
    intro k o ho
    refine hmem (k, o.data) (mem_dataEntries.mpr ?_)
    rw [ho]
    rfl
  obtain ⟨changed, limited, hdocs, -, hasks, hltracks, hrefill, hcut, hcompute⟩ :=
    computeDocumentChanges_tracks view hview hkeyed (some changes)
      (fun _ hp => Option.some.inj hp ▸ htracks) (fun _ hd => .inr hd)
  have hfound : ∀ k maybeDoc, queryResult.find k = some maybeDoc →
      newDocument q maybeDoc = (newStored.get k).filter q.accepts := by
    intro k maybeDoc hfind
    rw [hresult, Option.map_eq_some_iff] at hfind
    obtain ⟨d, hd, rfl⟩ := hfind
    rw [newDocument_eq, MaybeDocument.document?, hd, Option.filter_some,
      if_pos (Option.filter_eq_some_iff.mp hd).2]
  have hdata : ∀ k, (changed.documentSet.getDocument k).map Document.data =
      newStored.matching q k := by
    intro k
    have hk := hdocs k
    cases hfind : queryResult.find k with
    | none =>
        rw [hfind] at hk
        have hnone : newStored.matching q k = none := by
          rw [hresult, Option.map_eq_none_iff] at hfind
          rw [LocalDocuments.matching, hfind]
          rfl
        rw [hnone, hk]
        cases hget : changes.documentSet.getDocument k with
        | none =>
            rw [View.startingChanges]
            simp only [hget, Option.map_none]
        | some o =>
            rw [hsameData k o hget] at hnone
            cases hnone
    | some maybeDoc =>
        rw [hfind] at hk
        rw [hk, data_nextDocument, hfound k maybeDoc hfind]
        · rfl
        · intro o n ho hn _
          have hsome := hsameData k o ho
          rw [hfound k maybeDoc hfind] at hn
          rw [LocalDocuments.matching, hn] at hsome
          exact Option.some.inj hsome
  have hno : limited.needsRefill = false := by
    rw [hrefill, Bool.eq_false_iff]
    intro hneeds
    obtain ⟨k, maybeDoc, hfind, _, o, ho, hout⟩ := hasks hneeds
    have hsome := hsameData k o ho
    rw [LocalDocuments.matching, ← hfound k maybeDoc hfind, Option.map_eq_some_iff] at hsome
    obtain ⟨n, hn, hsame⟩ := hsome
    exact (hout n hn).1 hsame.symm
  refine ⟨limited, ?_, hltracks, hno, ?_⟩
  · rw [hcompute, hno]
    rfl
  · rw [DocumentSet.dataEntries, hcut, limited_map]
    refine answers_of_all ?_
    intro e
    rw [mem_dataEntries, hdata]
    rfl

/-- Where the view is told of the store, it takes the step and is up to date again. -/
theorem step_of_told {s : StoredView q} {event : StoreEvent K D} (hs : s.UpToDate)
    (htold : s.Told event) (hwait : s.NothingHeldBack event) (htarget : s.TargetFits event) :
    ∃ t, s.step event = some t ∧ t.UpToDate := by
  cases event with
  | changed stored docChanges queryResult targetChange =>
      obtain ⟨hsame, htell, hresult⟩ := htold
      obtain ⟨changes, hcompute, htracks, hmem, hanswers, -⟩ :=
        answers_computeDocumentChanges s.stored stored (Brings queryResult) hs.mutated hs.answers
          hsame htell hwait
      obtain ⟨refilled, hrefill, hrtracks, hno, hranswers⟩ : ∃ refilled,
          s.view.refill queryResult changes = some refilled ∧
          refilled.Tracks (Brings docChanges) (Brings queryResult)
            s.view.documentSet.getDocument ∧ refilled.needsRefill = false ∧
          q.Answers (stored.selected q) refilled.documentSet.dataEntries := by
        unfold View.refill
        split_ifs with hneeds
        · exact answers_refill hs.mutated htracks hmem hresult
        · have hno := Bool.eq_false_iff.mpr hneeds
          exact ⟨changes, rfl, htracks, hno, hanswers hno⟩
      obtain ⟨⟨updated, change⟩, happly⟩ :=
        exists_applyChanges s.view refilled targetChange hno htarget
      obtain ⟨_, targeted, happlied⟩ := applyChanges_cases happly
      refine ⟨⟨stored, updated⟩, ?_, ?_, ?_⟩
      · simp only [StoredView.step, View.emitNewSnapshot, hcompute, hrefill, happly,
          Option.bind_some, Option.map_some]
      · rw [happlied.documents_eq.1, happlied.documents_eq.2]
        exact hrtracks.mutated
      · rw [happlied.documents_eq.1]
        exact hranswers
  | onlineState state =>
      simp only [StoredView.step]
      unfold View.applyOnlineStateChange
      split_ifs with hoff
      · obtain ⟨⟨updated, change⟩, happly⟩ :=
          exists_applyChanges { s.view with current := false }
            ⟨s.view.documentSet, SortedMap.empty, s.view.mutatedKeys, false⟩ none rfl
            (fun _ h => by cases h)
        obtain ⟨_, targeted, happlied⟩ := applyChanges_cases happly
        refine ⟨⟨s.stored, updated⟩, by rw [happly]; rfl, ?_, ?_⟩
        · rw [happlied.documents_eq.1, happlied.documents_eq.2]
          exact hs.mutated
        · rw [happlied.documents_eq.1]
          exact hs.answers
      · exact ⟨s, rfl, hs⟩

def unmatched (q : Query K D) (stored : LocalDocuments K D) : LocalDocuments K D where
  get k := (stored.get k).filter fun d => !q.accepts d
  keyed k d h := stored.keyed k d (Option.filter_eq_some_iff.mp h).1

omit [LinearOrder K] [DecidableEq D] in
theorem get_unmatched {stored : LocalDocuments K D} {k : K}
    (h : (stored.get k).filter q.accepts = none) : (unmatched q stored).get k = stored.get k := by
  change (stored.get k).filter (fun d => !q.accepts d) = stored.get k
  cases hget : stored.get k with
  | none => rfl
  | some d =>
      rw [hget, Option.filter_some] at h
      split_ifs at h with haccepts
      rw [Option.filter_some, if_pos (by simpa using haccepts)]

omit [LinearOrder K] [DecidableEq D] in
theorem selected_unmatched (stored : LocalDocuments K D) :
    (unmatched q stored).selected q = ∅ := by
  refine Set.eq_empty_iff_forall_notMem.mpr ?_
  intro e he
  obtain ⟨d, hd, -⟩ := Option.map_eq_some_iff.mp he
  obtain ⟨hin, haccepts⟩ := Option.filter_eq_some_iff.mp hd
  have hnot := (Option.filter_eq_some_iff.mp hin).2
  rw [haccepts] at hnot
  cases hnot

omit [DecidableEq D] in
theorem answers_empty : q.Answers ∅ (DocumentSet.empty : DocumentSet q).dataEntries := by
  unfold Query.Answers
  have hfirst : ∀ c : Comparator (K × D), IsFirst c q.limit ∅ [] := by
    intro c
    exact ⟨List.Pairwise.nil, by simp, Nat.zero_le _, by simp⟩
  cases q.limitType with
  | none =>
      intro e
      exact iff_of_false (fun he => nomatch he) (Set.notMem_empty e)
  | first => exact hfirst q.order
  | last => exact hfirst q.order.flip

theorem initializeView_upToDate (q : Query K D) (remoteKeys : KeySet K)
    (stored : LocalDocuments K D) (result : QueryResult q stored) (synthesized : Option Bool) :
    ∃ s change, StoredView.initializeViewAndComputeSnapshot q remoteKeys stored result.documents
      synthesized = some (s, change) ∧ s.UpToDate ∧ change.snapshot.isSome = true := by
  have hanswers : q.Answers ((unmatched q stored).selected q)
      (View.create q remoteKeys).documentSet.dataEntries := by
    rw [selected_unmatched]
    exact answers_empty
  obtain ⟨changes, hcompute, htracks, -, hchanges, hquiet⟩ :=
    answers_computeDocumentChanges (unmatched q stored) stored (fun _ => False)
      mutatedExact_empty hanswers
      (by
        intro k hk
        rw [result.find_eq, Option.map_eq_none_iff] at hk
        exact (get_unmatched hk).symm)
      (by
        intro k maybeDoc hfind
        rw [result.find_eq, Option.map_eq_some_iff] at hfind
        obtain ⟨d, hd, rfl⟩ := hfind
        exact (Option.filter_eq_some_iff.mp hd).1.symm)
      (by
        intro k o n _ ho
        cases ho)
  have hno : changes.needsRefill = false := hquiet fun _ => rfl
  obtain ⟨⟨view, change⟩, happly⟩ := exists_applyChanges (View.create q remoteKeys) changes
    (synthesized.map TargetChange.createSynthesizedTargetChange) hno (by
      intro c hc k hk
      obtain ⟨b, -, rfl⟩ := Option.map_eq_some_iff.mp hc
      cases hk)
  obtain ⟨_, targeted, happlied⟩ := applyChanges_cases happly
  refine ⟨⟨stored, view⟩, change, ?_, ⟨?_, ?_⟩, ?_⟩
  · simp only [StoredView.initializeViewAndComputeSnapshot, hcompute, happly, Option.bind_some,
      Option.map_some]
  · rw [happlied.documents_eq.1, happlied.documents_eq.2]
    exact htracks.mutated
  · rw [happlied.documents_eq.1]
    exact hchanges hno
  · rw [happlied.snapshot_eq]
    have hstate : view.syncState ≠ .none := by
      rw [happlied.syncState_eq]
      split_ifs
      · decide
      · decide
    have hchanged : (view.syncState != (View.create q remoteKeys).syncState) = true :=
      bne_iff_ne.mpr hstate
    rw [hchanged]
    simp

/-- The document with the lowest number, of those that have one. -/
def lowest : Query ℕ ℕ where
  order := (Comparator.ofLinearOrder (ℕ ×ₗ ℕ)).on fun e => toLex (e.2, e.1)
  key_of_same a b h := by
    simp only [Comparator.on_compare, Comparator.ofLinearOrder_eq] at h
    exact congrArg (fun e => (ofLex e).2) h
  matchesDocument _ number := number != 0
  limitType := .first
  limit := 1

def numbers (es : List (ℕ × ℕ)) : KeyMap ℕ (MaybeDocument ℕ ℕ) :=
  es.foldl (fun m e => m.insert e.1 (.document ⟨e.1, e.2, .synced⟩)) SortedMap.empty

example :
    (((View.create lowest SortedMap.empty).emitNewSnapshot (numbers [(1, 5), (2, 7)])
        SortedMap.empty none).bind fun (view, _) =>
      (view.emitNewSnapshot (numbers [(1, 9)]) (numbers [(1, 9), (2, 7)]) none).map
        fun (view, change) =>
          (view.documentSet.dataEntries, change.snapshot.map (·.documentChanges))) =
      some ([(2, 7)],
        some [⟨⟨1, 9, .synced⟩, .removed⟩, ⟨⟨2, 7, .synced⟩, .added⟩]) := by
  decide +kernel

end Step

end IncrementalViews

end YouRoute
