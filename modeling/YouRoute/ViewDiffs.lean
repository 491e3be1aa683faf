import YouRoute.Views

/-!
# What the changes of a view say

While the changed documents are taken one by one, the changes collected so far
describe how the documents differ from those the view had, and the mutated keys
are those of the documents with local mutations. Dropping documents to meet a
limit keeps both. So no hard assertion is met, unless the documents of a second
run of the query ask for another one. Such a run may bring back what was dropped
before, which is why it can make an unchanged document a modified one.
-/

namespace YouRoute

section

variable {K D : Type*} [LinearOrder K] {q : Query K D}

/-- The mutated keys are the keys of the documents with local mutations. -/
def MutatedExact (documentSet : DocumentSet q) (mutatedKeys : KeySet K) : Prop :=
  ∀ k, mutatedKeys.contains k = true ↔
    ∃ d, documentSet.getDocument k = some d ∧ d.hasLocalMutations = true

/-- What one change, or none, says of a document before and after. New versions were brought
by the changed documents or by a second run of the query. -/
inductive NetChange (brought refilled : Document K D → Prop) :
    Option (Document K D) → Option (Document K D) → Option (DocumentViewChange K D) → Prop
  | unchanged (d : Option (Document K D)) : NetChange brought refilled d d none
  | added {d : Document K D} : brought d ∨ refilled d →
      NetChange brought refilled none (some d) (some ⟨d, .added⟩)
  | removed {o d : Document K D} : d = o ∨ brought d ∨ refilled d →
      NetChange brought refilled (some o) none (some ⟨d, .removed⟩)
  | modified {o d : Document K D} : brought d ∧ o.data ≠ d.data ∨ refilled d →
      NetChange brought refilled (some o) (some d) (some ⟨d, .modified⟩)
  | metadata {o d : Document K D} : brought d ∨ refilled d → o.data = d.data → o ≠ d →
      NetChange brought refilled (some o) (some d) (some ⟨d, .metadata⟩)

/-- The set holds the net change of every document, under its key. -/
structure Describes (brought refilled : Document K D → Prop) (old : K → Option (Document K D))
    (set : DocumentViewChangeSet K D) (new : K → Option (Document K D)) : Prop where
  net : ∀ k, NetChange brought refilled (old k) (new k) (set.find k)
  keyed : ∀ k c, set.find k = some c → c.document.key = k

/-- The changes describe the difference from old documents to the present ones. -/
structure ViewDocumentChanges.Tracks (brought refilled : Document K D → Prop)
    (old : K → Option (Document K D)) (s : ViewDocumentChanges q) : Prop where
  describes : Describes brought refilled old s.changeSet s.documentSet.getDocument
  mutated : MutatedExact s.documentSet s.mutatedKeys

/-- The view's mutated keys tell which of the old documents have local mutations. -/
def View.MutatesExactly (view : View q) (old : K → Option (Document K D)) : Prop :=
  ∀ k o, old k = some o → view.mutatedKeys.contains k = o.hasLocalMutations

/-- The document of a key after its change was taken. -/
def View.nextDocument [DecidableEq D] (view : View q) (key : K)
    (old new : Option (Document K D)) : Option (Document K D) :=
  match old, new with
  | some oldDoc, some newDoc =>
      if oldDoc.data ≠ newDoc.data then
        if shouldWaitForSyncedDocument newDoc oldDoc then some oldDoc else some newDoc
      else if view.mutatedKeys.contains key != (newDoc.hasLocalMutations ||
          (view.mutatedKeys.contains key && newDoc.hasCommittedMutations)) then
        some newDoc
      else
        some oldDoc
  | none, new => new
  | some _, none => none

/-- The documents that a limit leaves of an ordered list of them. -/
def Query.limited {A : Type*} (q : Query K D) (docs : List A) : List A :=
  match q.limitType with
  | .none => docs
  | .first => docs.take q.limit
  | .last => docs.drop (docs.length - q.limit)

/-- Every document stands under its own key. -/
def Keyed (docChanges : KeyMap K (MaybeDocument K D)) : Prop :=
  ∀ k d, docChanges.find k = some d → d.hasKey k = true

/-- The last document of a full view with a limit to the first ones. -/
def lastInLimit (set : DocumentSet q) : Option (Document K D) :=
  if q.hasLimitToFirst && set.size == q.limit then set.getLastDocument else none

/-- The first document of a full view with a limit to the last ones. -/
def firstInLimit (set : DocumentSet q) : Option (Document K D) :=
  if q.hasLimitToLast && set.size == q.limit then set.getFirstDocument else none

/-- A document of a full view leaves it, or its new data lead beyond the limit. -/
def FallsOut (lastDocInLimit firstDocInLimit : Option (Document K D))
    (old new : Option (Document K D)) : Prop :=
  (lastDocInLimit.isSome ∨ firstDocInLimit.isSome) ∧ ∃ oldDoc, old = some oldDoc ∧
    ∀ newDoc, new = some newDoc → oldDoc.data ≠ newDoc.data ∧
      ((∃ last, lastDocInLimit = some last ∧ q.comparator.compare newDoc last = .gt) ∨
        ∃ first, firstDocInLimit = some first ∧ q.comparator.compare newDoc first = .lt)

/-- Some changed document of a full view falls out, so that the query has to be run again. -/
def AsksRefill (docs : DocumentSet q) (docChanges : KeyMap K (MaybeDocument K D)) : Prop :=
  ∃ k maybeDoc, docChanges.find k = some maybeDoc ∧
    FallsOut (q := q) (lastInLimit docs) (firstInLimit docs) (docs.getDocument k)
      (newDocument q maybeDoc)

def Brings (docChanges : KeyMap K (MaybeDocument K D)) (d : Document K D) : Prop :=
  docChanges.find d.key = some (.document d)

/-- A document of a full view stays inside the limit, or leaves its data as it is. -/
def StaysInside (lastDocInLimit firstDocInLimit : Option (Document K D))
    (old new : Option (Document K D)) : Prop :=
  ∀ oldDoc, old = some oldDoc → lastDocInLimit.isSome || firstDocInLimit.isSome →
    ∃ newDoc, new = some newDoc ∧
      (newDoc.data = oldDoc.data ∨
        (∀ last, lastDocInLimit = some last → q.comparator.compare newDoc last ≠ .gt) ∧
        ∀ first, firstDocInLimit = some first → q.comparator.compare newDoc first ≠ .lt)

end

namespace ViewDiffs

variable {K D : Type*} [LinearOrder K] {q : Query K D}

theorem contains_insert (keys : KeySet K) (j k : K) :
    (SortedMap.insert keys k ()).contains j = true ↔ j = k ∨ keys.contains j = true := by
  rw [SortedMap.contains, KeyMap.find_insert]
  split_ifs with h
  · simp [h]
  · simp [h, SortedMap.contains]

theorem contains_erase (keys : KeySet K) (j k : K) :
    (SortedMap.erase keys k).contains j = true ↔ j ≠ k ∧ keys.contains j = true := by
  rw [SortedMap.contains, KeyMap.find_erase]
  split_ifs with h
  · simp [h]
  · simp [h, SortedMap.contains]

theorem mutatedExact_empty : MutatedExact (DocumentSet.empty : DocumentSet q) SortedMap.empty := by
  intro k
  constructor
  · intro h
    cases h
  · intro ⟨d, hd, _⟩
    cases hd

theorem mutatedExact_place {documentSet : DocumentSet q} {mutatedKeys : KeySet K}
    (h : MutatedExact documentSet mutatedKeys) (doc : Document K D) :
    MutatedExact (documentSet.insert (some doc))
      (if doc.hasLocalMutations then mutatedKeys.insert doc.key ()
        else mutatedKeys.erase doc.key) := by
  intro k
  rw [DocumentSet.getDocument_insert]
  by_cases hk : k = doc.key
  · rw [if_pos hk]
    split_ifs with hlocal
    · simp [contains_insert, hk, hlocal]
    · simp [contains_erase, hk, hlocal]
  · rw [if_neg hk]
    split_ifs
    · rw [contains_insert, or_iff_right hk]
      exact h k
    · rw [contains_erase, and_iff_right hk]
      exact h k

theorem mutatedExact_drop {documentSet : DocumentSet q} {mutatedKeys : KeySet K}
    (h : MutatedExact documentSet mutatedKeys) (key : K) :
    MutatedExact (documentSet.erase key) (mutatedKeys.erase key) := by
  intro k
  rw [DocumentSet.getDocument_erase, contains_erase]
  by_cases hk : k = key
  · simp [hk]
  · rw [if_neg hk, and_iff_right hk]
    exact h k

section Merge

variable {brought refilled : Document K D → Prop} {a b : Option (Document K D)}
variable {m : Option (DocumentViewChange K D)}

omit [LinearOrder K] in
theorem outcome_eq (h : NetChange brought refilled a b m) : outcome a m = b := by
  cases h with
  | unchanged => rfl
  | added => rfl
  | removed => rfl
  | modified => rfl
  | metadata => rfl

omit [LinearOrder K] in
/-- A first version is placed as it was brought, a later one only by a second run. -/
theorem netChange_place (h : NetChange brought refilled a b m) {d : Document K D}
    {type : ChangeType} (hfits : DocumentViewChange.Fits b (some d) ⟨d, type⟩)
    (hnews : brought d ∧ m = none ∨ refilled d)
    (hmodified : type = .modified → ∀ o, b = some o → o.data ≠ d.data)
    (hmetadata : type = .metadata → ∀ o, a = some o → o ≠ d) :
    NetChange brought refilled a (some d) (merged m ⟨d, type⟩) := by
  have hd : brought d ∨ refilled d := hnews.imp_left And.left
  have hagain : m ≠ none → refilled d := by
    intro hm
    exact hnews.resolve_left fun hfirst => hm hfirst.2
  cases h with
  | unchanged =>
      cases hfits with
      | added => exact .added hd
      | modified o => exact .modified (hd.imp_left fun hb => ⟨hb, hmodified rfl o rfl⟩)
      | @metadata o _ hdata => exact .metadata hd hdata (hmetadata rfl o rfl)
  | added =>
      cases hfits with
      | modified => exact .added hd
      | metadata => exact .added hd
  | removed =>
      cases hfits with
      | added => exact .modified (.inr (hagain (by simp)))
  | modified =>
      cases hfits with
      | modified => exact .modified (.inr (hagain (by simp)))
      | metadata => exact .modified (.inr (hagain (by simp)))
  | @metadata o _ _ hdata _ =>
      cases hfits with
      | modified => exact .modified (.inr (hagain (by simp)))
      | metadata hdata' => exact .metadata hd (hdata.trans hdata') (hmetadata rfl o rfl)

omit [LinearOrder K] in
theorem netChange_drop {o : Document K D} (h : NetChange brought refilled a (some o) m) :
    NetChange brought refilled a none (merged m ⟨o, .removed⟩) := by
  cases h with
  | unchanged => exact .removed (.inl rfl)
  | added => exact .unchanged none
  | modified hd => exact .removed (.inr (hd.imp_left And.left))
  | metadata hd => exact .removed (.inr hd)

end Merge

section Steps

variable {brought refilled : Document K D → Prop}
variable {old : K → Option (Document K D)} {s : ViewDocumentChanges q}

theorem describes_empty (docs : K → Option (Document K D)) :
    Describes brought refilled docs SortedMap.empty docs where
  net k := .unchanged (docs k)
  keyed _ _ h := nomatch h

omit [LinearOrder K] in
theorem merged_key {key : K} {was : Option (DocumentViewChange K D)}
    {change m : DocumentViewChange K D} (hwas : ∀ c, was = some c → c.document.key = key)
    (hchange : change.document.key = key) (h : merged was change = some m) :
    m.document.key = key := by
  cases was with
  | none => exact Option.some.inj h ▸ hchange
  | some c =>
      have hc := hwas c rfl
      obtain ⟨o, type⟩ := c
      cases type with
      | removed => exact Option.some.inj h ▸ hchange
      | metadata => exact Option.some.inj h ▸ hchange
      | added =>
          simp only [merged, Option.ite_none_left_eq_some] at h
          exact Option.some.inj h.2 ▸ hchange
      | modified =>
          simp only [merged] at h
          split_ifs at h
          · exact Option.some.inj h ▸ hc
          · exact Option.some.inj h ▸ hchange

/-- A change that fits the documents is merged, and the set describes the documents after it. -/
theorem describes_addChange {cur : K → Option (Document K D)} {set : DocumentViewChangeSet K D}
    (h : Describes brought refilled old set cur) (change : DocumentViewChange K D)
    {next : Option (Document K D)} (hfits : change.Fits (cur change.document.key) next)
    (hnet : NetChange brought refilled (old change.document.key) next
      (merged (set.find change.document.key) change)) :
    ∃ set', addChange set change = some set' ∧
      Describes brought refilled old set' (Function.update cur change.document.key next) ∧
      ∀ j, j ≠ change.document.key → set'.find j = set.find j := by
  obtain ⟨set', hadd, hfind⟩ :=
    ViewChanges.exists_addChange (outcome_eq (h.net change.document.key)) hfits
  refine ⟨set', hadd, ⟨?_, ?_⟩, fun j hj => by rw [hfind, if_neg hj]⟩
  · intro k
    rw [hfind]
    by_cases hk : k = change.document.key
    · subst hk
      rw [if_pos rfl, Function.update_self]
      exact hnet
    · rw [if_neg hk, Function.update_of_ne hk]
      exact h.net k
  · intro k m hm
    rw [hfind] at hm
    split_ifs at hm with hk
    · subst hk
      exact merged_key (h.keyed _) rfl hm
    · exact h.keyed k m hm

theorem getDocument_insert_eq_update (set : DocumentSet q) (doc : Document K D) :
    (set.insert (some doc)).getDocument =
      Function.update set.getDocument doc.key (some doc) := by
  funext k
  rw [DocumentSet.getDocument_insert, Function.update_apply]

theorem getDocument_erase_eq_update (set : DocumentSet q) (key : K) :
    (set.erase key).getDocument = Function.update set.getDocument key none := by
  funext k
  rw [DocumentSet.getDocument_erase, Function.update_apply]

theorem place_tracks (h : s.Tracks brought refilled old) {doc : Document K D} {type : ChangeType}
    (refill : Bool)
    (hfits : DocumentViewChange.Fits (s.documentSet.getDocument doc.key) (some doc) ⟨doc, type⟩)
    (hnews : brought doc ∧ s.changeSet.find doc.key = none ∨ refilled doc)
    (hmodified : type = .modified →
      ∀ o, s.documentSet.getDocument doc.key = some o → o.data ≠ doc.data)
    (hmetadata : type = .metadata → ∀ o, old doc.key = some o → o ≠ doc) :
    ∃ t, s.place doc.key doc type refill = some t ∧ t.Tracks brought refilled old ∧
      t.documentSet = s.documentSet.insert (some doc) ∧
      t.needsRefill = (s.needsRefill || refill) ∧
      ∀ j, j ≠ doc.key → t.changeSet.find j = s.changeSet.find j := by
  obtain ⟨set, hadd, hset, hother⟩ := describes_addChange h.describes ⟨doc, type⟩ hfits
    (netChange_place (h.describes.net doc.key) hfits hnews hmodified hmetadata)
  rw [ViewDocumentChanges.place, hadd]
  refine ⟨_, rfl, ⟨?_, mutatedExact_place h.mutated doc⟩, rfl, rfl, hother⟩
  rw [getDocument_insert_eq_update]
  exact hset

theorem drop_tracks (h : s.Tracks brought refilled old) {doc : Document K D} (refill : Bool)
    (hdoc : s.documentSet.getDocument doc.key = some doc) :
    ∃ t, s.drop doc.key doc refill = some t ∧ t.Tracks brought refilled old ∧
      t.documentSet = s.documentSet.erase doc.key ∧
      t.needsRefill = (s.needsRefill || refill) ∧
      ∀ j, j ≠ doc.key → t.changeSet.find j = s.changeSet.find j := by
  have hnet := h.describes.net doc.key
  have hfits : DocumentViewChange.Fits (s.documentSet.getDocument doc.key) none
      ⟨doc, .removed⟩ := by
    rw [hdoc]
    exact .removed doc
  rw [hdoc] at hnet
  obtain ⟨set, hadd, hset, hother⟩ := describes_addChange h.describes ⟨doc, .removed⟩ hfits
    (netChange_drop hnet)
  rw [ViewDocumentChanges.drop, hadd]
  refine ⟨_, rfl, ⟨?_, mutatedExact_drop h.mutated doc.key⟩, rfl, rfl, hother⟩
  rw [getDocument_erase_eq_update]
  exact hset

end Steps

section Loop

variable [DecidableEq D] (view : View q) (oldDocumentSet : DocumentSet q)
variable (last first : Option (Document K D))
variable {brought refilled : Document K D → Prop}
variable {old : K → Option (Document K D)} {s : ViewDocumentChanges q}

omit [DecidableEq D] in
theorem newDocument_key {maybeDoc : MaybeDocument K D} {key : K} {d : Document K D}
    (hkey : maybeDoc.hasKey key = true) (h : newDocument q maybeDoc = some d) : d.key = key := by
  cases maybeDoc with
  | document e =>
      rw [newDocument] at h
      split_ifs at h
      rw [← Option.some.inj h]
      exact beq_iff_eq.mp hkey
  | noDocument => cases h
  | unknownDocument => cases h

omit [LinearOrder K] [DecidableEq D] in
/-- A document with other pending writes than the view knew of is another version. -/
theorem ne_of_pendingChange {o d : Document K D} {mutated : Bool}
    (h : mutated = o.hasLocalMutations)
    (hpending : (mutated != (d.hasLocalMutations || (mutated && d.hasCommittedMutations))) = true) :
    o ≠ d := by
  rintro rfl
  rw [h] at hpending
  cases hlocal : o.hasLocalMutations <;> simp [hlocal] at hpending

theorem changeDocument_both {oldDoc newDoc : Document K D} {maybeDoc : MaybeDocument K D}
    (h : s.Tracks brought refilled old) (hkey : maybeDoc.hasKey newDoc.key = true)
    (hsame : oldDocumentSet.getDocument newDoc.key = some oldDoc)
    (hold : s.documentSet.getDocument newDoc.key = some oldDoc)
    (hnew : newDocument q maybeDoc = some newDoc)
    (hnews : brought newDoc ∧ s.changeSet.find newDoc.key = none ∨ refilled newDoc)
    (hmutated : view.MutatesExactly old) :
    ∃ t, view.changeDocument oldDocumentSet last first s (newDoc.key, maybeDoc) = some t ∧
      t.Tracks brought refilled old ∧
      t.documentSet.getDocument = Function.update s.documentSet.getDocument newDoc.key
        (view.nextDocument newDoc.key (some oldDoc) (some newDoc)) ∧
      (t.needsRefill = false → s.needsRefill = false ∧
        StaysInside (q := q) last first (some oldDoc)
          (t.documentSet.getDocument newDoc.key)) ∧
      ∀ j, j ≠ newDoc.key → t.changeSet.find j = s.changeSet.find j := by
  have hkeep : view.nextDocument newDoc.key (some oldDoc) (some newDoc) = some oldDoc →
      s.Tracks brought refilled old ∧
        s.documentSet.getDocument = Function.update s.documentSet.getDocument newDoc.key
          (view.nextDocument newDoc.key (some oldDoc) (some newDoc)) ∧
        (s.needsRefill = false → s.needsRefill = false ∧
          StaysInside (q := q) last first (some oldDoc)
            (s.documentSet.getDocument newDoc.key)) ∧
        ∀ j, j ≠ newDoc.key → s.changeSet.find j = s.changeSet.find j := by
    intro hnext
    refine ⟨h, ?_, fun hs => ⟨hs, ?_⟩, fun _ _ => rfl⟩
    · rw [hnext, ← hold, Function.update_eq_self]
    · intro o ho _
      cases ho
      exact ⟨oldDoc, hold, .inl rfl⟩
  simp only [View.changeDocument, if_pos hkey, hsame, hnew]
  by_cases hdata : oldDoc.data ≠ newDoc.data
  · rw [if_pos hdata]
    by_cases hwait : shouldWaitForSyncedDocument newDoc oldDoc = true
    · rw [if_pos hwait]
      exact ⟨s, rfl, hkeep (by rw [View.nextDocument, if_pos hdata, if_pos hwait])⟩
    · rw [if_neg hwait]
      have hfits : DocumentViewChange.Fits (s.documentSet.getDocument newDoc.key) (some newDoc)
          ⟨newDoc, .modified⟩ := by
        rw [hold]
        exact .modified oldDoc newDoc
      have hmodified : ∀ o, s.documentSet.getDocument newDoc.key = some o →
          o.data ≠ newDoc.data := by
        intro o ho
        rw [hold] at ho
        exact Option.some.inj ho ▸ hdata
      obtain ⟨t, ht, htracks, hset, hrefill, hother⟩ := place_tracks h
        ((last.any fun last => q.comparator.compare newDoc last == .gt) ||
          first.any fun first => q.comparator.compare newDoc first == .lt)
        hfits hnews (fun _ => hmodified) (fun hmetadata => by cases hmetadata)
      refine ⟨t, ht, htracks, ?_, ?_, hother⟩
      · rw [hset, getDocument_insert_eq_update, View.nextDocument, if_pos hdata, if_neg hwait]
      · intro hf
        rw [hrefill, Bool.or_eq_false_iff, Bool.or_eq_false_iff] at hf
        refine ⟨hf.1, ?_⟩
        intro o _ _
        refine ⟨newDoc, by rw [hset, DocumentSet.getDocument_insert, if_pos rfl], .inr ⟨?_, ?_⟩⟩
        · rintro l rfl hgt
          simp [hgt] at hf
        · rintro f rfl hlt
          simp [hlt] at hf
  · have hnext : view.nextDocument newDoc.key (some oldDoc) (some newDoc) =
        if view.mutatedKeys.contains newDoc.key != (newDoc.hasLocalMutations ||
          (view.mutatedKeys.contains newDoc.key && newDoc.hasCommittedMutations))
        then some newDoc else some oldDoc := by
      rw [View.nextDocument, if_neg hdata]
    have hdata' : oldDoc.data = newDoc.data := not_not.mp hdata
    rw [if_neg hdata]
    split_ifs with hpending
    · have hfits : DocumentViewChange.Fits (s.documentSet.getDocument newDoc.key) (some newDoc)
          ⟨newDoc, .metadata⟩ := by
        rw [hold]
        exact .metadata hdata'
      obtain ⟨t, ht, htracks, hset, hrefill, hother⟩ := place_tracks h false hfits hnews
        (fun hmodified => by cases hmodified)
        (fun _ o ho => ne_of_pendingChange (hmutated _ o ho) hpending)
      refine ⟨t, ht, htracks, ?_, ?_, hother⟩
      · rw [hset, getDocument_insert_eq_update, hnext, if_pos hpending]
      · intro hf
        rw [hrefill, Bool.or_false] at hf
        refine ⟨hf, ?_⟩
        intro o ho _
        cases ho
        exact ⟨newDoc, by rw [hset, DocumentSet.getDocument_insert, if_pos rfl],
          .inl hdata'.symm⟩
    · exact ⟨s, rfl, hkeep (by rw [hnext, if_neg hpending])⟩

/-- One turn of the loop, for a key that no turn before it touched. -/
theorem changeDocument_tracks (h : s.Tracks brought refilled old) (key : K)
    (maybeDoc : MaybeDocument K D)
    (hkey : maybeDoc.hasKey key = true)
    (hsame : oldDocumentSet.getDocument key = s.documentSet.getDocument key)
    (hnews : ∀ d, newDocument q maybeDoc = some d →
      brought d ∧ s.changeSet.find key = none ∨ refilled d)
    (hmutated : view.MutatesExactly old) :
    ∃ t, view.changeDocument oldDocumentSet last first s (key, maybeDoc) = some t ∧
      t.Tracks brought refilled old ∧
      t.documentSet.getDocument = Function.update s.documentSet.getDocument key
        (view.nextDocument key (s.documentSet.getDocument key) (newDocument q maybeDoc)) ∧
      (t.needsRefill = false → s.needsRefill = false ∧
        StaysInside (q := q) last first (s.documentSet.getDocument key)
          (t.documentSet.getDocument key)) ∧
      ∀ j, j ≠ key → t.changeSet.find j = s.changeSet.find j := by
  have hnewKey := fun d => newDocument_key (q := q) (d := d) hkey
  cases hold : s.documentSet.getDocument key with
  | none =>
      rw [hold] at hsame
      have hoff : ∀ new, StaysInside (q := q) last first none new := by
        intro new o ho
        cases ho
      cases hnew : newDocument q maybeDoc with
      | none =>
          refine ⟨s, ?_, h, ?_, fun ht => ⟨ht, hoff _⟩, fun _ _ => rfl⟩
          · simp only [View.changeDocument, if_pos hkey, hsame, hnew]
          · rw [View.nextDocument, ← hold, Function.update_eq_self]
      | some newDoc =>
          have hk : newDoc.key = key := hnewKey newDoc hnew
          subst hk
          have hfits : DocumentViewChange.Fits (s.documentSet.getDocument newDoc.key)
              (some newDoc) ⟨newDoc, .added⟩ := by
            rw [hold]
            exact .added newDoc
          obtain ⟨t, ht, htracks, hset, hrefill, hother⟩ := place_tracks h false hfits
            (hnews newDoc hnew) (fun hmodified => by cases hmodified)
            (fun hmetadata => by cases hmetadata)
          refine ⟨t, ?_, htracks, ?_, ?_, hother⟩
          · simp only [View.changeDocument, if_pos hkey, hsame, hnew]
            exact ht
          · rw [hset, getDocument_insert_eq_update, View.nextDocument]
          · intro hf
            rw [hrefill, Bool.or_false] at hf
            exact ⟨hf, hoff _⟩
  | some oldDoc =>
      rw [hold] at hsame
      have hok : oldDoc.key = key := DocumentSet.key_of_getDocument hold
      cases hnew : newDocument q maybeDoc with
      | none =>
          subst hok
          obtain ⟨t, ht, htracks, hset, hrefill, hother⟩ :=
            drop_tracks h (last.isSome || first.isSome) hold
          refine ⟨t, ?_, htracks, ?_, ?_, hother⟩
          · simp only [View.changeDocument, if_pos hkey, hsame, hnew]
            exact ht
          · rw [hset, getDocument_erase_eq_update, View.nextDocument]
          · intro hf
            rw [hrefill, Bool.or_eq_false_iff] at hf
            refine ⟨hf.1, ?_⟩
            intro o _ hlimit
            rw [hf.2] at hlimit
            cases hlimit
      | some newDoc =>
          have hk : newDoc.key = key := hnewKey newDoc hnew
          subst hk
          exact changeDocument_both view oldDocumentSet last first h hkey hsame hold hnew
            (hnews newDoc hnew) hmutated

/-- The whole loop over changed documents with different keys. -/
theorem foldlM_changeDocument_tracks {es : List (K × MaybeDocument K D)}
    (h : s.Tracks brought refilled old)
    (hnodup : (es.map Prod.fst).Nodup) (hkey : ∀ e ∈ es, e.2.hasKey e.1 = true)
    (hsame : ∀ e ∈ es, oldDocumentSet.getDocument e.1 = s.documentSet.getDocument e.1)
    (hnews : ∀ e ∈ es, ∀ d, newDocument q e.2 = some d →
      brought d ∧ s.changeSet.find e.1 = none ∨ refilled d)
    (hmutated : view.MutatesExactly old) :
    ∃ t, es.foldlM (view.changeDocument oldDocumentSet last first) s = some t ∧
      t.Tracks brought refilled old ∧
      (∀ e ∈ es, t.documentSet.getDocument e.1 =
        view.nextDocument e.1 (s.documentSet.getDocument e.1) (newDocument q e.2)) ∧
      (∀ k, k ∉ es.map Prod.fst → t.documentSet.getDocument k = s.documentSet.getDocument k) ∧
      (t.needsRefill = false → s.needsRefill = false ∧
        ∀ e ∈ es, StaysInside (q := q) last first (s.documentSet.getDocument e.1)
          (t.documentSet.getDocument e.1)) := by
  induction es generalizing s with
  | nil => exact ⟨s, rfl, h, by simp, by simp, fun ht => ⟨ht, by simp⟩⟩
  | cons e es ih =>
      obtain ⟨hkeyE, hkeyEs⟩ := List.forall_mem_cons.mp hkey
      obtain ⟨hsameE, hsameEs⟩ := List.forall_mem_cons.mp hsame
      obtain ⟨hnewsE, hnewsEs⟩ := List.forall_mem_cons.mp hnews
      obtain ⟨hnot, hnodupEs⟩ := List.nodup_cons.mp hnodup
      obtain ⟨u, hu, hutracks, hudocs, hurefill, huchanges⟩ :=
        changeDocument_tracks view oldDocumentSet last first h e.1 e.2 hkeyE hsameE hnewsE hmutated
      have huother : ∀ k, k ≠ e.1 → u.documentSet.getDocument k = s.documentSet.getDocument k := by
        intro k hk
        rw [hudocs, Function.update_of_ne hk]
      have hne : ∀ d ∈ es, d.1 ≠ e.1 := by
        intro d hd hde
        exact hnot (hde ▸ List.mem_map_of_mem hd)
      have hnewsU : ∀ d ∈ es, ∀ doc, newDocument q d.2 = some doc →
          brought doc ∧ u.changeSet.find d.1 = none ∨ refilled doc := by
        intro d hd
        rw [huchanges d.1 (hne d hd)]
        exact hnewsEs d hd
      obtain ⟨t, ht, httracks, htdocs, htother, htrefill⟩ := ih hutracks hnodupEs hkeyEs
        (fun d hd => (hsameEs d hd).trans (huother d.1 (hne d hd)).symm) hnewsU
      have htE : t.documentSet.getDocument e.1 = u.documentSet.getDocument e.1 := htother e.1 hnot
      refine ⟨t, ?_, httracks, ?_, ?_, ?_⟩
      · rw [List.foldlM_cons, hu]
        exact ht
      · intro d hd
        rcases List.mem_cons.mp hd with rfl | hd
        · rw [htE, hudocs, Function.update_self]
        · rw [htdocs d hd, huother d.1 (hne d hd)]
      · intro k hk
        rw [List.map_cons, List.mem_cons, not_or] at hk
        rw [htother k hk.2, huother k hk.1]
      · intro hf
        obtain ⟨huf, hes⟩ := htrefill hf
        obtain ⟨hsf, he⟩ := hurefill huf
        refine ⟨hsf, ?_⟩
        intro d hd
        rcases List.mem_cons.mp hd with rfl | hd
        · rw [htE]
          exact he
        · rw [← huother d.1 (hne d hd)]
          exact hes d hd

/-- A turn asks for a refill only where its document falls out of a full view. -/
theorem fallsOut_of_changeDocument {key : K} {maybeDoc : MaybeDocument K D}
    {t : ViewDocumentChanges q}
    (h : view.changeDocument oldDocumentSet last first s (key, maybeDoc) = some t)
    (hrefill : t.needsRefill = true) :
    s.needsRefill = true ∨ FallsOut (q := q) last first (oldDocumentSet.getDocument key)
      (newDocument q maybeDoc) := by
  have hplace : ∀ {doc type refill}, s.place key doc type refill = some t →
      s.needsRefill = true ∨ refill = true := by
    intro doc type refill hdoc
    obtain ⟨set, -, rfl⟩ := Option.map_eq_some_iff.mp hdoc
    exact Bool.or_eq_true_iff.mp hrefill
  have hkept : some s = some t → s.needsRefill = true := by
    intro hs
    rw [Option.some.inj hs]
    exact hrefill
  unfold View.changeDocument at h
  dsimp only at h
  split_ifs at h
  cases hold : oldDocumentSet.getDocument key with
  | none =>
      simp only [hold] at h
      cases hnew : newDocument q maybeDoc with
      | none =>
          simp only [hnew] at h
          exact .inl (hkept h)
      | some newDoc =>
          simp only [hnew] at h
          exact .inl ((hplace h).resolve_right Bool.false_ne_true)
  | some oldDoc =>
      cases hnew : newDocument q maybeDoc with
      | none =>
          simp only [hold, hnew] at h
          obtain ⟨set, -, rfl⟩ := Option.map_eq_some_iff.mp h
          refine (Bool.or_eq_true_iff.mp hrefill).imp_right fun hfull => ?_
          exact ⟨Bool.or_eq_true_iff.mp hfull, oldDoc, rfl, fun _ hnone => by cases hnone⟩
      | some newDoc =>
          simp only [hold, hnew] at h
          split_ifs at h with hdata hwait hpending
          · exact .inl (hkept h)
          · refine (hplace h).imp_right fun hout => ?_
            have hbeyond : (∃ l, last = some l ∧ q.comparator.compare newDoc l = .gt) ∨
                ∃ f, first = some f ∧ q.comparator.compare newDoc f = .lt := by
              simpa [Option.any_eq_true] using hout
            refine ⟨?_, oldDoc, rfl, ?_⟩
            · rcases hbeyond with ⟨l, rfl, -⟩ | ⟨f, rfl, -⟩
              · exact .inl rfl
              · exact .inr rfl
            · intro d hd
              rw [← Option.some.inj hd]
              exact ⟨hdata, hbeyond⟩
          · exact .inl ((hplace h).resolve_right Bool.false_ne_true)
          · exact .inl (hkept h)

theorem fallsOut_of_foldlM {es : List (K × MaybeDocument K D)} {t : ViewDocumentChanges q}
    (h : es.foldlM (view.changeDocument oldDocumentSet last first) s = some t)
    (hrefill : t.needsRefill = true) :
    s.needsRefill = true ∨ ∃ e ∈ es,
      FallsOut (q := q) last first (oldDocumentSet.getDocument e.1) (newDocument q e.2) := by
  induction es generalizing s with
  | nil =>
      rw [Option.some.inj h]
      exact .inl hrefill
  | cons e es ih =>
      rw [List.foldlM_cons] at h
      obtain ⟨u, hu, hes⟩ := Option.bind_eq_some_iff.mp h
      rcases ih hes with hurefill | ⟨d, hd, hfalls⟩
      · refine (fallsOut_of_changeDocument view oldDocumentSet last first hu hurefill).imp_right ?_
        exact fun hfalls => ⟨e, List.mem_cons_self, hfalls⟩
      · exact .inr ⟨d, List.mem_cons_of_mem e hd, hfalls⟩

end Loop

section Limit

variable {brought refilled : Document K D → Prop} {old : K → Option (Document K D)}

/-- Dropping to the limit cuts the documents at the far end of the order. -/
theorem dropToLimit_tracks {s : ViewDocumentChanges q} (h : s.Tracks brought refilled old) (n : ℕ)
    (hn : n ≤ s.documentSet.size) :
    ∃ t, s.dropToLimit n = some t ∧ t.Tracks brought refilled old ∧ t.needsRefill = s.needsRefill ∧
      t.documentSet.documents =
        if q.hasLimitToFirst then s.documentSet.documents.take (s.documentSet.size - n)
        else s.documentSet.documents.drop n := by
  induction n generalizing s with
  | zero =>
      refine ⟨s, rfl, h, rfl, ?_⟩
      rw [Nat.sub_zero, ← DocumentSet.length_documents, List.take_length, List.drop_zero, ite_self]
  | succ n ih =>
      have hpos : s.documentSet.documents ≠ [] := by
        intro hnil
        rw [← DocumentSet.length_documents, hnil, List.length_nil] at hn
        omega
      obtain ⟨doc, hdoc, hget, hcut⟩ : ∃ doc,
          (if q.hasLimitToFirst then s.documentSet.getLastDocument
            else s.documentSet.getFirstDocument) = some doc ∧
          s.documentSet.getDocument doc.key = some doc ∧
          (s.documentSet.erase doc.key).documents =
            if q.hasLimitToFirst then s.documentSet.documents.dropLast
            else s.documentSet.documents.tail := by
        split_ifs
        · have hlast := List.getLast?_eq_some_getLast hpos
          exact ⟨_, hlast, DocumentSet.getDocument_getLastDocument hlast,
            DocumentSet.documents_erase_last hlast⟩
        · have hfirst := List.head?_eq_some_head hpos
          exact ⟨_, hfirst, DocumentSet.getDocument_getFirstDocument hfirst,
            DocumentSet.documents_erase_first hfirst⟩
      obtain ⟨u, hu, hutracks, huset, hurefill, -⟩ := drop_tracks h false hget
      have hlen : u.documentSet.size = s.documentSet.size - 1 := by
        rw [← DocumentSet.length_documents, ← DocumentSet.length_documents, huset, hcut]
        split_ifs
        · exact List.length_dropLast
        · exact List.length_tail
      obtain ⟨t, ht, httracks, htrefill, htdocs⟩ := ih hutracks (by omega)
      refine ⟨t, ?_, httracks, ?_, ?_⟩
      · rw [ViewDocumentChanges.dropToLimit, hdoc]
        simp only [hu, Option.bind_some]
        exact ht
      · rw [htrefill, hurefill, Bool.or_false]
      · rw [htdocs, hlen, huset, hcut]
        split_ifs
        · rw [List.dropLast_eq_take, List.take_take, DocumentSet.length_documents]
          congr 1
          omega
        · rw [List.drop_tail]

end Limit

section Compute

variable [DecidableEq D] (view : View q)
variable {brought refilled : Document K D → Prop}

omit [DecidableEq D] in
theorem startingChanges_tracks (hview : MutatedExact view.documentSet view.mutatedKeys)
    {previous : Option (ViewDocumentChanges q)}
    (hprev : ∀ p, previous = some p → p.Tracks brought refilled view.documentSet.getDocument) :
    (view.startingChanges previous).Tracks brought refilled view.documentSet.getDocument := by
  cases previous with
  | none => exact ⟨describes_empty _, hview⟩
  | some p => exact ⟨(hprev p rfl).describes, (hprev p rfl).mutated⟩

omit [DecidableEq D] in
theorem meetLimit_tracks {old : K → Option (Document K D)} {s : ViewDocumentChanges q}
    (h : s.Tracks brought refilled old) :
    ∃ t, s.meetLimit = some t ∧ t.Tracks brought refilled old ∧
      t.needsRefill = s.needsRefill ∧
      t.documentSet.documents = q.limited s.documentSet.documents := by
  obtain ⟨t, ht, htracks, hrefill, hdocs⟩ :=
    dropToLimit_tracks h (s.documentSet.size - q.limit) (Nat.sub_le _ _)
  have hlen := s.documentSet.length_documents
  unfold ViewDocumentChanges.meetLimit
  cases htype : q.limitType with
  | none => exact ⟨s, if_pos rfl, h, rfl, by rw [Query.limited, htype]⟩
  | first =>
      refine ⟨t, (if_neg (by decide)).trans ht, htracks, hrefill, ?_⟩
      have hfirst : q.hasLimitToFirst = true := by rw [Query.hasLimitToFirst, htype]; rfl
      rw [hdocs, if_pos hfirst, Query.limited, htype]
      by_cases hle : q.limit ≤ s.documentSet.size
      · rw [Nat.sub_sub_self hle]
      · rw [List.take_of_length_le (by omega), List.take_of_length_le (by omega)]
  | last =>
      refine ⟨t, (if_neg (by decide)).trans ht, htracks, hrefill, ?_⟩
      have hfirst : ¬q.hasLimitToFirst = true := by rw [Query.hasLimitToFirst, htype]; decide
      rw [hdocs, if_neg hfirst, Query.limited, htype, hlen]

omit [DecidableEq D] in
theorem mutatesExactly {view : View q} (hview : MutatedExact view.documentSet view.mutatedKeys) :
    view.MutatesExactly view.documentSet.getDocument := by
  intro k o ho
  rw [Bool.eq_iff_iff, hview]
  constructor
  · rintro ⟨d, hd, hlocal⟩
    rw [ho] at hd
    exact Option.some.inj hd ▸ hlocal
  · exact fun hlocal => ⟨o, ho, hlocal⟩

omit [DecidableEq D] in
theorem brings_of_newDocument {docChanges : KeyMap K (MaybeDocument K D)} {key : K}
    {maybeDoc : MaybeDocument K D} {d : Document K D} (hkey : maybeDoc.hasKey key = true)
    (hfind : docChanges.find key = some maybeDoc) (h : newDocument q maybeDoc = some d) :
    Brings docChanges d := by
  have hd := newDocument_key (q := q) hkey h
  cases maybeDoc with
  | document e =>
      rw [newDocument, Option.ite_none_right_eq_some] at h
      rw [Brings, hd, hfind, Option.some.inj h.2]
  | noDocument => cases h
  | unknownDocument => cases h

/-- A computation of changes, step by step: the loop, then the limit, and the one
assertion that is left. -/
theorem computeDocumentChanges_tracks (hview : MutatedExact view.documentSet view.mutatedKeys)
    {docChanges : KeyMap K (MaybeDocument K D)} (hkeyed : Keyed docChanges)
    (previous : Option (ViewDocumentChanges q))
    (hprev : ∀ p, previous = some p → p.Tracks brought refilled view.documentSet.getDocument)
    (hnews : ∀ d, Brings docChanges d → brought d ∧ previous = none ∨ refilled d) :
    ∃ changed limited : ViewDocumentChanges q,
      (∀ k, changed.documentSet.getDocument k =
        match docChanges.find k with
        | some maybeDoc => view.nextDocument k
            ((view.startingChanges previous).documentSet.getDocument k) (newDocument q maybeDoc)
        | none => (view.startingChanges previous).documentSet.getDocument k) ∧
      (changed.needsRefill = false → ∀ k, (docChanges.find k).isSome →
        StaysInside (q := q) (lastInLimit (view.startingChanges previous).documentSet)
          (firstInLimit (view.startingChanges previous).documentSet)
          ((view.startingChanges previous).documentSet.getDocument k)
          (changed.documentSet.getDocument k)) ∧
      (changed.needsRefill = true →
        AsksRefill (view.startingChanges previous).documentSet docChanges) ∧
      limited.Tracks brought refilled view.documentSet.getDocument ∧
      limited.needsRefill = changed.needsRefill ∧
      limited.documentSet.documents = q.limited changed.documentSet.documents ∧
      view.computeDocumentChanges docChanges previous =
        if limited.needsRefill && previous.isSome then none else some limited := by
  have hstart := startingChanges_tracks view hview hprev
  have hnewsE : ∀ e ∈ docChanges.entries, ∀ d, newDocument q e.2 = some d →
      brought d ∧ (view.startingChanges previous).changeSet.find e.1 = none ∨ refilled d := by
    intro e he d hd
    have hfind := KeyMap.mem_entries.mp he
    refine (hnews d (brings_of_newDocument (hkeyed e.1 e.2 hfind) hfind hd)).imp_left ?_
    rintro ⟨hbrought, rfl⟩
    exact ⟨hbrought, rfl⟩
  obtain ⟨changed, hchanged, htracks, hdocs, hother, hrefill⟩ :=
    foldlM_changeDocument_tracks view (view.startingChanges previous).documentSet
      (lastInLimit (view.startingChanges previous).documentSet)
      (firstInLimit (view.startingChanges previous).documentSet) hstart docChanges.keys_nodup
      (fun e he => hkeyed e.1 e.2 (KeyMap.mem_entries.mp he)) (fun _ _ => rfl) hnewsE
      (mutatesExactly hview)
  obtain ⟨limited, hlimited, hltracks, hlrefill, hldocs⟩ := meetLimit_tracks htracks
  refine ⟨changed, limited, ?_, ?_, ?_, hltracks, hlrefill, hldocs, ?_⟩
  · intro k
    cases hfind : docChanges.find k with
    | some maybeDoc => exact hdocs (k, maybeDoc) (KeyMap.mem_entries.mpr hfind)
    | none =>
        refine hother k ?_
        intro hk
        have hin : docChanges.contains k = true := KeyMap.mem_keys.mp hk
        rw [SortedMap.contains, hfind] at hin
        cases hin
  · intro hf k hk
    obtain ⟨maybeDoc, hfind⟩ := Option.isSome_iff_exists.mp hk
    exact (hrefill hf).2 (k, maybeDoc) (KeyMap.mem_entries.mpr hfind)
  · intro hasks
    have hquiet : (view.startingChanges previous).needsRefill = false := by
      cases previous with
      | none => rfl
      | some p => rfl
    rcases fallsOut_of_foldlM view _ _ _ hchanged hasks with hstarted | ⟨e, he, hfalls⟩
    · rw [hquiet] at hstarted
      cases hstarted
    · exact ⟨e.1, e.2, KeyMap.mem_entries.mp he, hfalls⟩
  · unfold lastInLimit firstInLimit at hchanged
    simp only [View.computeDocumentChanges]
    rw [hchanged]
    simp only [Option.bind_eq_bind, Option.bind_some]
    rw [hlimited]
    rfl

end Compute

end ViewDiffs

end YouRoute
