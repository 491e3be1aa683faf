import Mathlib.Data.List.Sort
import YouRoute.ViewChanges

/-!
# Views of a query

A view holds the current documents of a query. Changed documents of the local
store are first turned into changes of the view, where a limit may drop documents
or ask for the whole query to be run again, and the changes are then applied
together with what the server says about the query. Nothing results where a hard
assertion ends the program.
-/

namespace YouRoute

inductive SyncState where
  | none
  | localOnly
  | synced
deriving DecidableEq, Repr

inductive OnlineState where
  | unknown
  | online
  | offline
deriving DecidableEq, Repr

/-- What the server says about a query. -/
structure TargetChange (K : Type*) [LinearOrder K] where
  current : Bool
  addedDocuments : KeySet K
  modifiedDocuments : KeySet K
  removedDocuments : KeySet K

inductive LimboDocumentChange (K : Type*) where
  | added (key : K)
  | removed (key : K)
deriving DecidableEq, Repr

section

variable {K D : Type*} [LinearOrder K]

structure ViewDocumentChanges (q : Query K D) where
  documentSet : DocumentSet q
  changeSet : DocumentViewChangeSet K D
  mutatedKeys : KeySet K
  needsRefill : Bool

structure ViewSnapshot (q : Query K D) where
  documents : DocumentSet q
  oldDocuments : DocumentSet q
  documentChanges : List (DocumentViewChange K D)
  mutatedKeys : KeySet K
  fromCache : Bool
  syncStateChanged : Bool
  excludesMetadataChanges : Bool

namespace ViewSnapshot

variable {q : Query K D}

def hasPendingWrites (snapshot : ViewSnapshot q) : Bool := snapshot.mutatedKeys.size != 0

/-- The snapshot as if all its documents were added. -/
def fromInitialDocuments (documents : DocumentSet q) (mutatedKeys : KeySet K)
    (fromCache excludesMetadataChanges : Bool) : ViewSnapshot q where
  documents := documents
  oldDocuments := DocumentSet.empty
  documentChanges := documents.documents.map fun doc => ⟨doc, .added⟩
  mutatedKeys := mutatedKeys
  fromCache := fromCache
  syncStateChanged := true
  excludesMetadataChanges := excludesMetadataChanges

end ViewSnapshot

structure ViewChange (q : Query K D) where
  snapshot : Option (ViewSnapshot q)
  limboChanges : List (LimboDocumentChange K)

structure View (q : Query K D) where
  documentSet : DocumentSet q
  syncedDocuments : KeySet K
  limboDocuments : KeySet K
  mutatedKeys : KeySet K
  syncState : SyncState
  current : Bool

def shouldWaitForSyncedDocument (newDoc oldDoc : Document K D) : Bool :=
  oldDoc.hasLocalMutations && newDoc.hasCommittedMutations && !newDoc.hasLocalMutations

/-- The document of a change, if the query matches it. -/
def newDocument (q : Query K D) : MaybeDocument K D → Option (Document K D)
  | .document d => if q.accepts d then some d else none
  | _ => none

/-- A document stands under its own key. -/
def MaybeDocument.hasKey (maybeDoc : MaybeDocument K D) (key : K) : Bool :=
  match maybeDoc with
  | .document d => d.key == key
  | _ => true

namespace ViewDocumentChanges

variable {q : Query K D}

/-- Record a change of a document that stays in the view or enters it. -/
def place (s : ViewDocumentChanges q) (key : K) (doc : Document K D) (type : ChangeType)
    (refill : Bool) : Option (ViewDocumentChanges q) :=
  (addChange s.changeSet ⟨doc, type⟩).map fun changeSet =>
    { documentSet := s.documentSet.insert (some doc)
      changeSet := changeSet
      mutatedKeys :=
        if doc.hasLocalMutations then s.mutatedKeys.insert key () else s.mutatedKeys.erase key
      needsRefill := s.needsRefill || refill }

/-- Record that a document leaves the view. -/
def drop (s : ViewDocumentChanges q) (key : K) (doc : Document K D) (refill : Bool) :
    Option (ViewDocumentChanges q) :=
  (addChange s.changeSet ⟨doc, .removed⟩).map fun changeSet =>
    { documentSet := s.documentSet.erase key
      changeSet := changeSet
      mutatedKeys := s.mutatedKeys.erase key
      needsRefill := s.needsRefill || refill }

/-- Drop documents from the far end of the order, the given number of times. -/
def dropToLimit (s : ViewDocumentChanges q) : ℕ → Option (ViewDocumentChanges q)
  | 0 => some s
  | n + 1 =>
      match if q.hasLimitToFirst then s.documentSet.getLastDocument
        else s.documentSet.getFirstDocument with
      | none => none
      | some doc => (s.drop doc.key doc false).bind fun t => t.dropToLimit n

/-- Drop the documents beyond the limit of the query, if it has one. -/
def meetLimit (s : ViewDocumentChanges q) : Option (ViewDocumentChanges q) :=
  if q.limitType = .none then some s else s.dropToLimit (s.documentSet.size - q.limit)

end ViewDocumentChanges

namespace View

variable {q : Query K D} [DecidableEq D]

def create (q : Query K D) (remoteDocuments : KeySet K) : View q where
  documentSet := DocumentSet.empty
  syncedDocuments := remoteDocuments
  limboDocuments := SortedMap.empty
  mutatedKeys := SortedMap.empty
  syncState := .none
  current := false

/-- One turn of the loop over the changed documents. -/
def changeDocument (view : View q) (oldDocumentSet : DocumentSet q)
    (lastDocInLimit firstDocInLimit : Option (Document K D)) (s : ViewDocumentChanges q)
    (change : K × MaybeDocument K D) : Option (ViewDocumentChanges q) :=
  let key := change.1
  let mutated := view.mutatedKeys.contains key
  if change.2.hasKey key then
    match oldDocumentSet.getDocument key, newDocument q change.2 with
    | some oldDoc, some newDoc =>
        if oldDoc.data ≠ newDoc.data then
          if shouldWaitForSyncedDocument newDoc oldDoc then
            some s
          else
            let outsideLimit := lastDocInLimit.any fun last =>
              q.comparator.compare newDoc last == .gt
            let outsideLimitToLast := firstDocInLimit.any fun first =>
              q.comparator.compare newDoc first == .lt
            s.place key newDoc .modified (outsideLimit || outsideLimitToLast)
        else if mutated != (newDoc.hasLocalMutations ||
            (mutated && newDoc.hasCommittedMutations)) then
          s.place key newDoc .metadata false
        else
          some s
    | none, some newDoc => s.place key newDoc .added false
    | some oldDoc, none =>
        s.drop key oldDoc (lastDocInLimit.isSome || firstDocInLimit.isSome)
    | none, none => some s
  else
    none

/-- What a computation of changes starts from. -/
def startingChanges (view : View q) : Option (ViewDocumentChanges q) → ViewDocumentChanges q
  | some previous => { previous with needsRefill := false }
  | none => ⟨view.documentSet, SortedMap.empty, view.mutatedKeys, false⟩

def computeDocumentChanges (view : View q) (docChanges : KeyMap K (MaybeDocument K D))
    (previousChanges : Option (ViewDocumentChanges q)) : Option (ViewDocumentChanges q) := do
  let start := view.startingChanges previousChanges
  let oldDocumentSet := start.documentSet
  let full : Bool := oldDocumentSet.size == q.limit
  let lastDocInLimit :=
    if q.hasLimitToFirst && full then oldDocumentSet.getLastDocument else none
  let firstDocInLimit :=
    if q.hasLimitToLast && full then oldDocumentSet.getFirstDocument else none
  let changed ← docChanges.entries.foldlM
    (view.changeDocument oldDocumentSet lastDocInLimit firstDocInLimit) start
  let limited ← changed.meetLimit
  if limited.needsRefill && previousChanges.isSome then none else some limited

def shouldBeInLimbo (view : View q) (key : K) : Bool :=
  !view.syncedDocuments.contains key &&
    match view.documentSet.getDocument key with
    | none => false
    | some doc => !doc.hasLocalMutations

def applyTargetChange (view : View q) (change : TargetChange K) : Option (View q) :=
  let added := change.addedDocuments.keys.foldl (fun s key => s.insert key ()) view.syncedDocuments
  if change.modifiedDocuments.keys.all fun key => added.contains key then
    some { view with
      syncedDocuments := change.removedDocuments.keys.foldl (fun s key => s.erase key) added
      current := change.current }
  else
    none

def updateLimboDocuments (view : View q) : View q × List (LimboDocumentChange K) :=
  if view.current then
    let oldLimbo := view.limboDocuments
    let limbo := view.documentSet.documents.foldl
      (fun (s : KeySet K) doc =>
        if view.shouldBeInLimbo doc.key then s.insert doc.key () else s) SortedMap.empty
    ({ view with limboDocuments := limbo },
      (oldLimbo.keys.filter fun key => !limbo.contains key).map .removed ++
        (limbo.keys.filter fun key => !oldLimbo.contains key).map .added)
  else
    (view, [])

end View

/-- Metadata changes stand with the modified ones. -/
def changeTypePosition : ChangeType → ℕ
  | .removed => 0
  | .added => 1
  | .modified => 2
  | .metadata => 2

/-- The order in which the changes of a snapshot are listed. -/
def sortsBefore (q : Query K D) (lhs rhs : DocumentViewChange K D) : Bool :=
  let pos₁ := changeTypePosition lhs.type
  let pos₂ := changeTypePosition rhs.type
  if pos₁ ≠ pos₂ then decide (pos₁ < pos₂)
  else (q.comparator.compare lhs.document rhs.document).isLE

def sortedChanges (q : Query K D) (set : DocumentViewChangeSet K D) :
    List (DocumentViewChange K D) :=
  (getChanges set).insertionSort fun lhs rhs => sortsBefore q lhs rhs

namespace View

variable {q : Query K D}

def applyChanges (view : View q) (docChanges : ViewDocumentChanges q)
    (targetChange : Option (TargetChange K)) : Option (View q × ViewChange q) :=
  if docChanges.needsRefill then
    none
  else
    let changes := sortedChanges q docChanges.changeSet
    let placed := { view with
      documentSet := docChanges.documentSet
      mutatedKeys := docChanges.mutatedKeys }
    (targetChange.elim (some placed) placed.applyTargetChange).map fun targeted =>
      let (limboed, limboChanges) := targeted.updateLimboDocuments
      let newSyncState : SyncState :=
        if limboed.limboDocuments.size = 0 ∧ limboed.current then .synced else .localOnly
      let syncStateChanged : Bool := newSyncState != limboed.syncState
      let updated := { limboed with syncState := newSyncState }
      if changes.isEmpty && !syncStateChanged then
        (updated, ⟨none, limboChanges⟩)
      else
        (updated,
          { snapshot := some
              { documents := docChanges.documentSet
                oldDocuments := view.documentSet
                documentChanges := changes
                mutatedKeys := docChanges.mutatedKeys
                fromCache := newSyncState == .localOnly
                syncStateChanged := syncStateChanged
                excludesMetadataChanges := false }
            limboChanges := limboChanges })

def applyOnlineStateChange (view : View q) (onlineState : OnlineState) :
    Option (View q × ViewChange q) :=
  if view.current && onlineState == .offline then
    { view with current := false }.applyChanges
      ⟨view.documentSet, SortedMap.empty, view.mutatedKeys, false⟩ none
  else
    some (view, ⟨none, []⟩)

end View

end

end YouRoute
