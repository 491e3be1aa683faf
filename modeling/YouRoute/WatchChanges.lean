import YouRoute.Views

/-!
# Collecting the changes of watched targets

The server answers listens and removals of targets one by one, names documents
that enter or leave targets, and from time to time declares a consistent state.
Between such states the changes are collected for each target against the
documents that its views held at the last one. A target whose answers are still
awaited takes no part, so that messages which were under way before it was
removed or added again do not reach it.
-/

namespace YouRoute.WatchChanges

abbrev TargetId := ℤ

abbrev ByteString := List UInt8

inductive QueryPurpose
  | listen
  | existenceFilterMismatch
  | limboResolution
  deriving DecidableEq, Repr

/-- What a query asks the server for, with its document if it is a document query. -/
structure Target (K : Type*) where
  canonicalId : String
  documentKey : Option K

/-- A target that the client listens to. -/
structure TargetData (K : Type*) where
  target : Target K
  purpose : QueryPurpose

def TargetData.documentKey {K : Type*} (data : TargetData K) : Option K := data.target.documentKey

variable {K D : Type*} [LinearOrder K]

/-- What the rest of the client says about targets. -/
structure TargetMetadataProvider (K : Type*) [LinearOrder K] where
  remoteKeys : TargetId → KeySet K
  targetData : TargetId → Option (TargetData K)

structure TargetState (K : Type*) [LinearOrder K] where
  outstandingResponses : ℤ := 0
  documentChanges : KeyMap K ChangeType := SortedMap.empty
  resumeToken : ByteString := []
  current : Bool := false
  hasPendingChanges : Bool := true

namespace TargetState

def isPending (s : TargetState K) : Bool := s.outstandingResponses != 0

def updateResumeToken (s : TargetState K) (token : ByteString) : TargetState K :=
  if token.isEmpty then s else { s with hasPendingChanges := true, resumeToken := token }

/-- The documents with a change of one type. -/
def changed (s : TargetState K) (type : ChangeType) : KeySet K :=
  s.documentChanges.entries.foldl
    (fun set e => if e.2 = type then set.insert e.1 () else set) SortedMap.empty

/-- The changes as a target change; a change of the metadata alone is not expected here. -/
def toTargetChange (s : TargetState K) : Option (ByteString × TargetChange K) :=
  if s.documentChanges.entries.any fun e => e.2 == .metadata then none
  else some (s.resumeToken, ⟨s.current, s.changed .added, s.changed .modified, s.changed .removed⟩)

def clearPendingChanges (s : TargetState K) : TargetState K :=
  { s with hasPendingChanges := false, documentChanges := SortedMap.empty }

def recordPendingTargetRequest (s : TargetState K) : TargetState K :=
  { s with outstandingResponses := s.outstandingResponses + 1 }

def recordTargetResponse (s : TargetState K) : TargetState K :=
  { s with outstandingResponses := s.outstandingResponses - 1 }

def markCurrent (s : TargetState K) : TargetState K :=
  { s with hasPendingChanges := true, current := true }

def addDocumentChange (s : TargetState K) (key : K) (type : ChangeType) : TargetState K :=
  { s with hasPendingChanges := true, documentChanges := s.documentChanges.insert key type }

def removeDocumentChange (s : TargetState K) (key : K) : TargetState K :=
  { s with hasPendingChanges := true, documentChanges := s.documentChanges.erase key }

end TargetState

/-- What an event says of a target: its resume token and the changes of its documents. -/
structure RemoteEvent (K D : Type*) [LinearOrder K] where
  targetChanges : KeyMap TargetId (ByteString × TargetChange K)
  targetMismatches : KeySet TargetId
  documentUpdates : KeyMap K (MaybeDocument K D)
  limboDocumentChanges : KeySet K

inductive WatchTargetChangeState
  | noChange
  | added
  | removed
  | current
  | reset
  deriving DecidableEq, Repr

structure WatchTargetChange where
  state : WatchTargetChangeState
  targetIds : List TargetId
  resumeToken : ByteString
  causeOk : Bool

structure DocumentWatchChange (K D : Type*) where
  updatedTargetIds : List TargetId
  removedTargetIds : List TargetId
  documentKey : K
  newDocument : Option (MaybeDocument K D)

structure ExistenceFilterWatchChange where
  targetId : TargetId
  count : ℤ

structure WatchChangeAggregator (K D : Type*) [LinearOrder K] where
  targetStates : KeyMap TargetId (TargetState K) := SortedMap.empty
  pendingDocumentUpdates : KeyMap K (MaybeDocument K D) := SortedMap.empty
  pendingDocumentTargetMappings : KeyMap K (KeySet TargetId) := SortedMap.empty
  pendingTargetResets : KeySet TargetId := SortedMap.empty

namespace WatchChangeAggregator

/-- The state of a target, a new one where there is none. -/
def stateOf (a : WatchChangeAggregator K D) (id : TargetId) : TargetState K :=
  (a.targetStates.find id).getD {}

def setState (a : WatchChangeAggregator K D) (id : TargetId) (s : TargetState K) :
    WatchChangeAggregator K D :=
  { a with targetStates := a.targetStates.insert id s }

def ensureTargetState (a : WatchChangeAggregator K D) (id : TargetId) :
    WatchChangeAggregator K D := a.setState id (a.stateOf id)

def removeTarget (a : WatchChangeAggregator K D) (id : TargetId) : WatchChangeAggregator K D :=
  { a with targetStates := a.targetStates.erase id }

def recordPendingTargetRequest (a : WatchChangeAggregator K D) (id : TargetId) :
    WatchChangeAggregator K D := a.setState id (a.stateOf id).recordPendingTargetRequest

/-- Where documents of a target are noted for the update of its documents. -/
def mapTarget (a : WatchChangeAggregator K D) (key : K) (id : TargetId) :
    WatchChangeAggregator K D :=
  let ids : KeySet TargetId :=
    (a.pendingDocumentTargetMappings.find key).getD SortedMap.empty
  { a with
    pendingDocumentTargetMappings :=
      SortedMap.insert a.pendingDocumentTargetMappings key (ids.insert id ()) }

def updateDocument (a : WatchChangeAggregator K D) (key : K) :
    Option (MaybeDocument K D) → WatchChangeAggregator K D
  | some doc => { a with pendingDocumentUpdates := a.pendingDocumentUpdates.insert key doc }
  | none => a

variable (p : TargetMetadataProvider K)

/-- The data of a target that is listened to and has no answers outstanding. -/
def targetDataForActiveTarget (a : WatchChangeAggregator K D) (id : TargetId) :
    Option (TargetData K) :=
  match a.targetStates.find id with
  | some s => if s.isPending then none else p.targetData id
  | none => p.targetData id

def isActiveTarget (a : WatchChangeAggregator K D) (id : TargetId) : Bool :=
  (a.targetDataForActiveTarget p id).isSome

def targetContainsDocument (id : TargetId) (key : K) : Bool := (p.remoteKeys id).contains key

def addDocumentToTarget (a : WatchChangeAggregator K D) (id : TargetId) (key : K)
    (doc : MaybeDocument K D) : WatchChangeAggregator K D :=
  if a.isActiveTarget p id then
    let type : ChangeType := if targetContainsDocument p id key then .modified else .added
    ((a.setState id ((a.stateOf id).addDocumentChange key type)).updateDocument key (some doc)).mapTarget
      key id
  else a

def removeDocumentFromTarget (a : WatchChangeAggregator K D) (id : TargetId) (key : K)
    (updatedDocument : Option (MaybeDocument K D)) : WatchChangeAggregator K D :=
  if a.isActiveTarget p id then
    let s := a.stateOf id
    let s := if targetContainsDocument p id key then s.addDocumentChange key .removed
      else s.removeDocumentChange key
    ((a.setState id s).mapTarget key id).updateDocument key updatedDocument
  else a

/-- The document is new to the targets or changed in them. -/
def updateTarget (change : DocumentWatchChange K D) (a : WatchChangeAggregator K D)
    (id : TargetId) : WatchChangeAggregator K D :=
  match change.newDocument with
  | some (.document d) => a.addDocumentToTarget p id d.key (.document d)
  | some (.noDocument key) =>
      a.removeDocumentFromTarget p id change.documentKey (some (.noDocument key))
  | _ => a

def handleDocumentChange (a : WatchChangeAggregator K D) (change : DocumentWatchChange K D) :
    WatchChangeAggregator K D :=
  let a := change.updatedTargetIds.foldl (updateTarget p change) a
  change.removedTargetIds.foldl
    (fun a id => a.removeDocumentFromTarget p id change.documentKey change.newDocument) a

/-- The target starts anew with the removal of its documents; an inactive one must not. -/
def resetTarget (a : WatchChangeAggregator K D) (id : TargetId) :
    Option (WatchChangeAggregator K D) :=
  match a.targetStates.find id with
  | some s =>
      if s.isPending then none
      else
        some ((p.remoteKeys id).keys.foldl
          (fun a key => a.removeDocumentFromTarget p id key none) (a.setState id {}))
  | none => none

def getTargetIds (a : WatchChangeAggregator K D) (change : WatchTargetChange) : List TargetId :=
  if change.targetIds.isEmpty then a.targetStates.keys.filter (a.isActiveTarget p)
  else change.targetIds

/-- One target of a target change. -/
def handleTarget (change : WatchTargetChange) (a : WatchChangeAggregator K D) (id : TargetId) :
    Option (WatchChangeAggregator K D) :=
  let a := a.ensureTargetState id
  let s := a.stateOf id
  match change.state with
  | .noChange =>
      some (if a.isActiveTarget p id then a.setState id (s.updateResumeToken change.resumeToken)
        else a)
  | .added =>
      let s := s.recordTargetResponse
      let s := if s.isPending then s else s.clearPendingChanges
      some (a.setState id (s.updateResumeToken change.resumeToken))
  | .removed =>
      let s := s.recordTargetResponse
      let a := if s.isPending then a.setState id s else a.removeTarget id
      if change.causeOk then some a else none
  | .current =>
      some (if a.isActiveTarget p id then
        a.setState id (s.markCurrent.updateResumeToken change.resumeToken) else a)
  | .reset =>
      if a.isActiveTarget p id then
        (a.resetTarget p id).map fun a =>
          a.setState id ((a.stateOf id).updateResumeToken change.resumeToken)
      else some a

def handleTargetChange (a : WatchChangeAggregator K D) (change : WatchTargetChange) :
    Option (WatchChangeAggregator K D) :=
  (a.getTargetIds p change).foldlM (handleTarget p change) a

/-- The number of documents that the target should have by now. -/
def getCurrentDocumentCountForTarget (a : WatchChangeAggregator K D) (id : TargetId) : Option ℤ :=
  (a.stateOf id).toTargetChange.map fun (_, change) =>
    (p.remoteKeys id).size + change.addedDocuments.size - change.removedDocuments.size

def handleExistenceFilter (a : WatchChangeAggregator K D) (filter : ExistenceFilterWatchChange) :
    Option (WatchChangeAggregator K D) :=
  let id := filter.targetId
  match a.targetDataForActiveTarget p id with
  | none => some a
  | some data =>
      match data.documentKey with
      | some key =>
          if filter.count = 0 then
            some (a.removeDocumentFromTarget p id key (some (.noDocument key)))
          else if filter.count = 1 then some a else none
      | none =>
          (a.getCurrentDocumentCountForTarget p id).bind fun currentSize =>
            let a := a.ensureTargetState id
            if currentSize ≠ filter.count then
              (a.resetTarget p id).map fun a =>
                { a with pendingTargetResets := a.pendingTargetResets.insert id () }
            else some a

/-- A document query which is current and has not heard of its document has none. -/
def deleteMissingDocument (a : WatchChangeAggregator K D) (id : TargetId) (data : TargetData K) :
    WatchChangeAggregator K D :=
  match data.documentKey with
  | some key =>
      if (a.stateOf id).current && !a.pendingDocumentUpdates.contains key &&
          !targetContainsDocument p id key then
        a.removeDocumentFromTarget p id key (some (.noDocument key))
      else a
  | none => a

/-- One target of the event that is made up. -/
def createTargetChange
    (made : WatchChangeAggregator K D × KeyMap TargetId (ByteString × TargetChange K))
    (id : TargetId) :
    Option (WatchChangeAggregator K D × KeyMap TargetId (ByteString × TargetChange K)) :=
  let (a, changes) := made
  match a.targetDataForActiveTarget p id with
  | none => some (a, changes)
  | some data =>
      let a := a.deleteMissingDocument p id data
      if (a.stateOf id).hasPendingChanges then
        (a.stateOf id).toTargetChange.map fun change =>
          (a.setState id (a.stateOf id).clearPendingChanges, changes.insert id change)
      else some (a, changes)

/-- No target of the document is listened to for its own sake. -/
def isOnlyLimboTarget (a : WatchChangeAggregator K D) (ids : KeySet TargetId) : Bool :=
  ids.keys.all fun id =>
    match a.targetDataForActiveTarget p id with
    | some data => data.purpose == .limboResolution
    | none => true

def resolvedLimboDocuments (a : WatchChangeAggregator K D) : KeySet K :=
  a.pendingDocumentTargetMappings.entries.foldl
    (fun set e => if a.isOnlyLimboTarget p e.2 then set.insert e.1 () else set) SortedMap.empty

/-- The targets and documents are taken in ascending order. The results about the remote
store speak of one target at a time, and hold in any other order as well. -/
def createRemoteEvent (a : WatchChangeAggregator K D) :
    Option (RemoteEvent K D × WatchChangeAggregator K D) :=
  (a.targetStates.keys.foldlM (createTargetChange p) (a, SortedMap.empty)).map
    fun (a, changes) =>
      (⟨changes, a.pendingTargetResets, a.pendingDocumentUpdates, a.resolvedLimboDocuments p⟩,
        { targetStates := a.targetStates })

end WatchChangeAggregator

/-- What becomes of the keys of a target with a change; a modified document is among them. -/
def syncedAfter (keys : KeySet K) (change : TargetChange K) : Option (KeySet K) :=
  let added := change.addedDocuments.keys.foldl (fun s key => s.insert key ()) keys
  if change.modifiedDocuments.keys.all fun key => added.contains key then
    some (change.removedDocuments.keys.foldl (fun s key => s.erase key) added)
  else
    none

/-- The views of a query take a target change this way. -/
theorem applyTargetChange_synced {q : Query K D} (view : View q) (change : TargetChange K) :
    (view.applyTargetChange change).map View.syncedDocuments =
      syncedAfter view.syncedDocuments change := by
  unfold View.applyTargetChange syncedAfter
  dsimp only
  split <;> rfl

/-- A target as the protocol has it: whether it is listened to, how many answers are still
to come, the documents of its views, and those the server's messages name. -/
structure Watched (K : Type*) [LinearOrder K] where
  data : Option (TargetData K)
  awaited : ℕ
  synced : KeySet K
  members : KeySet K
  mismatched : Bool

namespace Watched

def active (x : Watched K) : Bool := x.data.isSome && x.awaited == 0

/-- A message about the documents of a target reaches it while no answer is awaited. -/
def hear (f : KeySet K → KeySet K) (x : Watched K) : Watched K :=
  if x.active then { x with members := f x.members } else x

def requested (x : Watched K) : Watched K := { x with awaited := x.awaited + 1 }

/-- The server's answer to a listen or a removal. The last one awaited is about what the
client asked last, and from it on the messages count. -/
def answered (added : Bool) (x : Watched K) : Option (Watched K) :=
  match x.awaited with
  | 0 => none
  | 1 => if x.data.isSome == added then some { x with awaited := 0, members := x.synced } else none
  | n + 2 => some { x with awaited := n + 1 }

/-- The server says how many documents a target has. -/
def counted (count : ℤ) (x : Watched K) : Option (Watched K) :=
  if x.active then
    match x.data.bind TargetData.documentKey with
    | some key =>
        if count = 0 then some { x with members := x.members.erase key }
        else if count = 1 then some x
        else none
    | none =>
        if (x.members.size : ℤ) = count then some x
        else some { x with members := SortedMap.empty, mismatched := true }
  else
    some x

/-- The server declares its messages complete, and the views hear of them. -/
def delivered (x : Watched K) : Watched K :=
  { x with
    synced := if x.active then x.members else x.synced
    mismatched := false }

/-- After that a target whose documents did not add up is removed and listened to again. -/
def settled (x : Watched K) : Watched K :=
  if x.mismatched && x.data.isSome then x.delivered.requested.requested else x.delivered

end Watched

/-- What the messages for the targets tell, and the answers for them. -/
abbrev Targets (K : Type*) [LinearOrder K] := TargetId → Watched K

namespace Targets

def change (w : Targets K) (id : TargetId) (f : Watched K → Watched K) : Targets K :=
  Function.update w id (f (w id))

def hearUpdate (message : DocumentWatchChange K D) (w : Targets K) (id : TargetId) : Targets K :=
  match message.newDocument with
  | some (.document d) => w.change id (Watched.hear fun s => s.insert d.key ())
  | some (.noDocument _) => w.change id (Watched.hear fun s => s.erase message.documentKey)
  | _ => w

def hearDocument (w : Targets K) (message : DocumentWatchChange K D) : Targets K :=
  message.removedTargetIds.foldl
    (fun w id => w.change id (Watched.hear fun s => s.erase message.documentKey))
    (message.updatedTargetIds.foldl (hearUpdate message) w)

/-- One answer after the other; an answer names its targets. -/
def hearAnswers (w : Targets K) (added : Bool) (ids : List TargetId) : Option (Targets K) :=
  if ids.isEmpty then none
  else ids.foldlM (fun (w : Targets K) id =>
    ((w id).answered added).map (Function.update w id)) w

/-- A message without targets is about all of them. -/
def hearTarget (w : Targets K) (message : WatchTargetChange) : Option (Targets K) :=
  match message.state with
  | .noChange => some w
  | .current => some w
  | .added => w.hearAnswers true message.targetIds
  | .removed => if message.causeOk then w.hearAnswers false message.targetIds else none
  | .reset =>
      some (if message.targetIds.isEmpty then
          fun id => (w id).hear fun _ => SortedMap.empty
        else
          message.targetIds.foldl
            (fun w id => w.change id (Watched.hear fun _ => SortedMap.empty)) w)

def hearCount (w : Targets K) (message : ExistenceFilterWatchChange) : Option (Targets K) :=
  ((w message.targetId).counted message.count).map (Function.update w message.targetId)

end Targets

/-- How a change of a document fits where it was and where it is now. -/
def Fits (change : Option ChangeType) (synced member : Bool) : Prop :=
  match change with
  | none => member = synced
  | some .added => synced = false ∧ member = true
  | some .modified => synced = true ∧ member = true
  | some .removed => synced = true ∧ member = false
  | some .metadata => False

/-- The aggregator holds for a target what the protocol says of it. -/
structure Agrees (p : TargetMetadataProvider K) (a : WatchChangeAggregator K D) (id : TargetId)
    (x : Watched K) : Prop where
  data : p.targetData id = x.data
  synced : p.remoteKeys id = x.synced
  known : x.data.isSome = true → a.targetStates.contains id = true
  awaited : (a.stateOf id).outstandingResponses = x.awaited
  mismatched : a.pendingTargetResets.contains id = x.mismatched
  fits : x.awaited = 0 → ∀ key,
    Fits ((a.stateOf id).documentChanges.find key) (x.synced.contains key) (x.members.contains key)
  noted : x.awaited = 0 → ∀ key, (a.stateOf id).documentChanges.find key = some .added →
    a.pendingDocumentUpdates.contains key = true
  quiet : x.awaited = 0 → x.data = none ∨ (a.stateOf id).hasPendingChanges = false →
    (a.stateOf id).documentChanges = SortedMap.empty

/-- Nothing has happened to a target between two states of the aggregator. -/
structure Untouched (a b : WatchChangeAggregator K D) (id : TargetId) : Prop where
  state : b.stateOf id = a.stateOf id
  known : a.targetStates.contains id = true → b.targetStates.contains id = true
  resets : b.pendingTargetResets.contains id = a.pendingTargetResets.contains id
  updates : ∀ key, a.pendingDocumentUpdates.contains key = true →
    b.pendingDocumentUpdates.contains key = true

def AllAgree (p : TargetMetadataProvider K) (a : WatchChangeAggregator K D) (w : Targets K) : Prop :=
  ∀ id, Agrees p a id (w id)

end YouRoute.WatchChanges
