import YouRoute.Streams
import YouRoute.WatchChanges

/-!
# The remote store

The remote store keeps the targets that the client listens to. While the network is
enabled and there are any, it keeps the watch stream started. On an open stream it
asks the server for the targets, and hands what the server says to the aggregator and
from there to the views. A stream that fails is started anew, and one without targets
is left to stop by itself.
-/

namespace YouRoute

open WatchChanges

inductive WatchChange (K D : Type*) where
  | target (change : WatchTargetChange)
  | document (change : DocumentWatchChange K D)
  | existenceFilter (change : ExistenceFilterWatchChange)

/-- The targets that the server gives up with an error. -/
def WatchChange.targetError {K D : Type*} : WatchChange K D → Option (List TargetId)
  | .target change =>
      if change.state = .removed ∧ change.causeOk = false then some change.targetIds else none
  | _ => none

/-- What the client asks of the server on the watch stream. -/
inductive WatchRequest (K : Type*) where
  | watchQuery (id : TargetId) (data : TargetData K)
  | unwatchTarget (id : TargetId)

namespace WatchRequest

variable {K : Type*}

def target : WatchRequest K → TargetId
  | .watchQuery id _ => id
  | .unwatchTarget id => id

/-- What is listened to after the request. -/
def data : WatchRequest K → Option (TargetData K)
  | .watchQuery _ data => some data
  | .unwatchTarget _ => none

end WatchRequest

/-- The remote store with the keys that the sync engine has for each target, and with what it
has written on the stream. -/
structure RemoteStore (K D : Type*) [LinearOrder K] where
  isNetworkEnabled : Bool
  watchStream : Stream
  listenTargets : KeyMap TargetId (TargetData K)
  remoteKeys : TargetId → KeySet K
  aggregator : WatchChangeAggregator K D
  requests : List (WatchRequest K)

/-- What the rest of the client, the clock and the connection bring. -/
inductive ClientEvent (K : Type*) [LinearOrder K] where
  | enableNetwork
  | disableNetwork
  | credentialChange
  | listen (id : TargetId) (data : TargetData K) (remoteKeys : KeySet K)
  | stopListening (id : TargetId)
  | streamStart
  | streamFinish (ok : Bool)
  | backoffElapsed
  | idleTimeout

inductive WatchEvent (K D : Type*) [LinearOrder K] where
  | client (event : ClientEvent K)
  | streamRead (change : WatchChange K D) (isSnapshot : Bool)

namespace RemoteStore

variable {K D : Type*} [LinearOrder K]

def start : RemoteStore K D := ⟨false, .stopped, SortedMap.empty, fun _ => SortedMap.empty, {}, []⟩

def isOpen (s : RemoteStore K D) : Bool := s.watchStream.isOpen

def metadata (s : RemoteStore K D) : TargetMetadataProvider K :=
  ⟨s.remoteKeys, s.listenTargets.find⟩

def sendWatchRequest (s : RemoteStore K D) (id : TargetId) (data : TargetData K) :
    Option (RemoteStore K D) :=
  s.watchStream.write.map fun stream =>
    { s with
      watchStream := stream
      aggregator := s.aggregator.recordPendingTargetRequest id
      requests := s.requests ++ [.watchQuery id data] }

def sendUnwatchRequest (s : RemoteStore K D) (id : TargetId) : Option (RemoteStore K D) :=
  s.watchStream.write.map fun stream =>
    { s with
      watchStream := stream
      aggregator := s.aggregator.recordPendingTargetRequest id
      requests := s.requests ++ [.unwatchTarget id] }

def shouldStartWatchStream (s : RemoteStore K D) : Bool :=
  s.isNetworkEnabled && !s.watchStream.isStarted && !s.listenTargets.entries.isEmpty

/-- A new stream starts with a new aggregator. -/
def startWatchStream (s : RemoteStore K D) : Option (RemoteStore K D) :=
  if s.shouldStartWatchStream then
    s.watchStream.start.map fun stream => { s with aggregator := {}, watchStream := stream }
  else none

/-- The views of a new target start from the keys that the local store has for it. -/
def listen (s : RemoteStore K D) (id : TargetId) (data : TargetData K) (remoteKeys : KeySet K) :
    Option (RemoteStore K D) :=
  if s.listenTargets.contains id then some s
  else
    let s := { s with
      listenTargets := s.listenTargets.insert id data
      remoteKeys := Function.update s.remoteKeys id remoteKeys }
    if s.shouldStartWatchStream then s.startWatchStream
    else if s.isOpen then s.sendWatchRequest id data
    else some s

def stopListening (s : RemoteStore K D) (id : TargetId) : Option (RemoteStore K D) :=
  if s.listenTargets.contains id then
    let s := { s with
      listenTargets := s.listenTargets.erase id
      remoteKeys := Function.update s.remoteKeys id SortedMap.empty }
    (if s.isOpen then s.sendUnwatchRequest id else some s).map fun s =>
      if s.listenTargets.entries.isEmpty && s.isOpen then
        { s with watchStream := s.watchStream.markIdle }
      else s
  else
    none

/-- An open stream asks for all the targets. -/
def onWatchStreamOpen (s : RemoteStore K D) : Option (RemoteStore K D) :=
  s.listenTargets.entries.foldlM (fun s e => s.sendWatchRequest e.1 e.2) s

/-- No aggregator is left; a new one stands for none. -/
def cleanUpWatchStreamState (s : RemoteStore K D) : RemoteStore K D := { s with aggregator := {} }

/-- A stream that is still needed is started anew, and must not have ended without an error. -/
def onWatchStreamClose (s : RemoteStore K D) (ok : Bool) : Option (RemoteStore K D) :=
  if ok && s.shouldStartWatchStream then none
  else
    let s := s.cleanUpWatchStreamState
    if s.shouldStartWatchStream then s.startWatchStream else some s

/-- What was written on a stream that is closed is lost. -/
def closeWatchStream (s : RemoteStore K D) (ok : Bool) : Option (RemoteStore K D) :=
  if s.watchStream.isStarted then
    ({ s with watchStream := .closed ok, requests := [] } : RemoteStore K D).onWatchStreamClose ok
  else if ok then some s
  else none

def enableNetwork (s : RemoteStore K D) : Option (RemoteStore K D) :=
  let s := { s with isNetworkEnabled := true }
  if s.shouldStartWatchStream then s.startWatchStream else some s

def disableNetwork (s : RemoteStore K D) : Option (RemoteStore K D) :=
  (({ s with isNetworkEnabled := false } : RemoteStore K D).closeWatchStream true).map
    cleanUpWatchStreamState

def restartNetwork (s : RemoteStore K D) : Option (RemoteStore K D) :=
  s.disableNetwork.bind fun s =>
    s.watchStream.inhibitBackoff.bind fun stream =>
      ({ s with watchStream := stream } : RemoteStore K D).enableNetwork

def handleCredentialChange (s : RemoteStore K D) : Option (RemoteStore K D) :=
  if s.isNetworkEnabled then s.restartNetwork else some s

/-- A target whose documents did not add up is asked for once more. -/
def resend (s : RemoteStore K D) (id : TargetId) : Option (RemoteStore K D) :=
  match s.listenTargets.find id with
  | none => some s
  | some data =>
      (s.sendUnwatchRequest id).bind fun s =>
        s.sendWatchRequest id { data with purpose := .existenceFilterMismatch }

/-- The views of the targets take the changes. -/
def applyRemoteEvent (s : RemoteStore K D) (event : RemoteEvent K D) : Option (RemoteStore K D) :=
  (event.targetChanges.entries.foldlM
    (fun (keys : TargetId → KeySet K) e =>
      (syncedAfter (keys e.1) e.2.2).map (Function.update keys e.1)) s.remoteKeys).map
    fun keys => { s with remoteKeys := keys }

def raiseWatchSnapshot (s : RemoteStore K D) : Option (RemoteStore K D) :=
  (s.aggregator.createRemoteEvent s.metadata).bind fun (event, aggregator) =>
    (event.targetMismatches.keys.foldlM resend { s with aggregator := aggregator }).bind fun s =>
      s.applyRemoteEvent event

/-- The server gives up a target, and so do the views; one that is gone already is ignored. -/
def rejectListen (s : RemoteStore K D) (id : TargetId) : RemoteStore K D :=
  if s.listenTargets.contains id then
    { s with
      listenTargets := s.listenTargets.erase id
      aggregator := s.aggregator.removeTarget id
      remoteKeys := Function.update s.remoteKeys id SortedMap.empty }
  else s

def processTargetError (s : RemoteStore K D) (ids : List TargetId) : RemoteStore K D :=
  ids.foldl rejectListen s

/-- The aggregator takes a message. -/
def handle (s : RemoteStore K D) : WatchChange K D → Option (WatchChangeAggregator K D)
  | .target change => s.aggregator.handleTargetChange s.metadata change
  | .document change => some (s.aggregator.handleDocumentChange s.metadata change)
  | .existenceFilter change => s.aggregator.handleExistenceFilter s.metadata change

def onWatchStreamChange (s : RemoteStore K D) (change : WatchChange K D) (isSnapshot : Bool) :
    Option (RemoteStore K D) :=
  match change.targetError with
  | some ids => some (s.processTargetError ids)
  | none =>
      (s.handle change).bind fun aggregator =>
        let s := { s with aggregator := aggregator }
        if isSnapshot then s.raiseWatchSnapshot else some s

/-- Nothing comes on a stream that is not started. -/
def onStreamRead (s : RemoteStore K D) (change : WatchChange K D) (isSnapshot : Bool) :
    Option (RemoteStore K D) :=
  if s.watchStream.isStarted then s.onWatchStreamChange change isSnapshot else none

/-- The stream reports its start, its end and the end of a wait only in the states for them. -/
def act (s : RemoteStore K D) : ClientEvent K → Option (RemoteStore K D)
  | .enableNetwork => s.enableNetwork
  | .disableNetwork => s.disableNetwork
  | .credentialChange => s.handleCredentialChange
  | .listen id data remoteKeys => s.listen id data remoteKeys
  | .stopListening id => s.stopListening id
  | .streamStart =>
      if s.watchStream.state = .starting then
        ({ s with watchStream := s.watchStream.onStreamStart } : RemoteStore K D).onWatchStreamOpen
      else none
  | .streamFinish ok =>
      if s.watchStream.state = .starting ∨ s.watchStream.state = .open then s.closeWatchStream ok
      else none
  | .backoffElapsed =>
      s.watchStream.backoffElapsed.map fun stream => { s with watchStream := stream }
  | .idleTimeout => if s.watchStream.idle then s.closeWatchStream true else none

def step (s : RemoteStore K D) : WatchEvent K D → Option (RemoteStore K D)
  | .client event => s.act event
  | .streamRead change isSnapshot => s.onStreamRead change isSnapshot

/-- What has been asked on the stream about a target. -/
def requestsFor (s : RemoteStore K D) (id : TargetId) : List (Option (TargetData K)) :=
  (s.requests.filter fun request => request.target == id).map WatchRequest.data

end RemoteStore

namespace RemoteStores

variable {K D : Type*} [LinearOrder K]

theorem sendWatchRequest_eq {s : RemoteStore K D} (hopen : s.isOpen = true)
    (hidle : s.watchStream.idle = false) (id : TargetId) (data : TargetData K) :
    s.sendWatchRequest id data =
      some { s with
        aggregator := s.aggregator.recordPendingTargetRequest id
        requests := s.requests ++ [.watchQuery id data] } := by
  rw [RemoteStore.sendWatchRequest, Stream.write_of_isOpen hopen hidle]
  rfl

theorem sendUnwatchRequest_eq {s : RemoteStore K D} (hopen : s.isOpen = true)
    (hidle : s.watchStream.idle = false) (id : TargetId) :
    s.sendUnwatchRequest id =
      some { s with
        aggregator := s.aggregator.recordPendingTargetRequest id
        requests := s.requests ++ [.unwatchTarget id] } := by
  rw [RemoteStore.sendUnwatchRequest, Stream.write_of_isOpen hopen hidle]
  rfl

theorem enableNetwork_of_isOpen {s : RemoteStore K D} (hopen : s.isOpen = true) :
    s.enableNetwork = some { s with isNetworkEnabled := true } := by
  have hstarted : s.watchStream.isStarted = true := Stream.isStarted_of_isOpen hopen
  refine if_neg ?_
  rw [RemoteStore.shouldStartWatchStream, hstarted, Bool.not_true, Bool.and_false, Bool.false_and]
  exact Bool.false_ne_true

/-- A new target is asked for on an open stream. -/
theorem listen_of_isOpen {s : RemoteStore K D} {id : TargetId}
    (hnew : s.listenTargets.contains id = false) (hopen : s.isOpen = true) (data : TargetData K)
    (keys : KeySet K) :
    s.listen id data keys =
      some { s with
        watchStream := { s.watchStream with idle := false }
        listenTargets := s.listenTargets.insert id data
        remoteKeys := Function.update s.remoteKeys id keys
        aggregator := s.aggregator.recordPendingTargetRequest id
        requests := s.requests ++ [.watchQuery id data] } := by
  have hstarted : s.watchStream.isStarted = true := Stream.isStarted_of_isOpen hopen
  refine (if_neg (ne_true_of_eq_false hnew)).trans ((if_neg ?_).trans ((if_pos hopen).trans ?_))
  · rw [RemoteStore.shouldStartWatchStream, hstarted, Bool.not_true, Bool.and_false,
      Bool.false_and]
    exact Bool.false_ne_true
  · have hwrite : s.watchStream.write = some { s.watchStream with idle := false } := if_pos hopen
    rw [RemoteStore.sendWatchRequest, hwrite]
    rfl

/-- Otherwise a stream may have to be started for it. -/
theorem listen_of_not_isOpen {s : RemoteStore K D} {id : TargetId}
    (hnew : s.listenTargets.contains id = false) (hclosed : s.isOpen = false)
    (data : TargetData K) (keys : KeySet K) :
    s.listen id data keys =
      let t : RemoteStore K D := { s with
        listenTargets := s.listenTargets.insert id data
        remoteKeys := Function.update s.remoteKeys id keys }
      if t.shouldStartWatchStream then t.startWatchStream else some t := by
  refine (if_neg (ne_true_of_eq_false hnew)).trans ?_
  dsimp only
  split_ifs with hshould hopen
  · rfl
  · exact (Bool.false_ne_true (hclosed.symm.trans hopen)).elim
  · rfl

/-- On an open stream the server is told; without targets the stream becomes idle. -/
theorem stopListening_of_isOpen {s : RemoteStore K D} {id : TargetId}
    (hlistened : s.listenTargets.contains id = true) (hopen : s.isOpen = true)
    (hidle : s.watchStream.idle = false) :
    s.stopListening id =
      some { s with
        watchStream := if (s.listenTargets.erase id).entries.isEmpty then s.watchStream.markIdle
          else s.watchStream
        listenTargets := s.listenTargets.erase id
        remoteKeys := Function.update s.remoteKeys id SortedMap.empty
        aggregator := s.aggregator.recordPendingTargetRequest id
        requests := s.requests ++ [.unwatchTarget id] } := by
  have hstream : s.watchStream.isOpen = true := hopen
  have hsend := sendUnwatchRequest_eq (s := { s with
    listenTargets := s.listenTargets.erase id
    remoteKeys := Function.update s.remoteKeys id SortedMap.empty }) hopen hidle id
  refine (if_pos hlistened).trans
    ((congrArg (Option.map _) ((if_pos hopen).trans hsend)).trans ?_)
  rw [Option.map_some]
  simp only [RemoteStore.isOpen, hstream, Bool.and_true]
  split_ifs <;> rfl

theorem stopListening_of_not_isOpen {s : RemoteStore K D} {id : TargetId}
    (hlistened : s.listenTargets.contains id = true) (hclosed : s.isOpen = false) :
    s.stopListening id =
      some { s with
        listenTargets := s.listenTargets.erase id
        remoteKeys := Function.update s.remoteKeys id SortedMap.empty } := by
  have hstream : s.watchStream.isOpen = false := hclosed
  refine (if_pos hlistened).trans
    ((congrArg (Option.map _) (if_neg (ne_true_of_eq_false hclosed))).trans ?_)
  rw [Option.map_some]
  simp only [RemoteStore.isOpen, hstream, Bool.and_false, Bool.false_eq_true, if_false]

theorem foldlM_sendWatchRequest (es : List (TargetId × TargetData K)) {s : RemoteStore K D}
    (hopen : s.isOpen = true) (hidle : s.watchStream.idle = false) :
    es.foldlM (fun s e => RemoteStore.sendWatchRequest s e.1 e.2) s =
      some { s with
        aggregator := (es.map Prod.fst).foldl
          WatchChangeAggregator.recordPendingTargetRequest s.aggregator
        requests := s.requests ++ es.map fun e => .watchQuery e.1 e.2 } := by
  induction es generalizing s with
  | nil => rw [List.foldlM_nil, List.map_nil, List.map_nil, List.append_nil, List.foldl_nil]; rfl
  | cons e es ih =>
      have hrest := ih (s := { s with
        aggregator := s.aggregator.recordPendingTargetRequest e.1
        requests := s.requests ++ [.watchQuery e.1 e.2] }) hopen hidle
      rw [List.append_assoc] at hrest
      rw [List.foldlM_cons, sendWatchRequest_eq hopen hidle]
      exact hrest

theorem startWatchStream_eq {s : RemoteStore K D} (h : s.shouldStartWatchStream = true) :
    s.startWatchStream =
      some { s with aggregator := {}, watchStream := s.watchStream.started } := by
  have hstopped : s.watchStream.isStarted = false := by
    rw [RemoteStore.shouldStartWatchStream, Bool.and_eq_true, Bool.and_eq_true] at h
    exact Bool.not_eq_true' _ ▸ h.1.2
  rw [RemoteStore.startWatchStream, if_pos h, Stream.start_of_not_isStarted hstopped]
  rfl

end RemoteStores

end YouRoute
