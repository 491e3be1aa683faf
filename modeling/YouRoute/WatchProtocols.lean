import Mathlib.Data.Finset.Basic
import YouRoute.RemoteStores
import YouRoute.StepSystem
import YouRoute.WatchTargets

/-!
# Watching targets over a stream

The protocol behind the remote store knows neither the collected changes nor the
state that the aggregator keeps for a target. For each target it says how many answers
are awaited, which documents the messages name, which of them the views have, and what
has been asked on the stream. The stream is needed while the network is enabled and
something is listened to. The remote store follows every run of the protocol without
an assertion that fails. Its views have just those documents, it has asked just that,
and a stream that is needed is started.
-/

namespace YouRoute

open WatchChanges

/-- The targets by the protocol. -/
structure WatchProtocol (K : Type*) [LinearOrder K] where
  targets : Targets K
  listening : Finset TargetId
  network : Bool
  stream : Stream
  asked : TargetId → List (Option (TargetData K))

namespace WatchProtocol

variable {K D : Type*} [LinearOrder K]

def start : WatchProtocol K :=
  ⟨fun _ => ⟨none, 0, SortedMap.empty, SortedMap.empty, false⟩, ∅, false, .stopped, fun _ => []⟩

def isOpen (w : WatchProtocol K) : Bool := w.stream.isOpen

def needed (w : WatchProtocol K) : Bool := w.network && decide w.listening.Nonempty

/-- A stream that is needed is started. -/
def connected (w : WatchProtocol K) : WatchProtocol K :=
  { w with stream := if w.needed then w.stream.started else w.stream }

def closed (x : Watched K) : Watched K :=
  { x with awaited := 0, members := x.synced, mismatched := false }

/-- The end of a stream. -/
def disconnected (w : WatchProtocol K) (ok : Bool) : WatchProtocol K :=
  { w with
    targets := fun id => closed (w.targets id)
    stream := .closed ok
    asked := fun _ => [] }

/-- What a target is listened to for from now on; the server is asked if it can be. -/
def retarget (w : WatchProtocol K) (id : TargetId) (data : Option (TargetData K))
    (keys : KeySet K) : WatchProtocol K :=
  { w with
    targets := w.targets.change id fun x =>
      let x := { x with data := data, synced := keys, members := keys }
      if w.isOpen then x.requested else x
    asked := if w.isOpen then Function.update w.asked id (w.asked id ++ [data]) else w.asked }

def opened (x : Watched K) : Watched K := if x.data.isSome then x.requested else x

/-- What is asked of a target whose documents did not add up. -/
def askedAgain (x : Watched K) : List (Option (TargetData K)) :=
  match x.data with
  | none => []
  | some data =>
      if x.mismatched then [none, some { data with purpose := .existenceFilterMismatch }] else []

/-- The error is taken for the last answer, so no other one may be awaited then. For a target
that is not listened to it is ignored, and is not an answer. -/
def failed (x : Watched K) : Option (Watched K) :=
  if x.data.isNone then some x
  else if x.awaited ≤ 1 then
    some { x with
      data := none
      awaited := 0
      synced := SortedMap.empty
      members := SortedMap.empty }
  else none

def hear (w : Targets K) : WatchChange K D → Option (Targets K)
  | .target change => w.hearTarget change
  | .document change => some (w.hearDocument change)
  | .existenceFilter change => w.hearCount change

/-- The targets after a message; a snapshot settles them. -/
def told (w : WatchProtocol K) (t : Targets K) (isSnapshot : Bool) : WatchProtocol K :=
  if isSnapshot then
    { w with
      targets := fun id => (t id).settled
      asked := fun id => w.asked id ++ askedAgain (t id) }
  else { w with targets := t }

/-- A stream that is needed must not end without an error. -/
def act (w : WatchProtocol K) : ClientEvent K → Option (WatchProtocol K)
  | .enableNetwork => some { w with network := true }.connected
  | .disableNetwork =>
      let w := { w with network := false }
      some (if w.stream.isStarted then w.disconnected true else w)
  | .credentialChange => some (if w.network then (w.disconnected true).connected else w)
  | .listen id data keys =>
      some (if id ∈ w.listening then w
        else { w.retarget id (some data) keys with
          listening := insert id w.listening
          stream := { w.stream with idle := false } }.connected)
  | .stopListening id =>
      if id ∈ w.listening then
        some { w.retarget id none SortedMap.empty with
          listening := w.listening.erase id
          stream := if w.listening.erase id = ∅ then w.stream.markIdle else w.stream }
      else none
  | .streamStart =>
      if w.stream.state = .starting then
        some { w with
          targets := fun id => opened (w.targets id)
          stream := w.stream.onStreamStart
          asked := fun id => (w.targets id).data.toList.map some }
      else none
  | .streamFinish ok =>
      if w.stream.state = .starting ∨ w.stream.state = .open then
        if ok && w.needed then none else some (w.disconnected ok).connected
      else none
  | .backoffElapsed => w.stream.backoffElapsed.map fun stream => { w with stream := stream }
  | .idleTimeout => if w.stream.idle then some (w.disconnected true) else none

/-- What may happen, and what it comes to. -/
def step (w : WatchProtocol K) : WatchEvent K D → Option (WatchProtocol K)
  | .client event => w.act event
  | .streamRead change isSnapshot =>
      if w.isOpen then
        match change.targetError with
        | some ids =>
            (ids.foldlM (fun (t : Targets K) id => (failed (t id)).map (Function.update t id))
              w.targets).map fun t =>
                { w with targets := t, listening := w.listening.filter (· ∉ ids) }
        | none => (hear w.targets change).map fun t => w.told t isSnapshot
      else none

end WatchProtocol

namespace WatchProtocols
open StepSystem RemoteStores WatchProtocol

variable {K D : Type*} [LinearOrder K] {s t : RemoteStore K D} {w v : WatchProtocol K}

/-- While the stream is not open the views are all there is. -/
structure Idle (s : RemoteStore K D) (id : TargetId) (x : Watched K) : Prop where
  data : s.listenTargets.find id = x.data
  synced : s.remoteKeys id = x.synced
  awaited : x.awaited = 0
  members : x.members = x.synced
  mismatched : x.mismatched = false

/-- The remote store is where the protocol is, its stream apart from whether it is needed. -/
structure Matches (s : RemoteStore K D) (w : WatchProtocol K) : Prop where
  network : s.isNetworkEnabled = w.network
  stream : s.watchStream = w.stream
  listening : ∀ id, id ∈ w.listening ↔ (w.targets id).data.isSome = true
  idle : w.stream.idle = true → w.isOpen = true ∧ w.listening = ∅
  targets : w.isOpen = true ∧ AllAgree s.metadata s.aggregator w.targets ∨
    w.isOpen = false ∧ s.aggregator = {} ∧ s.requests = [] ∧ ∀ id, Idle s id (w.targets id)

/-- The remote store is where the protocol is. -/
structure Follows (s : RemoteStore K D) (w : WatchProtocol K) : Prop extends Matches s w where
  started : w.needed = true → w.stream.isStarted = true

/-- The remote store has asked on the stream what the protocol says. -/
def Asked (s : RemoteStore K D) (w : WatchProtocol K) : Prop := ∀ id, s.requestsFor id = w.asked id

/-- Both have taken a step. -/
def Keeps (s : RemoteStore K D) (w : WatchProtocol K) (t : RemoteStore K D)
    (v : WatchProtocol K) : Prop :=
  Follows t v ∧ (Asked s w → Asked t v)

theorem follows_start : Follows (RemoteStore.start : RemoteStore K D) WatchProtocol.start where
  network := rfl
  stream := rfl
  listening := by simp [WatchProtocol.start]
  idle := by simp [WatchProtocol.start, Stream.stopped]
  targets := .inr ⟨rfl, rfl, rfl, fun _ => ⟨rfl, rfl, rfl, rfl, rfl⟩⟩
  started := by simp [WatchProtocol.start, needed]

theorem Matches.isOpen (h : Matches s w) : s.isOpen = w.isOpen :=
  congrArg Stream.isOpen h.stream

theorem Matches.data (h : Matches s w) (id : TargetId) :
    s.listenTargets.find id = (w.targets id).data := by
  rcases h.targets with ⟨-, hagree⟩ | ⟨-, -, -, hidle⟩
  · exact (hagree id).data
  · exact (hidle id).data

theorem Matches.synced (h : Matches s w) (id : TargetId) :
    s.remoteKeys id = (w.targets id).synced := by
  rcases h.targets with ⟨-, hagree⟩ | ⟨-, -, -, hidle⟩
  · exact (hagree id).synced
  · exact (hidle id).synced

theorem Matches.agree (h : Matches s w) (hopen : w.isOpen = true) :
    AllAgree s.metadata s.aggregator w.targets := by
  rcases h.targets with ⟨-, hagree⟩ | ⟨hclosed, -⟩
  · exact hagree
  · exact (Bool.false_ne_true (hclosed.symm.trans hopen)).elim

theorem Matches.rest (h : Matches s w) (hclosed : w.isOpen = false) :
    s.aggregator = {} ∧ s.requests = [] ∧ ∀ id, Idle s id (w.targets id) := by
  rcases h.targets with ⟨hopen, -⟩ | ⟨-, hrest⟩
  · exact (Bool.false_ne_true (hclosed.symm.trans hopen)).elim
  · exact hrest

theorem Matches.listening_find (h : Matches s w) (id : TargetId) :
    id ∈ w.listening ↔ (s.listenTargets.find id).isSome = true := by
  rw [h.data id]
  exact h.listening id

theorem Matches.contains (h : Matches s w) (id : TargetId) :
    s.listenTargets.contains id = decide (id ∈ w.listening) := by
  rw [SortedMap.contains, h.data id, Bool.eq_iff_iff, decide_eq_true_iff]
  exact (h.listening id).symm

/-- There is a target that the client listens to. -/
theorem Matches.isEmpty (h : Matches s w) :
    (!s.listenTargets.entries.isEmpty) = decide w.listening.Nonempty := by
  rw [Bool.eq_iff_iff, decide_eq_true_iff, Bool.not_eq_true', List.isEmpty_eq_false_iff_exists_mem]
  constructor
  · rintro ⟨e, he⟩
    have hfind := KeyMap.mem_entries.mp he
    rw [h.data] at hfind
    exact ⟨e.1, (h.listening e.1).mpr (Option.isSome_of_eq_some hfind)⟩
  · rintro ⟨id, hid⟩
    obtain ⟨data, hdata⟩ := Option.isSome_iff_exists.mp ((h.listening id).mp hid)
    exact ⟨(id, data), KeyMap.mem_entries.mpr ((h.data id).trans hdata)⟩

theorem Matches.shouldStartWatchStream (h : Matches s w) :
    s.shouldStartWatchStream = (w.needed && !w.stream.isStarted) := by
  rw [RemoteStore.shouldStartWatchStream, h.isEmpty, h.network, h.stream, needed,
    Bool.and_right_comm]

theorem Matches.idle_of_not_isOpen (h : Matches s w) (hclosed : w.isOpen = false) :
    w.stream.idle = false := by
  refine eq_false_of_ne_true fun hidle => ?_
  rw [(h.idle hidle).1] at hclosed
  cases hclosed

theorem Matches.idle_of_mem (h : Matches s w) {id : TargetId} (hid : id ∈ w.listening) :
    w.stream.idle = false := by
  refine eq_false_of_ne_true fun hidle => ?_
  rw [(h.idle hidle).2] at hid
  exact Finset.notMem_empty id hid

theorem Matches.stopped_of_not_started (h : Matches s w) (hstopped : w.stream.isStarted = false) :
    w.isOpen = false ∧ w.stream.idle = false := by
  have hclosed : w.isOpen = false := by
    by_contra hopen
    rw [Stream.isStarted_of_isOpen (eq_true_of_ne_false hopen)] at hstopped
    cases hstopped
  exact ⟨hclosed, h.idle_of_not_isOpen hclosed⟩

theorem idle_of_ne {id : TargetId} {x : Watched K} (h : Idle s id x)
    (hdata : t.listenTargets.find id = s.listenTargets.find id)
    (hkeys : t.remoteKeys id = s.remoteKeys id) : Idle t id x :=
  ⟨hdata.trans h.data, hkeys.trans h.synced, h.awaited, h.members, h.mismatched⟩

section Connections

theorem connected_of_not_needed (h : w.needed = false) : w.connected = w := by
  rw [connected, h, if_neg Bool.false_ne_true]

theorem connected_of_isStarted (h : w.stream.isStarted = true) : w.connected = w := by
  rw [connected, Stream.started_of_isStarted h, ite_self]

theorem isOpen_connected (w : WatchProtocol K) : w.connected.isOpen = w.isOpen := by
  rw [WatchProtocol.isOpen, connected]
  dsimp only
  split_ifs
  · exact Stream.isOpen_started w.stream
  · rfl

theorem connected_keeps_of_isOpen (h : Matches t v) (hopen : v.isOpen = true)
    (hasked : Asked s w → Asked t v) : Option.Rel (Keeps s w) (some t) (some v.connected) := by
  have hstarted : v.stream.isStarted = true := Stream.isStarted_of_isOpen hopen
  rw [connected_of_isStarted hstarted]
  exact .some ⟨⟨h, fun _ => hstarted⟩, hasked⟩

/-- A stream that is needed is started, and any other one is left as it is. -/
theorem connected_keeps (h : Matches t v) (hasked : Asked s w → Asked t v) :
    Option.Rel (Keeps s w)
      (if t.shouldStartWatchStream then t.startWatchStream else some t) (some v.connected) := by
  cases hshould : t.shouldStartWatchStream with
  | false =>
      rw [if_neg Bool.false_ne_true]
      rw [h.shouldStartWatchStream] at hshould
      cases hneeded : v.needed with
      | false =>
          rw [connected_of_not_needed hneeded]
          refine .some ⟨⟨h, ?_⟩, hasked⟩
          rw [hneeded]
          exact fun hfalse => (Bool.false_ne_true hfalse).elim
      | true =>
          rw [hneeded, Bool.true_and, Bool.not_eq_false'] at hshould
          rw [connected_of_isStarted hshould]
          exact .some ⟨⟨h, fun _ => hshould⟩, hasked⟩
  | true =>
      rw [if_pos rfl, startWatchStream_eq hshould]
      rw [h.shouldStartWatchStream, Bool.and_eq_true, Bool.not_eq_true'] at hshould
      obtain ⟨hneeded, hstopped⟩ := hshould
      obtain ⟨hclosed, hidle⟩ := h.stopped_of_not_started hstopped
      obtain ⟨-, hrequests, hall⟩ := h.rest hclosed
      have hstream : v.connected.stream = v.stream.started := if_pos hneeded
      refine .some ⟨⟨⟨h.network, ?_, h.listening, ?_, .inr ⟨?_, rfl, hrequests, ?_⟩⟩, ?_⟩, hasked⟩
      · rw [hstream, h.stream]
      · rw [hstream, Stream.idle_started, hidle]
        exact fun hfalse => (Bool.false_ne_true hfalse).elim
      · rw [WatchProtocol.isOpen, hstream, Stream.isOpen_started]
        exact hclosed
      · exact fun id => idle_of_ne (hall id) rfl rfl
      · rw [hstream, Stream.isStarted_started]
        exact fun _ => rfl

/-- What is left when a stream has ended. -/
theorem disconnected_matches {ok : Bool} (hnetwork : t.isNetworkEnabled = w.network)
    (hstream : t.watchStream = .closed ok)
    (hlistening : ∀ id, id ∈ w.listening ↔ (w.targets id).data.isSome = true)
    (hdata : ∀ id, t.listenTargets.find id = (w.targets id).data)
    (hsynced : ∀ id, t.remoteKeys id = (w.targets id).synced)
    (haggregator : t.aggregator = {}) (hrequests : t.requests = []) :
    Matches t (w.disconnected ok) where
  network := hnetwork
  stream := hstream
  listening := hlistening
  idle := by
    intro hidle
    cases hidle
  targets := .inr ⟨Stream.isOpen_closed ok, haggregator, hrequests,
    fun id => ⟨hdata id, hsynced id, rfl, rfl, rfl⟩⟩

theorem asked_disconnected {ok : Bool} (hrequests : t.requests = []) :
    Asked t (w.disconnected ok) := by
  intro id
  rw [RemoteStore.requestsFor, hrequests]
  rfl

theorem close_keeps (h : Matches s w) (hstarted : w.stream.isStarted = true) (ok : Bool) :
    Option.Rel (Keeps s w) (s.closeWatchStream ok)
      (if ok && w.needed then none else some (w.disconnected ok).connected) := by
  have hmatches : Matches ({ s with
      watchStream := .closed ok
      requests := [] } : RemoteStore K D).cleanUpWatchStreamState (w.disconnected ok) :=
    disconnected_matches h.network rfl h.listening h.data h.synced rfl rfl
  have hshould : ({ s with watchStream := .closed ok, requests := [] } :
      RemoteStore K D).shouldStartWatchStream = w.needed := by
    refine hmatches.shouldStartWatchStream.trans ?_
    have hclosed : (w.disconnected ok).stream.isStarted = false := Stream.isStarted_closed ok
    rw [hclosed, Bool.not_false, Bool.and_true]
    rfl
  rw [RemoteStore.closeWatchStream, h.stream, if_pos hstarted, RemoteStore.onWatchStreamClose,
    hshould]
  by_cases hneeds : (ok && w.needed) = true
  · rw [if_pos hneeds, if_pos hneeds]
    exact .none
  · rw [if_neg hneeds, if_neg hneeds]
    exact connected_keeps hmatches fun _ => asked_disconnected rfl

end Connections

section Networks

theorem network_matches (h : Matches s w) (enabled : Bool) :
    Matches ({ s with isNetworkEnabled := enabled } : RemoteStore K D)
      { w with network := enabled } where
  network := rfl
  stream := h.stream
  listening := h.listening
  idle := h.idle
  targets := by
    rcases h.targets with hopen | ⟨hclosed, haggregator, hrequests, hidle⟩
    · exact .inl hopen
    · exact .inr ⟨hclosed, haggregator, hrequests, fun id => idle_of_ne (hidle id) rfl rfl⟩

theorem enableNetwork_keeps (h : Follows s w) :
    Option.Rel (Keeps s w) s.enableNetwork (w.act .enableNetwork) :=
  connected_keeps (network_matches h.toMatches true) fun hasked => hasked

theorem cleanUpWatchStreamState_eq (haggregator : t.aggregator = {}) :
    t.cleanUpWatchStreamState = t := by
  rw [RemoteStore.cleanUpWatchStreamState, ← haggregator]

theorem disableNetwork_keeps (h : Follows s w) :
    Option.Rel (Keeps s w) s.disableNetwork (w.act .disableNetwork) := by
  have hmatches := network_matches h.toMatches false
  have hneeded : ({ w with network := false } : WatchProtocol K).needed = false := rfl
  rw [RemoteStore.disableNetwork, act]
  dsimp only
  cases hstarted : w.stream.isStarted with
  | true =>
      have hclose := close_keeps hmatches hstarted true
      rw [hneeded, Bool.and_false, if_neg Bool.false_ne_true] at hclose
      obtain ⟨t, ht, hfollows, hasked⟩ := exists_left_of_rel hclose
      rw [connected_of_not_needed rfl] at hfollows hasked
      rw [ht, Option.map_some, cleanUpWatchStreamState_eq (hfollows.rest rfl).1, if_pos rfl]
      exact .some ⟨hfollows, hasked⟩
  | false =>
      have hclosed := (hmatches.stopped_of_not_started hstarted).1
      have hclose : ({ s with isNetworkEnabled := false } : RemoteStore K D).closeWatchStream true =
          some { s with isNetworkEnabled := false } := by
        rw [← h.stream] at hstarted
        rw [RemoteStore.closeWatchStream, if_neg (ne_true_of_eq_false hstarted), if_pos rfl]
      rw [hclose, Option.map_some, cleanUpWatchStreamState_eq (hmatches.rest hclosed).1,
        if_neg Bool.false_ne_true]
      exact .some ⟨⟨hmatches, fun hfalse => (Bool.false_ne_true hfalse).elim⟩, fun hasked => hasked⟩

/-- Streams for other credentials start without a wait. -/
theorem handleCredentialChange_keeps (h : Follows s w) :
    Option.Rel (Keeps s w) s.handleCredentialChange (w.act .credentialChange) := by
  rw [RemoteStore.handleCredentialChange, act, h.network]
  cases hnetwork : w.network with
  | false =>
      rw [if_neg Bool.false_ne_true, if_neg Bool.false_ne_true]
      exact .some ⟨h, fun hasked => hasked⟩
  | true =>
      rw [if_pos rfl, if_pos rfl, RemoteStore.restartNetwork]
      obtain ⟨t, ht, hfollows, -⟩ := exists_left_of_rel (disableNetwork_keeps h)
      generalize hv : (if w.stream.isStarted then
        ({ w with network := false } : WatchProtocol K).disconnected true
        else { w with network := false }) = v at hfollows
      have hstopped : v.stream.isStarted = false := by
        subst hv
        split_ifs with hstarted
        · rfl
        · exact eq_false_of_ne_true hstarted
      have hsame : ∀ id, (v.targets id).data = (w.targets id).data ∧
          (v.targets id).synced = (w.targets id).synced := by
        subst hv
        intro id
        split_ifs <;> exact ⟨rfl, rfl⟩
      obtain ⟨hclosed, hidle⟩ := hfollows.stopped_of_not_started hstopped
      obtain ⟨haggregator, hrequests, -⟩ := hfollows.rest hclosed
      have hstream : t.watchStream.inhibitBackoff = some (.closed true) := by
        rw [hfollows.stream, Stream.inhibitBackoff, hstopped, if_neg Bool.false_ne_true, hidle]
        rfl
      have hmatches : Matches ({ t with
          isNetworkEnabled := true
          watchStream := .closed true } : RemoteStore K D) (w.disconnected true) :=
        disconnected_matches hnetwork.symm rfl h.listening
          (fun id => (hfollows.data id).trans (hsame id).1)
          (fun id => (hfollows.synced id).trans (hsame id).2) haggregator hrequests
      rw [ht, Option.bind_some, hstream, Option.bind_some, RemoteStore.enableNetwork]
      exact connected_keeps hmatches fun _ => asked_disconnected hrequests

end Networks

section Retargets

/-- What has been asked about the targets once a request is added. -/
theorem requestsFor_append (request : WatchRequest K) (id : TargetId)
    (ht : t.requests = s.requests ++ [request]) :
    t.requestsFor id =
      s.requestsFor id ++ if request.target = id then [request.data] else [] := by
  rw [RemoteStore.requestsFor, ht, List.filter_append, List.map_append, RemoteStore.requestsFor]
  by_cases htarget : request.target = id
  · rw [if_pos htarget, List.filter_cons_of_pos (by simp [htarget])]
    rfl
  · rw [if_neg htarget, List.filter_cons_of_neg (by simp [htarget])]
    rfl

/-- On an open stream a target that is listened to anew, or no longer, is asked for. -/
theorem retarget_open (h : Matches s w) (hopen : w.isOpen = true) (request : WatchRequest K)
    {listenTargets : KeyMap TargetId (TargetData K)}
    (hid : listenTargets.find request.target = request.data)
    (hothers : ∀ j, j ≠ request.target → listenTargets.find j = s.listenTargets.find j)
    (keys : KeySet K) (stream : Stream) :
    let t : RemoteStore K D := { s with
      watchStream := stream
      listenTargets := listenTargets
      remoteKeys := Function.update s.remoteKeys request.target keys
      aggregator := s.aggregator.recordPendingTargetRequest request.target
      requests := s.requests ++ [request] }
    AllAgree t.metadata t.aggregator (w.retarget request.target request.data keys).targets ∧
      (Asked s w → Asked t (w.retarget request.target request.data keys)) := by
  constructor
  · have hagree : AllAgree
        (⟨Function.update s.remoteKeys request.target keys, listenTargets.find⟩ :
          TargetMetadataProvider K)
        (s.aggregator.recordPendingTargetRequest request.target)
        (Function.update w.targets request.target { w.targets request.target with
          data := request.data
          synced := keys
          members := keys }.requested) :=
      recordPendingTargetRequest_agrees (h.agree hopen)
        (fun j hj => ⟨hothers j hj, Function.update_of_ne hj _ _⟩) hid
        (Function.update_self _ _ _) rfl rfl
    rw [retarget]
    dsimp only [Targets.change]
    rw [hopen, if_pos rfl]
    exact hagree
  · intro hasked id
    rw [requestsFor_append (s := s) request id rfl, hasked id, retarget]
    dsimp only
    rw [hopen, if_pos rfl]
    by_cases htarget : request.target = id
    · subst htarget
      rw [if_pos rfl, Function.update_self]
    · rw [if_neg htarget, List.append_nil, Function.update_of_ne (Ne.symm htarget)]

/-- Otherwise only the views are changed. -/
theorem retarget_closed (h : Matches s w) (hclosed : w.isOpen = false) {id : TargetId}
    {data : Option (TargetData K)} {listenTargets : KeyMap TargetId (TargetData K)}
    (hid : listenTargets.find id = data)
    (hothers : ∀ j, j ≠ id → listenTargets.find j = s.listenTargets.find j) (keys : KeySet K) :
    ∀ j, Idle { s with
        listenTargets := listenTargets
        remoteKeys := Function.update s.remoteKeys id keys } j
      ((w.retarget id data keys).targets j) := by
  obtain ⟨-, -, hidle⟩ := h.rest hclosed
  intro j
  rw [retarget]
  dsimp only [Targets.change]
  rw [hclosed, if_neg Bool.false_ne_true]
  by_cases hj : j = id
  · subst hj
    rw [Function.update_self]
    exact ⟨hid, Function.update_self _ _ _, (hidle j).awaited, rfl, (hidle j).mismatched⟩
  · rw [Function.update_of_ne hj]
    exact idle_of_ne (hidle j) (hothers j hj) (Function.update_of_ne hj _ _)

theorem data_retarget (w : WatchProtocol K) (id j : TargetId) (data : Option (TargetData K))
    (keys : KeySet K) :
    ((w.retarget id data keys).targets j).data = if j = id then data else (w.targets j).data := by
  rw [retarget]
  dsimp only [Targets.change]
  by_cases hj : j = id
  · subst hj
    rw [Function.update_self, if_pos rfl]
    split_ifs <;> rfl
  · rw [Function.update_of_ne hj, if_neg hj]

theorem asked_retarget_closed (hclosed : w.isOpen = false) (id : TargetId)
    (data : Option (TargetData K)) (keys : KeySet K) :
    (w.retarget id data keys).asked = w.asked := by
  rw [retarget]
  dsimp only
  rw [hclosed, if_neg Bool.false_ne_true]

end Retargets

section Events

theorem listen_keeps (h : Follows s w) (id : TargetId) (data : TargetData K) (keys : KeySet K) :
    Option.Rel (Keeps s w) (s.act (.listen id data keys)) (w.act (.listen id data keys)) := by
  rw [RemoteStore.act, act]
  by_cases hlistened : id ∈ w.listening
  · rw [if_pos hlistened, RemoteStore.listen, h.contains id, if_pos (decide_eq_true hlistened)]
    exact .some ⟨h, fun hasked => hasked⟩
  rw [if_neg hlistened]
  have hnew : s.listenTargets.contains id = false :=
    (h.contains id).trans (decide_eq_false hlistened)
  have hid : (s.listenTargets.insert id data).find id = some data :=
    (KeyMap.find_insert _ _ _ _).trans (if_pos rfl)
  have hothers : ∀ j, j ≠ id → (s.listenTargets.insert id data).find j = s.listenTargets.find j :=
    fun j hj => (KeyMap.find_insert _ _ _ _).trans (if_neg hj)
  have hlistening : ∀ j, j ∈ insert id w.listening ↔
      ((w.retarget id (some data) keys).targets j).data.isSome = true := by
    intro j
    rw [data_retarget, Finset.mem_insert, h.listening j]
    by_cases hj : j = id <;> simp [hj]
  have hnever : ({ w.stream with idle := false } : Stream).idle = true →
      w.isOpen = true ∧ insert id w.listening = ∅ := by
    intro hidle
    cases hidle
  cases hopen : w.isOpen with
  | true =>
      obtain ⟨hagree, hasked⟩ := retarget_open h.toMatches hopen (.watchQuery id data) hid hothers
        keys { w.stream with idle := false }
      rw [listen_of_isOpen hnew (h.isOpen.trans hopen), h.stream]
      exact connected_keeps_of_isOpen ⟨h.network, rfl, hlistening, hnever, .inl ⟨hopen, hagree⟩⟩
        hopen hasked
  | false =>
      have hidle := h.idle_of_not_isOpen hopen
      have hstream : s.watchStream = { w.stream with idle := false } := by
        rw [← hidle]
        exact h.stream
      obtain ⟨haggregator, hrequests, -⟩ := h.rest hopen
      have hmatches : Matches ({ s with
          listenTargets := s.listenTargets.insert id data
          remoteKeys := Function.update s.remoteKeys id keys } : RemoteStore K D)
          { w.retarget id (some data) keys with
            listening := insert id w.listening
            stream := { w.stream with idle := false } } :=
        ⟨h.network, hstream, hlistening, hnever, .inr ⟨hopen, haggregator, hrequests,
          retarget_closed h.toMatches hopen hid hothers keys⟩⟩
      rw [listen_of_not_isOpen hnew (h.isOpen.trans hopen)]
      refine connected_keeps hmatches fun hasked j => ?_
      exact (hasked j).trans (congrFun (asked_retarget_closed hopen id (some data) keys) j).symm

theorem stopListening_keeps (h : Follows s w) (id : TargetId) :
    Option.Rel (Keeps s w) (s.act (.stopListening id)) (w.act (.stopListening id)) := by
  rw [RemoteStore.act, act]
  by_cases hlistened : id ∈ w.listening
  case neg =>
    rw [if_neg hlistened, RemoteStore.stopListening, h.contains id,
      if_neg (by simpa using hlistened)]
    exact .none
  rw [if_pos hlistened]
  have hcontains : s.listenTargets.contains id = true :=
    (h.contains id).trans (decide_eq_true hlistened)
  have hid : (s.listenTargets.erase id).find id = none :=
    (KeyMap.find_erase _ _ _).trans (if_pos rfl)
  have hothers : ∀ j, j ≠ id → (s.listenTargets.erase id).find j = s.listenTargets.find j :=
    fun j hj => (KeyMap.find_erase _ _ _).trans (if_neg hj)
  have hlistening : ∀ j, j ∈ w.listening.erase id ↔
      ((w.retarget id none SortedMap.empty).targets j).data.isSome = true := by
    intro j
    rw [data_retarget, Finset.mem_erase, h.listening j]
    by_cases hj : j = id <;> simp [hj]
  have hidle := h.idle_of_mem hlistened
  have hneeded : w.network = true → w.stream.isStarted = true := by
    intro hnetwork
    refine h.started ?_
    rw [needed, hnetwork, Bool.true_and]
    exact decide_eq_true ⟨id, hlistened⟩
  cases hopen : w.isOpen with
  | true =>
      obtain ⟨hagree, hasked⟩ := retarget_open h.toMatches hopen (.unwatchTarget id) hid hothers
        SortedMap.empty w.stream
      have hmatches : Matches ({ s with
          listenTargets := s.listenTargets.erase id
          remoteKeys := Function.update s.remoteKeys id SortedMap.empty
          aggregator := s.aggregator.recordPendingTargetRequest id
          requests := s.requests ++ [.unwatchTarget id] } : RemoteStore K D)
          { w.retarget id none SortedMap.empty with listening := w.listening.erase id } := by
        refine ⟨h.network, h.stream, hlistening, ?_, .inl ⟨hopen, hagree⟩⟩
        intro htrue
        exact (Bool.false_ne_true (hidle.symm.trans htrue)).elim
      have hempty : (s.listenTargets.erase id).entries.isEmpty =
          decide (w.listening.erase id = ∅) := by
        have hnonempty := hmatches.isEmpty
        dsimp only at hnonempty
        rw [Bool.eq_iff_iff, decide_eq_true_iff, ← Finset.not_nonempty_iff_eq_empty,
          ← decide_eq_true_iff (p := (w.listening.erase id).Nonempty), ← hnonempty]
        simp
      have hstore : s.isOpen = true := h.isOpen.trans hopen
      rw [stopListening_of_isOpen hcontains hstore (h.stream ▸ hidle), hempty, h.stream]
      refine .some ⟨⟨⟨h.network, ?_, hlistening, ?_, .inl ⟨?_, hagree⟩⟩, ?_⟩, hasked⟩
      · simp only [decide_eq_true_eq]
      · dsimp only
        split_ifs with hnone
        · exact fun _ => ⟨(Stream.isOpen_markIdle _).trans hopen, hnone⟩
        · intro htrue
          exact (Bool.false_ne_true (hidle.symm.trans htrue)).elim
      · rw [WatchProtocol.isOpen]
        dsimp only
        split_ifs
        · exact (Stream.isOpen_markIdle _).trans hopen
        · exact hopen
      · intro hneeds
        refine Stream.isStarted_of_isOpen ?_
        dsimp only
        split_ifs
        · exact (Stream.isOpen_markIdle _).trans hopen
        · exact hopen
  | false =>
      obtain ⟨haggregator, hrequests, -⟩ := h.rest hopen
      have hstream : (if w.listening.erase id = ∅ then w.stream.markIdle else w.stream) =
          w.stream := by
        rw [Stream.markIdle_of_not_isOpen hopen, ite_self]
      rw [stopListening_of_not_isOpen hcontains (h.isOpen.trans hopen), hstream]
      refine .some ⟨⟨⟨h.network, h.stream, hlistening, ?_, .inr ⟨hopen, haggregator, hrequests,
        retarget_closed h.toMatches hopen hid hothers SortedMap.empty⟩⟩, ?_⟩, ?_⟩
      · intro htrue
        exact (Bool.false_ne_true (hidle.symm.trans htrue)).elim
      · intro hneeds
        exact hneeded (Bool.and_eq_true_iff.mp hneeds).1
      · intro hasked j
        rw [asked_retarget_closed hopen]
        exact hasked j

end Events

section Openings

omit [LinearOrder K] in
/-- The listens of a new stream name each target once. -/
theorem filter_listens (m : KeyMap TargetId (TargetData K)) (id : TargetId) :
    (m.entries.map fun e => WatchRequest.watchQuery e.1 e.2).filter
      (fun request => request.target == id) = (m.find id).toList.map (.watchQuery id) := by
  have hnodup : m.entries.Nodup := List.Nodup.of_map Prod.fst m.keys_nodup
  have hmem : ∀ e, e ∈ m.entries.filter (fun e => e.1 == id) ↔
      e.1 = id ∧ m.find id = some e.2 := by
    intro e
    rw [List.mem_filter, KeyMap.mem_entries, beq_iff_eq, and_comm]
    refine and_congr_right ?_
    rintro rfl
    exact Iff.rfl
  rw [List.filter_map]
  change List.map _ (m.entries.filter fun e => e.1 == id) = _
  cases hfind : m.find id with
  | none =>
      have hnil : m.entries.filter (fun e => e.1 == id) = [] := by
        refine List.eq_nil_iff_forall_not_mem.mpr fun e he => ?_
        rw [hmem, hfind] at he
        cases he.2
      rw [hnil]
      rfl
  | some data =>
      have hone : m.entries.filter (fun e => e.1 == id) = [(id, data)] := by
        refine List.perm_singleton.mp
          ((List.perm_ext_iff_of_nodup (hnodup.filter _) (List.nodup_singleton _)).mpr ?_)
        rintro ⟨j, other⟩
        rw [hmem, hfind, List.mem_singleton, Prod.mk.injEq, Option.some.injEq, eq_comm (a := data)]
      rw [hone]
      rfl

/-- Requests for different targets are counted apart. -/
theorem foldl_recordPendingTargetRequest (ids : List TargetId) (hids : ids.Nodup)
    (a : WatchChangeAggregator K D) (j : TargetId) :
    let b := ids.foldl WatchChangeAggregator.recordPendingTargetRequest a
    b.stateOf j = (if j ∈ ids then (a.stateOf j).recordPendingTargetRequest else a.stateOf j) ∧
      b.targetStates.contains j = (decide (j ∈ ids) || a.targetStates.contains j) ∧
      b.pendingTargetResets = a.pendingTargetResets := by
  induction ids generalizing a with
  | nil => exact ⟨rfl, by simp, rfl⟩
  | cons id ids ih =>
      obtain ⟨hnot, hnodup⟩ := List.nodup_cons.mp hids
      obtain ⟨hstate, hcontains, hresets⟩ := ih hnodup (a.recordPendingTargetRequest id)
      rw [List.foldl_cons]
      refine ⟨hstate.trans ?_, hcontains.trans ?_, hresets⟩
      · simp only [WatchChangeAggregator.recordPendingTargetRequest, stateOf_setState,
          List.mem_cons]
        by_cases hj : j = id
        · subst hj
          simp [hnot]
        · simp [hj]
      · simp only [WatchChangeAggregator.recordPendingTargetRequest, contains_setState,
          List.mem_cons, Bool.decide_or]
        rw [← Bool.or_assoc, Bool.or_comm (decide (j ∈ ids))]

/-- Each target that is listened to awaits an answer, and no other one does. -/
theorem opened_agrees (h : Matches s w) (hclosed : w.isOpen = false) :
    AllAgree s.metadata
      (s.listenTargets.keys.foldl WatchChangeAggregator.recordPendingTargetRequest s.aggregator)
      fun id => opened (w.targets id) := by
  obtain ⟨haggregator, -, hidle⟩ := h.rest hclosed
  rw [haggregator]
  intro id
  have hid := hidle id
  obtain ⟨hstate, hcontains, hresets⟩ := foldl_recordPendingTargetRequest
    (K := K) (D := D) s.listenTargets.keys s.listenTargets.keys_nodup {} id
  have hlisted : id ∈ s.listenTargets.keys ↔ (w.targets id).data.isSome = true := by
    rw [KeyMap.mem_keys, SortedMap.contains, hid.data]
  change Agrees _ _ id (opened (w.targets id))
  rw [opened]
  by_cases hsome : (w.targets id).data.isSome = true
  · rw [if_pos hsome]
    rw [if_pos (hlisted.mpr hsome)] at hstate
    refine agrees_of_awaited hid.data hid.synced ?_ ?_ ?_ (Nat.succ_ne_zero _)
    · intro _
      refine hcontains.trans ?_
      simp [hlisted.mpr hsome]
    · refine (congrArg TargetState.outstandingResponses hstate).trans ?_
      simp only [Watched.requested, hid.awaited]
      rfl
    · refine (congrArg (fun resets => SortedMap.contains resets id) hresets).trans ?_
      exact hid.mismatched.symm
  · rw [if_neg hsome]
    rw [if_neg (hsome ∘ hlisted.mp)] at hstate
    refine agrees_of_no_changes hid.data hid.synced (fun hdata => (hsome hdata).elim) ?_ ?_ ?_
      fun _ => hid.members
    · refine (congrArg TargetState.outstandingResponses hstate).trans ?_
      rw [hid.awaited]
      rfl
    · refine (congrArg (fun resets => SortedMap.contains resets id) hresets).trans ?_
      exact hid.mismatched.symm
    · exact fun _ => congrArg TargetState.documentChanges hstate

/-- On a new stream the store asks for all that is listened to. -/
theorem act_streamStart (h : Matches s w) (hstate : w.stream.state = .starting) :
    s.act .streamStart =
      some { s with
        watchStream := w.stream.onStreamStart
        aggregator := s.listenTargets.keys.foldl
          WatchChangeAggregator.recordPendingTargetRequest s.aggregator
        requests := s.listenTargets.entries.map fun e => .watchQuery e.1 e.2 } := by
  have hclosed : w.isOpen = false := by simp [WatchProtocol.isOpen, Stream.isOpen, hstate]
  have hidle : w.stream.onStreamStart.idle = false := h.idle_of_not_isOpen hclosed
  have hsend := foldlM_sendWatchRequest s.listenTargets.entries
    (s := { s with watchStream := w.stream.onStreamStart }) rfl hidle
  rw [RemoteStore.act, h.stream, if_pos hstate]
  refine hsend.trans ?_
  dsimp only
  rw [(h.rest hclosed).2.1, List.nil_append]
  rfl

theorem data_opened (x : Watched K) : (opened x).data = x.data := by
  unfold opened
  split_ifs <;> rfl

theorem streamStart_keeps (h : Follows s w) :
    Option.Rel (Keeps s w) (s.act .streamStart) (w.act .streamStart) := by
  by_cases hstate : w.stream.state = .starting
  · have hclosed : w.isOpen = false := by simp [WatchProtocol.isOpen, Stream.isOpen, hstate]
    rw [act_streamStart h.toMatches hstate, act, if_pos hstate]
    refine .some ⟨⟨⟨h.network, rfl, ?_, ?_, .inl ⟨rfl, opened_agrees h.toMatches hclosed⟩⟩,
      fun _ => rfl⟩, ?_⟩
    · intro id
      rw [data_opened]
      exact h.listening id
    · intro hidle
      rw [(h.idle hidle).1] at hclosed
      cases hclosed
    · intro _ id
      rw [RemoteStore.requestsFor, filter_listens, List.map_map, h.data id]
      rfl
  · rw [RemoteStore.act, act, h.stream, if_neg hstate, if_neg hstate]
    exact .none

theorem streamFinish_keeps (h : Follows s w) (ok : Bool) :
    Option.Rel (Keeps s w) (s.act (.streamFinish ok)) (w.act (.streamFinish ok)) := by
  rw [RemoteStore.act, act, h.stream]
  by_cases hstate : w.stream.state = .starting ∨ w.stream.state = .open
  · have hstarted : w.stream.isStarted = true := by
      rcases hstate with hstate | hstate <;> simp [Stream.isStarted, Stream.isOpen, hstate]
    rw [if_pos hstate, if_pos hstate]
    exact close_keeps h.toMatches hstarted ok
  · rw [if_neg hstate, if_neg hstate]
    exact .none

theorem backoffElapsed_keeps (h : Follows s w) :
    Option.Rel (Keeps s w) (s.act .backoffElapsed) (w.act .backoffElapsed) := by
  rw [RemoteStore.act, act, h.stream, Stream.backoffElapsed]
  by_cases hstate : w.stream.state = .backoff
  · have hclosed : w.isOpen = false := by simp [WatchProtocol.isOpen, Stream.isOpen, hstate]
    obtain ⟨haggregator, hrequests, hidle⟩ := h.rest hclosed
    rw [if_pos hstate]
    refine .some ⟨⟨⟨h.network, rfl, h.listening, ?_, .inr ⟨rfl, haggregator, hrequests, ?_⟩⟩,
      fun _ => rfl⟩, fun hasked => hasked⟩
    · intro hidle
      rw [(h.idle hidle).1] at hclosed
      cases hclosed
    · exact fun id => idle_of_ne (hidle id) rfl rfl
  · rw [if_neg hstate]
    exact .none

theorem idleTimeout_keeps (h : Follows s w) :
    Option.Rel (Keeps s w) (s.act .idleTimeout) (w.act .idleTimeout) := by
  rw [RemoteStore.act, act, h.stream]
  cases hidle : w.stream.idle with
  | false =>
      rw [if_neg Bool.false_ne_true, if_neg Bool.false_ne_true]
      exact .none
  | true =>
      obtain ⟨hopen, hnone⟩ := h.idle hidle
      have hneeded : w.needed = false := by simp [needed, hnone]
      have hclose := close_keeps h.toMatches (Stream.isStarted_of_isOpen hopen) true
      have hsame : (w.disconnected true).connected = w.disconnected true :=
        connected_of_not_needed hneeded
      rw [hneeded, Bool.and_false, if_neg Bool.false_ne_true, hsame] at hclose
      rw [if_pos rfl, if_pos rfl]
      exact hclose

/-- The store fails at an event of the client just where the protocol excludes it. -/
theorem act_keeps (h : Follows s w) (event : ClientEvent K) :
    Option.Rel (Keeps s w) (s.act event) (w.act event) := by
  cases event with
  | enableNetwork => exact enableNetwork_keeps h
  | disableNetwork => exact disableNetwork_keeps h
  | credentialChange => exact handleCredentialChange_keeps h
  | listen id data keys => exact listen_keeps h id data keys
  | stopListening id => exact stopListening_keeps h id
  | streamStart => exact streamStart_keeps h
  | streamFinish ok => exact streamFinish_keeps h ok
  | backoffElapsed => exact backoffElapsed_keeps h
  | idleTimeout => exact idleTimeout_keeps h

end Openings

end WatchProtocols

end YouRoute
