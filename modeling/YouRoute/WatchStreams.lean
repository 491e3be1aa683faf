import YouRoute.WatchProtocols

/-!
# The remote store follows the protocol

What the server says reaches the aggregator, and with a snapshot the views. The remote
store follows every run of the protocol, whatever comes between the messages. No
assertion fails, the views have just the documents that the messages name, the store
has asked just what the protocol says, and a stream that is needed is started.
-/

namespace YouRoute.WatchStreams
open WatchChanges StepSystem RemoteStores WatchProtocol WatchProtocols

variable {K D : Type*} [LinearOrder K] {s t : RemoteStore K D} {w v : WatchProtocol K}

section Snapshots

variable {p : TargetMetadataProvider K} {a : WatchChangeAggregator K D} {x y : Targets K}

/-- What the resending of a target does to the aggregator. -/
def resent (p : TargetMetadataProvider K) (a : WatchChangeAggregator K D) (id : TargetId) :
    WatchChangeAggregator K D :=
  if (p.targetData id).isSome then
    (a.recordPendingTargetRequest id).recordPendingTargetRequest id
  else a

/-- The requests that the resending of a target makes. -/
def resendRequests (p : TargetMetadataProvider K) (id : TargetId) : List (WatchRequest K) :=
  match p.targetData id with
  | none => []
  | some data =>
      [.unwatchTarget id, .watchQuery id { data with purpose := .existenceFilterMismatch }]

theorem resend_eq (hopen : s.isOpen = true)
    (hidle : s.watchStream.idle = true → ∀ id, s.listenTargets.find id = none) (id : TargetId) :
    s.resend id =
      some { s with
        aggregator := resent s.metadata s.aggregator id
        requests := s.requests ++ resendRequests s.metadata id } := by
  rw [RemoteStore.resend, resent, resendRequests]
  have hdata : s.metadata.targetData id = s.listenTargets.find id := rfl
  rw [hdata]
  cases hfind : s.listenTargets.find id with
  | none => simp
  | some data =>
      have hbusy : s.watchStream.idle = false := by
        refine eq_false_of_ne_true fun htrue => ?_
        rw [hidle htrue id] at hfind
        cases hfind
      have hwatch := sendWatchRequest_eq (s := { s with
        aggregator := s.aggregator.recordPendingTargetRequest id
        requests := s.requests ++ [.unwatchTarget id] }) hopen hbusy id
        { data with purpose := .existenceFilterMismatch }
      dsimp only
      rw [sendUnwatchRequest_eq hopen hbusy id, Option.bind_some]
      refine hwatch.trans ?_
      simp

theorem foldlM_resend (ids : List TargetId) {s : RemoteStore K D} (hopen : s.isOpen = true)
    (hidle : s.watchStream.idle = true → ∀ id, s.listenTargets.find id = none) :
    ids.foldlM RemoteStore.resend s =
      some { s with
        aggregator := ids.foldl (resent s.metadata) s.aggregator
        requests := s.requests ++ ids.flatMap (resendRequests s.metadata) } := by
  induction ids generalizing s with
  | nil => rw [List.foldl_nil, List.flatMap_nil, List.append_nil]; rfl
  | cons id ids ih =>
      have hrest := ih (s := { s with
        aggregator := resent s.metadata s.aggregator id
        requests := s.requests ++ resendRequests s.metadata id }) hopen hidle
      rw [List.append_assoc] at hrest
      rw [List.foldlM_cons, resend_eq hopen hidle]
      exact hrest

omit [LinearOrder K] in
theorem filter_singleton_requests (id j : TargetId) (requests : List (WatchRequest K))
    (h : ∀ request ∈ requests, request.target = j) :
    requests.filter (fun request => request.target == id) = if j = id then requests else [] := by
  by_cases hj : j = id
  · rw [if_pos hj, List.filter_eq_self]
    intro request hrequest
    rw [h request hrequest, hj, beq_self_eq_true]
  · rw [if_neg hj, List.filter_eq_nil_iff]
    intro request hrequest
    rw [h request hrequest, beq_iff_eq]
    exact hj

theorem target_of_mem_resendRequests {id : TargetId} {request : WatchRequest K}
    (h : request ∈ resendRequests p id) : request.target = id := by
  unfold resendRequests at h
  cases hdata : p.targetData id with
  | none =>
      rw [hdata] at h
      cases h
  | some data =>
      rw [hdata] at h
      rcases List.mem_cons.mp h with rfl | h
      · rfl
      · rw [List.mem_singleton.mp h]
        rfl

theorem filter_resendRequests (ids : List TargetId) (hids : ids.Nodup) (id : TargetId) :
    (ids.flatMap (resendRequests p)).filter (fun request => request.target == id) =
      if id ∈ ids then resendRequests p id else [] := by
  induction ids with
  | nil => rfl
  | cons j ids ih =>
      obtain ⟨hnot, hnodup⟩ := List.nodup_cons.mp hids
      rw [List.flatMap_cons, List.filter_append, ih hnodup,
        filter_singleton_requests id j _ fun _ => target_of_mem_resendRequests]
      by_cases hj : j = id
      · subst hj
        rw [if_pos rfl, if_neg hnot, List.append_nil, if_pos List.mem_cons_self]
      · rw [if_neg hj, List.nil_append]
        simp [Ne.symm hj]

theorem request_agrees (h : AllAgree p a x) (id : TargetId) :
    AllAgree p (a.recordPendingTargetRequest id) (x.change id Watched.requested) :=
  recordPendingTargetRequest_agrees h (fun _ _ => ⟨rfl, rfl⟩) (h id).data (h id).synced rfl rfl

theorem foldl_resent_agrees (ids : List TargetId) (hids : ids.Nodup) (h : AllAgree p a x) :
    AllAgree p (ids.foldl (resent p) a) fun j =>
      if j ∈ ids ∧ (x j).data.isSome = true then (x j).requested.requested else x j := by
  induction ids generalizing a x with
  | nil => simpa using h
  | cons id ids ih =>
      obtain ⟨hnot, hnodup⟩ := List.nodup_cons.mp hids
      rw [List.foldl_cons, resent, (h id).data]
      intro j
      by_cases hsome : (x id).data.isSome = true
      · rw [if_pos hsome]
        have hrest := ih hnodup (request_agrees (request_agrees h id) id) j
        by_cases hj : j = id
        · subst hj
          simpa [Targets.change, hnot, hsome] using hrest
        · simpa [Targets.change, hj] using hrest
      · rw [if_neg hsome]
        have hrest := ih hnodup h j
        by_cases hj : j = id
        · subst hj
          simpa [hnot, hsome] using hrest
        · simpa [hj] using hrest

/-- Each target takes its own change. -/
theorem foldlM_synced (es : List (TargetId × ByteString × TargetChange K))
    (hes : (es.map Prod.fst).Nodup) (keys : TargetId → KeySet K)
    (h : ∀ e ∈ es, ∃ after, syncedAfter (keys e.1) e.2.2 = some after) :
    ∃ next, es.foldlM (fun (keys : TargetId → KeySet K) e =>
        (syncedAfter (keys e.1) e.2.2).map (Function.update keys e.1)) keys = some next ∧
      (∀ j ∉ es.map Prod.fst, next j = keys j) ∧
      ∀ e ∈ es, syncedAfter (keys e.1) e.2.2 = some (next e.1) := by
  induction es generalizing keys with
  | nil => exact ⟨keys, rfl, fun _ _ => rfl, by simp⟩
  | cons e es ih =>
      rw [List.map_cons] at hes
      obtain ⟨hnot, hnodup⟩ := List.nodup_cons.mp hes
      obtain ⟨after, hafter⟩ := h e List.mem_cons_self
      have hother : ∀ d ∈ es, Function.update keys e.1 after d.1 = keys d.1 := by
        intro d hd
        refine Function.update_of_ne ?_ _ _
        intro heq
        exact hnot (heq ▸ List.mem_map_of_mem hd)
      have hrest : ∀ d ∈ es, ∃ last,
          syncedAfter (Function.update keys e.1 after d.1) d.2.2 = some last := by
        intro d hd
        rw [hother d hd]
        exact h d (List.mem_cons_of_mem e hd)
      obtain ⟨next, hnext, hkept, htaken⟩ := ih hnodup (Function.update keys e.1 after) hrest
      refine ⟨next, ?_, ?_, ?_⟩
      · rw [List.foldlM_cons, hafter]
        exact hnext
      · intro j hj
        rw [List.map_cons, List.mem_cons, not_or] at hj
        rw [hkept j hj.2, Function.update_of_ne hj.1]
      · intro d hd
        rcases List.mem_cons.mp hd with rfl | hd
        · rw [hafter, hkept d.1 hnot, Function.update_self]
        · rw [← hother d hd]
          exact htaken d hd

/-- After a snapshot the views have the documents that the messages name. -/
theorem raiseWatchSnapshot_agrees (h : AllAgree s.metadata s.aggregator x)
    (hopen : s.isOpen = true)
    (hidle : s.watchStream.idle = true → ∀ id, s.listenTargets.find id = none) :
    ∃ (keys : TargetId → KeySet K) (a : WatchChangeAggregator K D) (mismatches : KeySet TargetId),
      s.raiseWatchSnapshot =
        some { s with
          remoteKeys := keys
          aggregator := a
          requests := s.requests ++ mismatches.keys.flatMap (resendRequests s.metadata) } ∧
      AllAgree ⟨keys, s.listenTargets.find⟩ a (fun id => (x id).settled) ∧
      ∀ id, mismatches.contains id = (x id).mismatched := by
  obtain ⟨event, b, hevent, hmismatches, hresets, hsettled⟩ := createRemoteEvent_settles h
  have hresend := foldlM_resend event.targetMismatches.keys (s := { s with aggregator := b }) hopen
    hidle
  have htaken : ∀ e ∈ event.targetChanges.entries,
      syncedAfter (s.remoteKeys e.1) e.2.2 = some (x e.1).members := by
    intro e he
    rw [show s.remoteKeys e.1 = (x e.1).synced from (h e.1).synced]
    exact ((hsettled e.1).changed e.2 (KeyMap.mem_entries.mp he)).2
  obtain ⟨keys, hkeys, hkept, hchanged⟩ := foldlM_synced event.targetChanges.entries
    event.targetChanges.keys_nodup s.remoteKeys fun e he => ⟨_, htaken e he⟩
  have hdelivered : AllAgree (⟨keys, s.listenTargets.find⟩ : TargetMetadataProvider K) b
      fun id => (x id).delivered := by
    intro id
    refine delivered_agrees (hsettled id) hresets rfl ?_
    rw [← (h id).synced]
    cases hfind : event.targetChanges.find id with
    | none =>
        refine congrArg some (hkept id ?_).symm
        intro hmem
        have hcontains := KeyMap.mem_keys.mp hmem
        rw [SortedMap.contains, hfind] at hcontains
        cases hcontains
    | some c => exact hchanged (id, c) (KeyMap.mem_entries.mpr hfind)
  have hresent := foldl_resent_agrees event.targetMismatches.keys
    event.targetMismatches.keys_nodup hdelivered
  refine ⟨keys, event.targetMismatches.keys.foldl (resent s.metadata) b, event.targetMismatches, ?_,
    ?_, hmismatches⟩
  · rw [RemoteStore.raiseWatchSnapshot, hevent, Option.bind_some]
    dsimp only
    rw [hresend, Option.bind_some, RemoteStore.applyRemoteEvent]
    exact (congrArg (Option.map _) hkeys).trans rfl
  · intro id
    have hid := hresent id
    simp only [KeyMap.mem_keys, hmismatches] at hid
    change Agrees _ _ id (Watched.settled (x id))
    rw [Watched.settled]
    simp only [Bool.and_eq_true]
    exact hid

end Snapshots

section Messages

theorem handle_agrees (h : AllAgree s.metadata s.aggregator w.targets) {change : WatchChange K D}
    {x : Targets K} (hx : WatchProtocol.hear w.targets change = some x) :
    ∃ a, s.handle change = some a ∧ AllAgree s.metadata a x := by
  cases change with
  | target message => exact handleTargetChange_agrees h hx
  | document message =>
      cases hx
      exact ⟨_, rfl, handleDocumentChange_agrees h message⟩
  | existenceFilter message => exact handleExistenceFilter_agrees h hx

/-- A message leaves the stream as it is. -/
theorem follows_of_agree (h : Matches s w) (hopen : w.isOpen = true) {x : Targets K}
    {listening : Finset TargetId} (hnetwork : t.isNetworkEnabled = s.isNetworkEnabled)
    (hstream : t.watchStream = s.watchStream) (hagree : AllAgree t.metadata t.aggregator x)
    (hlistening : ∀ id, id ∈ listening ↔ (t.listenTargets.find id).isSome = true)
    (hempty : w.listening = ∅ → listening = ∅) (asked : TargetId → List (Option (TargetData K))) :
    Follows t { w with targets := x, listening := listening, asked := asked } where
  network := hnetwork.trans h.network
  stream := hstream.trans h.stream
  listening := by
    intro id
    rw [hlistening id, ← (hagree id).data]
    rfl
  idle := fun hidle => ⟨hopen, hempty (h.idle hidle).2⟩
  targets := .inl ⟨hopen, hagree⟩
  started := fun _ => Stream.isStarted_of_isOpen hopen

/-- A message that is no error; a snapshot asks for the targets whose documents did not add up. -/
theorem change_follows (h : Follows s w) (hopen : w.isOpen = true) {change : WatchChange K D}
    (herror : change.targetError = none) {x : Targets K}
    (hx : WatchProtocol.hear w.targets change = some x) (isSnapshot : Bool) :
    ∃ (t : RemoteStore K D) (more : List (WatchRequest K)),
      s.onStreamRead change isSnapshot = some t ∧ Follows t (w.told x isSnapshot) ∧
      t.requests = s.requests ++ more ∧
      ∀ id, more.filter (fun request => request.target == id) =
        if isSnapshot && (x id).mismatched then resendRequests s.metadata id else [] := by
  obtain ⟨a, ha, hall⟩ := handle_agrees (h.agree hopen) hx
  have hstarted : s.watchStream.isStarted = true :=
    Stream.isStarted_of_isOpen (h.isOpen.trans hopen)
  rw [RemoteStore.onStreamRead, if_pos hstarted, RemoteStore.onWatchStreamChange, herror]
  dsimp only
  rw [ha, Option.bind_some]
  cases isSnapshot with
  | false =>
      refine ⟨{ s with aggregator := a }, [], rfl, ?_, (List.append_nil _).symm, fun _ => rfl⟩
      exact follows_of_agree (t := { s with aggregator := a }) h.toMatches hopen rfl rfl hall
        h.listening_find id w.asked
  | true =>
      have hidle : s.watchStream.idle = true → ∀ id, s.listenTargets.find id = none := by
        intro hidle id
        rw [h.stream] at hidle
        have hnone := h.listening_find id
        rw [(h.idle hidle).2] at hnone
        simpa using hnone
      obtain ⟨keys, b, mismatches, hraise, hagree, hmismatches⟩ :=
        raiseWatchSnapshot_agrees (s := { s with aggregator := a }) hall (h.isOpen.trans hopen)
          hidle
      refine ⟨_, _, hraise, ?_, rfl, ?_⟩
      · exact follows_of_agree (t := { s with remoteKeys := keys, aggregator := b, requests := _ })
          h.toMatches hopen rfl rfl hagree h.listening_find id _
      · intro id
        rw [filter_resendRequests _ mismatches.keys_nodup]
        simp only [KeyMap.mem_keys, hmismatches, Bool.true_and]
        rfl

theorem change_keeps (h : Follows s w) (hopen : w.isOpen = true) {change : WatchChange K D}
    (herror : change.targetError = none) {x : Targets K}
    (hx : WatchProtocol.hear w.targets change = some x) (isSnapshot : Bool) :
    ∃ t, s.onStreamRead change isSnapshot = some t ∧ Keeps s w t (w.told x isSnapshot) := by
  obtain ⟨t, more, ht, hfollows, hrequests, hmore⟩ := change_follows h hopen herror hx isSnapshot
  refine ⟨t, ht, hfollows, fun hasked id => ?_⟩
  obtain ⟨a, -, hall⟩ := handle_agrees (h.agree hopen) hx
  have hasks : (w.told x isSnapshot).asked id =
      w.asked id ++ if isSnapshot then askedAgain (x id) else [] := by
    cases isSnapshot with
    | false => exact (List.append_nil _).symm
    | true => rfl
  rw [RemoteStore.requestsFor, hrequests, List.filter_append, List.map_append, hmore id, hasks,
    ← hasked id, RemoteStore.requestsFor, resendRequests, askedAgain, (hall id).data]
  refine congrArg _ ?_
  cases isSnapshot with
  | false => rfl
  | true =>
      cases (x id).data with
      | none => cases (x id).mismatched <;> rfl
      | some data => cases (x id).mismatched <;> rfl

/-- A target that the server gives up. -/
theorem rejectListen_agrees {x : Targets K} (h : AllAgree s.metadata s.aggregator x)
    {id : TargetId} {y : Watched K} (hy : WatchProtocol.failed (x id) = some y) :
    AllAgree (s.rejectListen id).metadata (s.rejectListen id).aggregator
      (Function.update x id y) := by
  have hcontains : s.listenTargets.contains id = (x id).data.isSome := by
    rw [SortedMap.contains, show s.listenTargets.find id = (x id).data from (h id).data]
  unfold RemoteStore.rejectListen
  unfold WatchProtocol.failed at hy
  rw [hcontains]
  cases hdata : (x id).data with
  | none =>
      rw [hdata] at hy
      cases hy
      rw [Function.update_eq_self]
      exact h
  | some data =>
      rw [hdata, Option.isNone_some, if_neg Bool.false_ne_true] at hy
      split_ifs at hy
      cases hy
      intro j
      by_cases hj : j = id
      · subst hj
        rw [Function.update_self]
        refine agrees_of_no_changes ?_ (Function.update_self _ _ _) ?_ ?_ (h j).mismatched ?_
          fun _ => rfl
        · exact (KeyMap.find_erase _ _ _).trans (if_pos rfl)
        · intro hsome
          cases hsome
        · exact congrArg TargetState.outstandingResponses
            ((stateOf_removeTarget _ _ _).trans (if_pos rfl))
        · exact fun _ => congrArg TargetState.documentChanges
            ((stateOf_removeTarget _ _ _).trans (if_pos rfl))
      · rw [Function.update_of_ne hj]
        refine ((h j).frame (removeTarget_untouched s.aggregator hj)).congr ?_ ?_
        · exact (KeyMap.find_erase _ _ _).trans (if_neg hj)
        · exact Function.update_of_ne hj _ _

/-- A rejected target is no longer listened to, and that is all that becomes of the rest. -/
theorem rejectListen_rest (s : RemoteStore K D) (id : TargetId) :
    (s.rejectListen id).isNetworkEnabled = s.isNetworkEnabled ∧
      (s.rejectListen id).watchStream = s.watchStream ∧
      (s.rejectListen id).requests = s.requests ∧
      ∀ j, (s.rejectListen id).listenTargets.find j =
        if j = id then none else s.listenTargets.find j := by
  unfold RemoteStore.rejectListen
  split_ifs with hcontains
  · exact ⟨rfl, rfl, rfl, fun j => KeyMap.find_erase _ _ _⟩
  · refine ⟨rfl, rfl, rfl, fun j => ?_⟩
    split_ifs with hj
    · rw [hj]
      simpa [SortedMap.contains] using hcontains
    · rfl

theorem processTargetError_rest (ids : List TargetId) (s : RemoteStore K D) :
    (s.processTargetError ids).isNetworkEnabled = s.isNetworkEnabled ∧
      (s.processTargetError ids).watchStream = s.watchStream ∧
      (s.processTargetError ids).requests = s.requests ∧
      ∀ j, (s.processTargetError ids).listenTargets.find j =
        if j ∈ ids then none else s.listenTargets.find j := by
  induction ids generalizing s with
  | nil => exact ⟨rfl, rfl, rfl, fun j => (if_neg List.not_mem_nil).symm⟩
  | cons id ids ih =>
      obtain ⟨hnetwork, hstream, hrequests, hfind⟩ := rejectListen_rest s id
      obtain ⟨hnetworks, hstreams, hrest, hfinds⟩ := ih (s.rejectListen id)
      refine ⟨hnetworks.trans hnetwork, hstreams.trans hstream, hrest.trans hrequests, fun j => ?_⟩
      refine (hfinds j).trans ?_
      rw [hfind j]
      by_cases hj : j = id <;> simp [hj]

theorem processTargetError_agrees (ids : List TargetId) {x y : Targets K}
    (h : AllAgree s.metadata s.aggregator x)
    (hy : ids.foldlM (fun (t : Targets K) id =>
      (WatchProtocol.failed (t id)).map (Function.update t id)) x = some y) :
    AllAgree (s.processTargetError ids).metadata (s.processTargetError ids).aggregator y := by
  induction ids generalizing s x with
  | nil =>
      cases hy
      exact h
  | cons id ids ih =>
      obtain ⟨v, hv, hrest⟩ := run_cons_eq_some.mp hy
      obtain ⟨z, hz, rfl⟩ := Option.map_eq_some_iff.mp hv
      exact ih (rejectListen_agrees h hz) hrest

theorem error_keeps (h : Follows s w) (hopen : w.isOpen = true) {change : WatchChange K D}
    {ids : List TargetId} (herror : change.targetError = some ids) {x : Targets K}
    (hx : ids.foldlM (fun (t : Targets K) id =>
      (WatchProtocol.failed (t id)).map (Function.update t id)) w.targets = some x)
    (isSnapshot : Bool) :
    ∃ t, s.onStreamRead change isSnapshot = some t ∧
      Keeps s w t { w with targets := x, listening := w.listening.filter (· ∉ ids) } := by
  have hstarted : s.watchStream.isStarted = true :=
    Stream.isStarted_of_isOpen (h.isOpen.trans hopen)
  obtain ⟨hnetwork, hstream, hrequests, hfind⟩ := processTargetError_rest ids s
  refine ⟨s.processTargetError ids, ?_, ?_, ?_⟩
  · rw [RemoteStore.onStreamRead, if_pos hstarted, RemoteStore.onWatchStreamChange, herror]
  · refine follows_of_agree h.toMatches hopen hnetwork hstream
      (processTargetError_agrees ids (h.agree hopen) hx) ?_ ?_ w.asked
    · intro id
      rw [hfind id, Finset.mem_filter, h.listening_find id]
      by_cases hid : id ∈ ids <;> simp [hid]
    · intro hnone
      rw [hnone, Finset.filter_empty]
  · intro hasked id
    rw [RemoteStore.requestsFor, hrequests]
    exact hasked id

theorem step_keeps (s : RemoteStore K D) (w v : WatchProtocol K) (event : WatchEvent K D)
    (h : Follows s w ∧ Asked s w) (hv : w.step event = some v) :
    ∃ t, s.step event = some t ∧ Follows t v ∧ Asked t v := by
  obtain ⟨hfollows, hasked⟩ := h
  cases event with
  | client event =>
      have hrel := act_keeps hfollows event
      rw [show w.act event = some v from hv] at hrel
      obtain ⟨t, ht, hnext, hkeeps⟩ := exists_left_of_rel hrel
      exact ⟨t, ht, hnext, hkeeps hasked⟩
  | streamRead change isSnapshot =>
      rw [WatchProtocol.step] at hv
      split_ifs at hv with hopen
      cases herror : change.targetError with
      | some ids =>
          rw [herror] at hv
          obtain ⟨x, hx, rfl⟩ := Option.map_eq_some_iff.mp hv
          obtain ⟨t, ht, hnext, hkeeps⟩ := error_keeps hfollows hopen herror hx isSnapshot
          exact ⟨t, ht, hnext, hkeeps hasked⟩
      | none =>
          rw [herror] at hv
          obtain ⟨x, hx, rfl⟩ := Option.map_eq_some_iff.mp hv
          obtain ⟨t, ht, hnext, hkeeps⟩ := change_keeps hfollows hopen herror hx isSnapshot
          exact ⟨t, ht, hnext, hkeeps hasked⟩

end Messages

end YouRoute.WatchStreams
