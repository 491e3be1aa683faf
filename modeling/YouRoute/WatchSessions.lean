import YouRoute.WatchStreams

/-!
# The client and the server of a watch stream

The client and the server do not wait for one another: the user listens to
targets and leaves them while the server still answers earlier requests. The
server takes the requests in their order, opens a new session of a target with
each listen and ends it with each removal, and its answers and messages reach the
client in their order. The client cannot see the sessions. It counts answers, and
whenever it takes a message for an active target, the message comes from the
session that its last request has opened.
-/

namespace YouRoute

open WatchChanges

/-- What the server has for a target: how often it was asked for it, and what for last. -/
structure Session (K : Type*) where
  number : ℕ
  data : Option (TargetData K)

/-- What the server puts on the stream. -/
inductive ServerMessage (K D : Type*) where
  | acknowledged (id : TargetId) (added : Bool) (resumeToken : ByteString)
  | said (change : WatchChange K D) (isSnapshot : Bool)

/-- A message under way, with the sessions of the server when it was sent. -/
structure Sent (K D : Type*) where
  message : ServerMessage K D
  sessions : TargetId → Session K

structure WatchNetwork (K D : Type*) [LinearOrder K] where
  client : RemoteStore K D
  sessions : TargetId → Session K
  sent : List (Sent K D)

inductive NetworkEvent (K D : Type*) [LinearOrder K] where
  | client (event : ClientEvent K)
  | serve (resumeToken : ByteString)
  | send (change : WatchChange K D) (isSnapshot : Bool)
  | receive

namespace ServerMessage

variable {K D : Type*}

def watchChange : ServerMessage K D → WatchChange K D
  | .acknowledged id true token => .target ⟨.added, [id], token, true⟩
  | .acknowledged id false token => .target ⟨.removed, [id], token, true⟩
  | .said change _ => change

def isSnapshot : ServerMessage K D → Bool
  | .acknowledged _ _ _ => false
  | .said _ isSnapshot => isSnapshot

def acknowledges (id : TargetId) : ServerMessage K D → Bool
  | .acknowledged j _ _ => j == id
  | .said _ _ => false

end ServerMessage

namespace WatchNetwork

variable {K D : Type*} [LinearOrder K]

def start : WatchNetwork K D := ⟨RemoteStore.start, fun _ => ⟨0, none⟩, []⟩

/-- What the server may say unasked. A query for one document has at most that one. -/
def allowed (sessions : TargetId → Session K) : WatchChange K D → Bool
  | .target change =>
      match change.state with
      | .added => false
      | .removed => false
      | _ => true
  | .document _ => true
  | .existenceFilter change =>
      match (sessions change.targetId).data.bind TargetData.documentKey with
      | some _ => change.count == 0 || change.count == 1
      | none => true

/-- The server takes up a request and answers it. -/
def serve (n : WatchNetwork K D) (resumeToken : ByteString) : Option (WatchNetwork K D) :=
  match n.client.requests with
  | [] => none
  | request :: requests =>
      let session := n.sessions request.target
      let sessions := Function.update n.sessions request.target
        ⟨session.number + if request.data.isSome then 1 else 0, request.data⟩
      some
        { client := { n.client with requests := requests }
          sessions := sessions
          sent := n.sent ++
            [⟨.acknowledged request.target request.data.isSome resumeToken, sessions⟩] }

/-- With each stream the server begins anew, and nothing is under way. -/
def moved (n : WatchNetwork K D) (client : RemoteStore K D) : WatchNetwork K D :=
  if n.client.isOpen && client.isOpen then { n with client := client }
  else ⟨client, fun _ => ⟨0, none⟩, []⟩

def step (n : WatchNetwork K D) : NetworkEvent K D → Option (WatchNetwork K D)
  | .client event => (n.client.act event).map n.moved
  | .serve resumeToken => n.serve resumeToken
  | .send change isSnapshot =>
      if n.client.isOpen && allowed n.sessions change then
        some { n with sent := n.sent ++ [⟨.said change isSnapshot, n.sessions⟩] }
      else none
  | .receive =>
      match n.sent with
      | [] => none
      | m :: sent =>
          (n.client.onStreamRead m.message.watchChange m.message.isSnapshot).map
            fun client => { n with client := client, sent := sent }

end WatchNetwork

namespace WatchSessions
open StepSystem RemoteStores WatchProtocols WatchStreams

section Queues

variable {K D : Type*}

/-- What the last request for a target asks for, or what it had before. -/
def wanted (id : TargetId) (data : Option (TargetData K)) (requests : List (WatchRequest K)) :
    Option (TargetData K) :=
  requests.foldl (fun data request => if request.target = id then request.data else data) data

/-- The same query, or none. -/
def SameQuery (d e : Option (TargetData K)) : Prop :=
  d.map TargetData.target = e.map TargetData.target

/-- With no answer for a target behind it, a message is from its present session. -/
def Fresh (sessions : TargetId → Session K) (id : TargetId) : List (Sent K D) → Prop
  | [] => True
  | m :: sent =>
      ((∀ l ∈ sent, l.message.acknowledges id = false) → m.sessions id = sessions id) ∧
        Fresh sessions id sent

/-- A message as the server may send it. -/
def Proper (m : Sent K D) : Prop :=
  match m.message with
  | .acknowledged id added _ => added = (m.sessions id).data.isSome
  | .said change _ => WatchNetwork.allowed m.sessions change = true

variable {sessions next : TargetId → Session K} {id : TargetId} {sent : List (Sent K D)}

theorem wanted_append (data : Option (TargetData K)) (requests more : List (WatchRequest K)) :
    wanted id data (requests ++ more) = wanted id (wanted id data requests) more :=
  List.foldl_append

theorem SameQuery.isSome {d e : Option (TargetData K)} (h : SameQuery d e) :
    d.isSome = e.isSome := by
  have hmap := congrArg Option.isSome h
  rw [Option.isSome_map, Option.isSome_map] at hmap
  exact hmap

theorem SameQuery.documentKey {d e : Option (TargetData K)} (h : SameQuery d e) :
    d.bind TargetData.documentKey = e.bind TargetData.documentKey := by
  cases d with
  | none =>
      cases e with
      | none => rfl
      | some e => cases h
  | some d =>
      cases e with
      | none => cases h
      | some e => exact congrArg Target.documentKey (Option.some.inj h)

theorem fresh_append (h : Fresh sessions id sent) {m : Sent K D} (hm : m.sessions id = next id)
    (hkept : m.message.acknowledges id = false → next id = sessions id) :
    Fresh next id (sent ++ [m]) := by
  induction sent with
  | nil => exact ⟨fun _ => hm, trivial⟩
  | cons l sent ih =>
      refine ⟨?_, ih h.2⟩
      intro hnone
      rw [hkept (hnone m (List.mem_append_right sent List.mem_cons_self))]
      exact h.1 fun k hk => hnone k (List.mem_append_left [m] hk)

/-- While no answer is awaited, everything under way is from the present session. -/
theorem fresh_of_no_answer (h : Fresh sessions id sent)
    (hnone : ∀ m ∈ sent, m.message.acknowledges id = false) :
    ∀ m ∈ sent, m.sessions id = sessions id := by
  induction sent with
  | nil => simp
  | cons l sent ih =>
      have htail : ∀ m ∈ sent, m.message.acknowledges id = false :=
        fun m hm => hnone m (List.mem_cons_of_mem l hm)
      intro m hm
      cases List.mem_cons.mp hm with
      | inl heq => exact heq ▸ h.1 htail
      | inr hin => exact ih h.2 htail m hin

theorem wanted_filter (data : Option (TargetData K)) (requests : List (WatchRequest K)) :
    wanted id data requests =
      wanted id data (requests.filter fun request => request.target == id) := by
  induction requests generalizing data with
  | nil => rfl
  | cons request requests ih =>
      by_cases htarget : request.target = id
      · rw [List.filter_cons_of_pos (by simpa using htarget), wanted, List.foldl_cons,
          if_pos htarget, wanted, List.foldl_cons, if_pos htarget]
        exact ih request.data
      · rw [List.filter_cons_of_neg (by simpa using htarget), wanted, List.foldl_cons,
          if_neg htarget]
        exact ih data

theorem wanted_of_no_request (data : Option (TargetData K)) {requests : List (WatchRequest K)}
    (h : ∀ request ∈ requests, request.target ≠ id) : wanted id data requests = data := by
  have hnone : requests.filter (fun request => request.target == id) = [] :=
    List.filter_eq_nil_iff.mpr fun request hrequest => by simpa using h request hrequest
  rw [wanted_filter, hnone]
  rfl

end Queues

variable {K D : Type*} [LinearOrder K]

/-- The client counts for a target the requests and the answers that are under way. -/
structure InStep (requests : List (WatchRequest K)) (sessions : TargetId → Session K)
    (sent : List (Sent K D)) (id : TargetId) (x : Watched K) : Prop where
  counted : x.awaited = requests.countP (fun request => request.target == id) +
    sent.countP fun m => m.message.acknowledges id
  asked : SameQuery (wanted id (sessions id).data requests) x.data
  fresh : Fresh sessions id sent

/-- The client is where the protocol is, and in step with the server. -/
structure Sound (n : WatchNetwork K D) (w : WatchProtocol K) : Prop where
  follows : Follows n.client w
  proper : ∀ m ∈ n.sent, Proper m
  closed : n.client.isOpen = false → n.sent = []
  inStep : n.client.isOpen = true → ∀ id,
    InStep n.client.requests n.sessions n.sent id (w.targets id)

section Requests

variable {requests : List (WatchRequest K)} {sessions : TargetId → Session K} {id : TargetId}
  {sent : List (Sent K D)} {x y : Watched K}

theorem inStep_requests (h : InStep requests sessions sent id x) {more : List (WatchRequest K)}
    (hawaited : y.awaited = x.awaited + more.countP fun request => request.target == id)
    (hdata : ∀ data, SameQuery data x.data → SameQuery (wanted id data more) y.data) :
    InStep (requests ++ more) sessions sent id y := by
  refine ⟨?_, ?_, h.fresh⟩
  · rw [hawaited, h.counted, List.countP_append]
    omega
  · rw [wanted_append]
    exact hdata _ h.asked

theorem inStep_request (h : InStep requests sessions sent id x) (request : WatchRequest K)
    (hsame : request.target = id → y.awaited = x.awaited + 1 ∧ SameQuery request.data y.data)
    (hother : request.target ≠ id → y = x) :
    InStep (requests ++ [request]) sessions sent id y := by
  by_cases htarget : request.target = id
  · obtain ⟨hawaited, hdata⟩ := hsame htarget
    refine ⟨?_, ?_, h.fresh⟩
    · rw [hawaited, h.counted, List.countP_append, List.countP_singleton,
        if_pos (by simp [htarget])]
      omega
    · rw [wanted_append]
      simpa [wanted, htarget] using hdata
  · rw [hother htarget]
    refine ⟨?_, ?_, h.fresh⟩
    · rw [h.counted, List.countP_append, List.countP_singleton, if_neg (by simp [htarget])]
      rfl
    · rw [wanted_append]
      simpa [wanted, htarget] using h.asked

/-- The server takes up a request and answers it. -/
theorem inStep_serve {request : WatchRequest K} {next : TargetId → Session K} {m : Sent K D}
    (h : InStep (request :: requests) sessions sent id x)
    (hdata : request.target = id → (next id).data = request.data)
    (hother : request.target ≠ id → next id = sessions id) (hm : m.sessions id = next id)
    (hacknowledges : m.message.acknowledges id = (request.target == id)) :
    InStep requests next (sent ++ [m]) id x := by
  have hcounted := h.counted
  rw [List.countP_cons] at hcounted
  refine ⟨?_, ?_, fresh_append h.fresh hm ?_⟩
  · rw [hcounted, List.countP_append, List.countP_singleton, hacknowledges]
    omega
  · have hasked := h.asked
    rw [wanted, List.foldl_cons] at hasked
    by_cases htarget : request.target = id
    · rw [hdata htarget]
      rw [if_pos htarget] at hasked
      exact hasked
    · rw [hother htarget]
      rw [if_neg htarget] at hasked
      exact hasked
  · intro hfalse
    rw [hacknowledges, beq_eq_false_iff_ne] at hfalse
    exact hother hfalse

theorem inStep_send (h : InStep requests sessions sent id x) {m : Sent K D}
    (hm : m.sessions = sessions) (hsaid : m.message.acknowledges id = false) :
    InStep requests sessions (sent ++ [m]) id x := by
  refine ⟨?_, h.asked, fresh_append h.fresh (congrFun hm id) fun _ => rfl⟩
  rw [h.counted, List.countP_append, List.countP_singleton, hsaid]
  rfl

/-- Nothing is awaited for a target, so what it has is what its session is for. -/
theorem inStep_of_awaited (h : InStep requests sessions sent id x) (hawaited : x.awaited = 0) :
    SameQuery (sessions id).data x.data ∧ ∀ m ∈ sent, m.sessions id = sessions id := by
  have hcounted := h.counted
  rw [hawaited] at hcounted
  have hrequests : requests.countP (fun request => request.target == id) = 0 := by omega
  have hsent : (sent.countP fun m => m.message.acknowledges id) = 0 := by omega
  rw [List.countP_eq_zero] at hrequests hsent
  refine ⟨?_, fresh_of_no_answer h.fresh fun m hm => eq_false_of_ne_true (hsent m hm)⟩
  have hasked := h.asked
  rw [wanted_of_no_request _ fun request hin heq => hrequests request hin (by simp [heq])] at hasked
  exact hasked

theorem inStep_congr (h : InStep requests sessions sent id x) (hawaited : y.awaited = x.awaited)
    (hdata : y.data = x.data) : InStep requests sessions sent id y :=
  ⟨hawaited.trans h.counted, hdata ▸ h.asked, h.fresh⟩

theorem inStep_tail {m : Sent K D} (h : InStep requests sessions (m :: sent) id x)
    (hm : m.message.acknowledges id = false) : InStep requests sessions sent id x := by
  refine ⟨?_, h.asked, h.fresh.2⟩
  rw [h.counted, List.countP_cons, hm]
  rfl

/-- An answer for the target has arrived; the last one says what the client asked for last. -/
theorem inStep_answer {m : Sent K D} (h : InStep requests sessions (m :: sent) id x)
    {added : Bool} {token : ByteString} (hm : m.message = .acknowledged id added token)
    (hproper : Proper m) :
    ∃ y, x.answered added = some y ∧ InStep requests sessions sent id y := by
  have hcounted := h.counted
  have hacknowledges : m.message.acknowledges id = true := by
    rw [hm]
    exact beq_self_eq_true id
  rw [List.countP_cons, hacknowledges, if_pos rfl] at hcounted
  unfold Watched.answered
  obtain ⟨data, awaited, synced, members, mismatched⟩ := x
  dsimp only at hcounted ⊢
  rcases awaited with _ | _ | n
  · omega
  · have hrequests : requests.countP (fun request => request.target == id) = 0 := by omega
    have hsent : (sent.countP fun m => m.message.acknowledges id) = 0 := by omega
    have hasked := h.asked
    have hnone := List.countP_eq_zero.mp hrequests
    rw [wanted_of_no_request _ fun request hin heq => hnone request hin (by simp [heq])] at hasked
    have hpresent : m.sessions id = sessions id := by
      refine h.fresh.1 fun l hl => ?_
      exact eq_false_of_ne_true (List.countP_eq_zero.mp hsent l hl)
    have hadded : data.isSome = added := by
      rw [Proper, hm] at hproper
      rw [hproper, hpresent]
      exact hasked.isSome.symm
    rw [hadded, if_pos (beq_self_eq_true added)]
    refine ⟨_, rfl, ⟨?_, h.asked, h.fresh.2⟩⟩
    rw [hrequests, hsent]
  · refine ⟨_, rfl, ⟨?_, h.asked, h.fresh.2⟩⟩
    dsimp only
    omega

end Requests

section Messages

variable {t u : Targets K}

/-- The same targets, with as many answers awaited. -/
def Kept (t u : Targets K) : Prop :=
  ∀ id, (u id).awaited = (t id).awaited ∧ (u id).data = (t id).data

theorem Kept.refl (t : Targets K) : Kept t t := fun _ => ⟨rfl, rfl⟩

theorem Kept.trans {v : Targets K} (h : Kept t u) (h' : Kept u v) : Kept t v :=
  fun id => ⟨(h' id).1.trans (h id).1, (h' id).2.trans (h id).2⟩

theorem hear_kept (f : KeySet K → KeySet K) (x : Watched K) :
    (x.hear f).awaited = x.awaited ∧ (x.hear f).data = x.data := by
  unfold Watched.hear
  split_ifs <;> exact ⟨rfl, rfl⟩

theorem kept_update {id : TargetId} {x : Watched K} (hawaited : x.awaited = (t id).awaited)
    (hdata : x.data = (t id).data) : Kept t (Function.update t id x) := by
  intro j
  by_cases hj : j = id
  · rw [hj, Function.update_self]
    exact ⟨hawaited, hdata⟩
  · rw [Function.update_of_ne hj]
    exact ⟨rfl, rfl⟩

theorem kept_change (t : Targets K) (id : TargetId) (f : KeySet K → KeySet K) :
    Kept t (t.change id (Watched.hear f)) :=
  kept_update (hear_kept f (t id)).1 (hear_kept f (t id)).2

theorem kept_foldl {f : Targets K → TargetId → Targets K} (hf : ∀ t id, Kept t (f t id))
    (ids : List TargetId) (t : Targets K) : Kept t (ids.foldl f t) := by
  induction ids generalizing t with
  | nil => exact .refl t
  | cons id ids ih => exact (hf t id).trans (ih (f t id))

theorem kept_hearDocument (t : Targets K) (message : DocumentWatchChange K D) :
    Kept t (t.hearDocument message) := by
  refine (kept_foldl ?_ message.updatedTargetIds t).trans
    (kept_foldl (fun t id => kept_change t id _) message.removedTargetIds _)
  intro t id
  unfold Targets.hearUpdate
  cases message.newDocument with
  | none => exact .refl t
  | some doc =>
      cases doc with
      | document d => exact kept_change t id _
      | noDocument key => exact kept_change t id _
      | unknownDocument key => exact .refl t

/-- A count of documents that the server can give is no offence. -/
theorem counted_kept {count : ℤ} {x : Watched K}
    (h : x.active = true → (x.data.bind TargetData.documentKey).isSome = true →
      count = 0 ∨ count = 1) :
    ∃ y, x.counted count = some y ∧ y.awaited = x.awaited ∧ y.data = x.data := by
  unfold Watched.counted
  by_cases hactive : x.active = true
  · rw [if_pos hactive]
    cases hkey : x.data.bind TargetData.documentKey with
    | some key =>
        rcases h hactive (by rw [hkey]; rfl) with hzero | hone
        · exact ⟨_, if_pos hzero, rfl, rfl⟩
        · refine ⟨x, ?_, rfl, rfl⟩
          dsimp only
          rw [if_neg (by omega), if_pos hone]
    | none =>
        by_cases hcount : (x.members.size : ℤ) = count
        · exact ⟨x, if_pos hcount, rfl, rfl⟩
        · exact ⟨_, if_neg hcount, rfl, rfl⟩
  · exact ⟨x, if_neg hactive, rfl, rfl⟩

/-- What the server may say unasked changes nothing about the answers that are awaited. -/
theorem hear_of_allowed {sessions : TargetId → Session K} {change : WatchChange K D}
    (h : WatchNetwork.allowed sessions change = true)
    (hsessions : ∀ id, (t id).active = true → SameQuery (sessions id).data (t id).data) :
    change.targetError = none ∧ ∃ u, WatchProtocol.hear t change = some u ∧ Kept t u := by
  cases change with
  | target message =>
      obtain ⟨state, ids, token, ok⟩ := message
      cases state with
      | added => cases h
      | removed => cases h
      | noChange => exact ⟨rfl, t, rfl, .refl t⟩
      | current => exact ⟨rfl, t, rfl, .refl t⟩
      | reset =>
          refine ⟨rfl, _, rfl, ?_⟩
          split_ifs
          · exact fun id => hear_kept _ (t id)
          · exact kept_foldl (fun t id => kept_change t id _) ids t
  | document message => exact ⟨rfl, _, rfl, kept_hearDocument t message⟩
  | existenceFilter message =>
      have hcount : (t message.targetId).active = true →
          ((t message.targetId).data.bind TargetData.documentKey).isSome = true →
          message.count = 0 ∨ message.count = 1 := by
        intro hactive hkey
        rw [← (hsessions message.targetId hactive).documentKey] at hkey
        obtain ⟨key, hsome⟩ := Option.isSome_iff_exists.mp hkey
        simp only [WatchNetwork.allowed, hsome, Bool.or_eq_true, beq_iff_eq] at h
        exact h
      obtain ⟨y, hy, hawaited, hdata⟩ := counted_kept hcount
      exact ⟨rfl, _, by rw [WatchProtocol.hear, Targets.hearCount, hy]; rfl,
        kept_update hawaited hdata⟩

end Messages

section Steps

variable {n : WatchNetwork K D} {w v : WatchProtocol K} {client : RemoteStore K D}

/-- Before a stream is open there is nothing to be in step with. -/
theorem closed_sound (hfollows : Follows client v) (hclosed : client.isOpen = false) :
    Sound (⟨client, fun _ => ⟨0, none⟩, []⟩ : WatchNetwork K D) v := by
  refine ⟨hfollows, by simp, fun _ => rfl, ?_⟩
  intro hopen
  exact (Bool.false_ne_true (hclosed.symm.trans hopen)).elim

theorem same_sound (h : Sound n w) (hfollows : Follows client v) (hopen : n.client.isOpen = true)
    (hstill : client.isOpen = true) (hrequests : client.requests = n.client.requests)
    (htargets : v.targets = w.targets) : Sound { n with client := client } v := by
  refine ⟨hfollows, h.proper, ?_, ?_⟩
  · intro hclosed
    exact (Bool.false_ne_true (hclosed.symm.trans hstill)).elim
  · intro _ id
    dsimp only
    rw [hrequests, htargets]
    exact h.inStep hopen id

/-- The client asks for a target on an open stream, or to be spared it. -/
theorem request_sound (h : Sound n w) (hfollows : Follows client v)
    (hopen : n.client.isOpen = true) (hstill : client.isOpen = true) (request : WatchRequest K)
    (hrequests : client.requests = n.client.requests ++ [request]) (keys : KeySet K)
    (htargets : v.targets = (w.retarget request.target request.data keys).targets) :
    Sound { n with client := client } v := by
  refine ⟨hfollows, h.proper, ?_, ?_⟩
  · intro hclosed
    exact (Bool.false_ne_true (hclosed.symm.trans hstill)).elim
  · intro _ j
    have hw : w.isOpen = true := h.follows.isOpen.symm.trans hopen
    dsimp only
    rw [hrequests, htargets]
    refine inStep_request (h.inStep hopen j) request ?_ ?_
    · rintro rfl
      dsimp only [WatchProtocol.retarget, Targets.change]
      rw [Function.update_self, hw, if_pos rfl]
      exact ⟨rfl, rfl⟩
    · intro hj
      dsimp only [WatchProtocol.retarget, Targets.change]
      rw [Function.update_of_ne (Ne.symm hj)]

/-- A new stream asks for each target once, and its server has none of them yet. -/
theorem streamStart_sound (h : Sound n w) (hclosed : n.client.isOpen = false)
    (hact : n.client.act .streamStart = some client)
    (hv : w.act .streamStart = some v) (hfollows : Follows client v) :
    Sound (⟨client, fun _ => ⟨0, none⟩, []⟩ : WatchNetwork K D) v := by
  rw [WatchProtocol.act] at hv
  split_ifs at hv with hstate
  cases hv
  rw [act_streamStart h.follows.toMatches hstate] at hact
  cases hact
  refine ⟨hfollows, by simp, fun _ => rfl, fun _ id => ?_⟩
  have hidle := (h.follows.rest (h.follows.isOpen.symm.trans hclosed)).2.2 id
  have hlistens := filter_listens n.client.listenTargets id
  rw [hidle.data] at hlistens
  refine ⟨?_, ?_, trivial⟩
  · rw [List.countP_eq_length_filter, hlistens]
    dsimp only [WatchProtocol.opened]
    cases (w.targets id).data with
    | none => exact hidle.awaited
    | some data => exact congrArg (· + 1) hidle.awaited
  · rw [wanted_filter, hlistens, data_opened]
    cases (w.targets id).data with
    | none => rfl
    | some data =>
        have hlast : wanted id none [.watchQuery id data] = some data := if_pos rfl
        exact congrArg (Option.map TargetData.target) hlast

/-- While the stream is open, the client may ask for a target or to be spared it. -/
theorem open_sound (h : Sound n w) (hopen : n.client.isOpen = true)
    (hstill : client.isOpen = true) {event : ClientEvent K}
    (hact : n.client.act event = some client) (hv : w.act event = some v)
    (hfollows : Follows client v) : Sound { n with client := client } v := by
  have hw : w.isOpen = true := h.follows.isOpen.symm.trans hopen
  have hstate : w.stream.state = .open := beq_iff_eq.mp hw
  have hvopen : v.isOpen = true := hfollows.isOpen.symm.trans hstill
  have hended : ∀ ok, (w.disconnected ok).connected.isOpen = false := fun ok =>
    (isOpen_connected _).trans (Stream.isOpen_closed ok)
  cases event with
  | enableNetwork =>
      rw [RemoteStore.act, enableNetwork_of_isOpen hopen] at hact
      cases hact
      cases hv
      exact same_sound h hfollows hopen hstill rfl rfl
  | disableNetwork =>
      rw [WatchProtocol.act] at hv
      dsimp only at hv
      rw [if_pos (Stream.isStarted_of_isOpen hw)] at hv
      cases hv
      cases hvopen
  | credentialChange =>
      rw [WatchProtocol.act] at hv
      cases hnetwork : w.network with
      | true =>
          rw [hnetwork, if_pos rfl] at hv
          cases hv
          exact (Bool.false_ne_true ((hended true).symm.trans hvopen)).elim
      | false =>
          rw [hnetwork, if_neg Bool.false_ne_true] at hv
          rw [RemoteStore.act, RemoteStore.handleCredentialChange, h.follows.network, hnetwork,
            if_neg Bool.false_ne_true] at hact
          cases hv
          cases hact
          exact h
  | listen id data keys =>
      rw [WatchProtocol.act] at hv
      rw [RemoteStore.act] at hact
      by_cases hlistened : id ∈ w.listening
      · rw [if_pos hlistened] at hv
        rw [RemoteStore.listen, h.follows.contains id, if_pos (decide_eq_true hlistened)] at hact
        cases hv
        cases hact
        exact h
      · have hnew := (h.follows.contains id).trans (decide_eq_false hlistened)
        rw [if_neg hlistened] at hv
        rw [listen_of_isOpen hnew hopen] at hact
        cases hv
        cases hact
        exact request_sound h hfollows hopen hstill (.watchQuery id data) rfl keys rfl
  | stopListening id =>
      rw [WatchProtocol.act] at hv
      rw [RemoteStore.act] at hact
      by_cases hlistened : id ∈ w.listening
      case neg =>
        rw [if_neg hlistened] at hv
        cases hv
      rw [if_pos hlistened] at hv
      have hcontains := (h.follows.contains id).trans (decide_eq_true hlistened)
      have hidle : n.client.watchStream.idle = false := by
        rw [h.follows.stream]
        exact h.follows.idle_of_mem hlistened
      rw [stopListening_of_isOpen hcontains hopen hidle] at hact
      cases hv
      cases hact
      exact request_sound h hfollows hopen hstill (.unwatchTarget id) rfl SortedMap.empty rfl
  | streamStart =>
      rw [WatchProtocol.act, hstate, if_neg (by simp)] at hv
      cases hv
  | streamFinish ok =>
      rw [WatchProtocol.act] at hv
      split_ifs at hv
      cases hv
      exact (Bool.false_ne_true ((hended ok).symm.trans hvopen)).elim
  | backoffElapsed =>
      rw [WatchProtocol.act, Stream.backoffElapsed, hstate, if_neg (by simp)] at hv
      cases hv
  | idleTimeout =>
      rw [WatchProtocol.act] at hv
      split_ifs at hv
      cases hv
      cases hvopen

/-- Only its start opens a stream. -/
theorem eq_streamStart {event : ClientEvent K} (hclosed : w.isOpen = false)
    (hv : w.act event = some v) (hopen : v.isOpen = true) : event = .streamStart := by
  have hended : ∀ ok, (w.disconnected ok).connected.isOpen = false := fun ok =>
    (isOpen_connected _).trans (Stream.isOpen_closed ok)
  have hstill : w.isOpen ≠ true := ne_true_of_eq_false hclosed
  cases event with
  | streamStart => rfl
  | enableNetwork =>
      cases hv
      rw [isOpen_connected] at hopen
      exact (hstill hopen).elim
  | disableNetwork =>
      rw [WatchProtocol.act] at hv
      dsimp only at hv
      split_ifs at hv
      · cases hv
        cases hopen
      · cases hv
        exact (hstill hopen).elim
  | credentialChange =>
      rw [WatchProtocol.act] at hv
      split_ifs at hv
      · cases hv
        exact (Bool.false_ne_true ((hended true).symm.trans hopen)).elim
      · cases hv
        exact (hstill hopen).elim
  | listen id data keys =>
      rw [WatchProtocol.act] at hv
      split_ifs at hv
      · cases hv
        exact (hstill hopen).elim
      · cases hv
        rw [isOpen_connected] at hopen
        exact (hstill hopen).elim
  | stopListening id =>
      rw [WatchProtocol.act, Stream.markIdle_of_not_isOpen hclosed, ite_self] at hv
      split_ifs at hv
      cases hv
      exact (hstill hopen).elim
  | streamFinish ok =>
      rw [WatchProtocol.act] at hv
      split_ifs at hv
      cases hv
      exact (Bool.false_ne_true ((hended ok).symm.trans hopen)).elim
  | backoffElapsed =>
      obtain ⟨stream, hstream, rfl⟩ := Option.map_eq_some_iff.mp hv
      rw [Stream.backoffElapsed] at hstream
      split_ifs at hstream
      cases hstream
      cases hopen
  | idleTimeout =>
      rw [WatchProtocol.act] at hv
      split_ifs at hv
      cases hv
      cases hopen

theorem client_sound (h : Sound n w) {event : ClientEvent K}
    (hact : n.client.act event = some client) : ∃ v, Sound (n.moved client) v := by
  have hrel := act_keeps h.follows event
  rw [hact] at hrel
  obtain ⟨v, hv, hfollows, -⟩ := exists_right_of_rel hrel
  refine ⟨v, ?_⟩
  rw [WatchNetwork.moved]
  cases hstill : client.isOpen with
  | false =>
      rw [Bool.and_false, if_neg Bool.false_ne_true]
      exact closed_sound hfollows hstill
  | true =>
      rw [Bool.and_true]
      split_ifs with hopen
      · exact open_sound h hopen hstill hact hv hfollows
      · have hclosed : n.client.isOpen = false := eq_false_of_ne_true hopen
        obtain rfl := eq_streamStart (h.follows.isOpen.symm.trans hclosed) hv
          (hfollows.isOpen.symm.trans hstill)
        exact streamStart_sound h hclosed hact hv hfollows

/-- What was asked is for the server alone. -/
theorem follows_requests (h : Follows client w) (hopen : client.isOpen = true)
    (requests : List (WatchRequest K)) : Follows { client with requests := requests } w where
  network := h.network
  stream := h.stream
  listening := h.listening
  idle := h.idle
  targets := .inl ⟨h.isOpen.symm.trans hopen, h.agree (h.isOpen.symm.trans hopen)⟩
  started := h.started

theorem serve_sound (h : Sound n w) {token : ByteString} {m : WatchNetwork K D}
    (hm : n.serve token = some m) : Sound m w := by
  unfold WatchNetwork.serve at hm
  cases hrequests : n.client.requests with
  | nil =>
      rw [hrequests] at hm
      cases hm
  | cons request requests =>
      rw [hrequests] at hm
      cases hm
      have hopen : n.client.isOpen = true := by
        by_contra hclosed
        have hw := h.follows.isOpen.symm.trans (eq_false_of_ne_true hclosed)
        have hnone := (h.follows.rest hw).2.1
        rw [hrequests] at hnone
        cases hnone
      refine ⟨follows_requests h.follows hopen requests, ?_, ?_, ?_⟩
      · intro l hl
        rcases List.mem_append.mp hl with hl | hl
        · exact h.proper l hl
        · rw [List.mem_singleton.mp hl]
          change request.data.isSome =
            (Function.update n.sessions request.target _ request.target).data.isSome
          rw [Function.update_self]
      · intro hclosed
        exact (Bool.false_ne_true (hclosed.symm.trans hopen)).elim
      · intro _ id
        have hid := h.inStep hopen id
        rw [hrequests] at hid
        refine inStep_serve hid ?_ ?_ rfl rfl
        · rintro rfl
          exact congrArg Session.data (Function.update_self request.target _ n.sessions)
        · intro hne
          exact Function.update_of_ne (Ne.symm hne) _ _

theorem send_sound (h : Sound n w) {change : WatchChange K D} {isSnapshot : Bool}
    (hopen : n.client.isOpen = true)
    (hallowed : WatchNetwork.allowed n.sessions change = true) :
    Sound { n with sent := n.sent ++ [⟨.said change isSnapshot, n.sessions⟩] } w := by
  refine ⟨h.follows, ?_, ?_, fun _ id => inStep_send (h.inStep hopen id) rfl rfl⟩
  · intro l hl
    rcases List.mem_append.mp hl with hl | hl
    · exact h.proper l hl
    · rw [List.mem_singleton.mp hl]
      exact hallowed
  · intro hclosed
    exact (Bool.false_ne_true (hclosed.symm.trans hopen)).elim

/-- A target that the client asks for once more after a snapshot. -/
theorem inStep_settled {p : TargetMetadataProvider K} {requests more : List (WatchRequest K)}
    {sessions : TargetId → Session K} {sent : List (Sent K D)} {id : TargetId} {x : Watched K}
    (h : InStep requests sessions sent id x) (hdata : p.targetData id = x.data)
    (hmore : more.filter (fun request => request.target == id) =
      if x.mismatched then resendRequests p id else []) :
    InStep (requests ++ more) sessions sent id x.settled := by
  rw [resendRequests, hdata] at hmore
  rw [Watched.settled]
  have hquiet : more.filter (fun request => request.target == id) = [] →
      InStep (requests ++ more) sessions sent id x.delivered := by
    intro hnone
    refine inStep_requests h ?_ fun data hsame => ?_
    · rw [List.countP_eq_length_filter, hnone]
      rfl
    · rw [wanted_filter, hnone]
      exact hsame
  cases hmismatched : x.mismatched with
  | false =>
      rw [hmismatched, if_neg Bool.false_ne_true] at hmore
      exact hquiet hmore
  | true =>
      rw [hmismatched, if_pos rfl] at hmore
      cases hfind : x.data with
      | none =>
          rw [hfind] at hmore
          exact hquiet hmore
      | some data =>
          rw [hfind] at hmore
          refine inStep_requests h ?_ fun before hsame => ?_
          · rw [List.countP_eq_length_filter, hmore]
            rfl
          · have hlast : wanted id before [.unwatchTarget id,
                .watchQuery id { data with purpose := .existenceFilterMismatch }] =
                some { data with purpose := .existenceFilterMismatch } := by
              simp [wanted, WatchRequest.target, WatchRequest.data]
            rw [wanted_filter, hmore, hlast]
            change SameQuery _ x.data
            rw [hfind]
            rfl

/-- A message that is no error has arrived; its targets are still in step with the server. -/
theorem change_sound (h : Sound n w) (hopen : n.client.isOpen = true) {m : Sent K D}
    {sent : List (Sent K D)} (hsent : n.sent = m :: sent) {change : WatchChange K D}
    (herror : change.targetError = none) {t : Targets K}
    (ht : WatchProtocol.hear w.targets change = some t)
    (hstep : ∀ id, InStep n.client.requests n.sessions sent id (t id)) (isSnapshot : Bool) :
    ∃ client v, n.client.onStreamRead change isSnapshot = some client ∧
      Sound { n with client := client, sent := sent } v := by
  have hw : w.isOpen = true := h.follows.isOpen.symm.trans hopen
  obtain ⟨a, -, hagree⟩ := handle_agrees (h.follows.agree hw) ht
  obtain ⟨client, more, hclient, hfollows, hrequests, hmore⟩ :=
    change_follows h.follows hw herror ht isSnapshot
  have htold : (w.told t isSnapshot).isOpen = w.isOpen := by cases isSnapshot <;> rfl
  refine ⟨client, w.told t isSnapshot, hclient, ⟨hfollows, ?_, ?_, ?_⟩⟩
  · intro l hl
    exact h.proper l (hsent ▸ List.mem_cons_of_mem m hl)
  · intro hclosed
    have hstill := hfollows.isOpen.trans (htold.trans hw)
    exact (Bool.false_ne_true (hclosed.symm.trans hstill)).elim
  · intro _ id
    dsimp only
    rw [hrequests]
    cases isSnapshot with
    | false =>
        refine inStep_requests (hstep id) ?_ fun data hsame => ?_
        · rw [List.countP_eq_length_filter, hmore id]
          rfl
        · rw [wanted_filter, hmore id]
          exact hsame
    | true => exact inStep_settled (hstep id) (hagree id).data (hmore id)

/-- Whatever comes next from the server, the client can take it. -/
theorem receive_sound (h : Sound n w) {m : Sent K D} {sent : List (Sent K D)}
    (hsent : n.sent = m :: sent) :
    ∃ client v, n.client.onStreamRead m.message.watchChange m.message.isSnapshot =
      some client ∧ Sound { n with client := client, sent := sent } v := by
  have hopen : n.client.isOpen = true := by
    by_contra hclosed
    have hnone := h.closed (eq_false_of_ne_true hclosed)
    rw [hsent] at hnone
    cases hnone
  have hstep := h.inStep hopen
  rw [hsent] at hstep
  have hproper : Proper m := h.proper m (hsent ▸ List.mem_cons_self)
  cases hmessage : m.message with
  | acknowledged id added token =>
      obtain ⟨y, hy, hanswered⟩ := inStep_answer (hstep id) hmessage hproper
      have hhear : w.targets.hearAnswers added [id] = some (Function.update w.targets id y) := by
        simp [Targets.hearAnswers, hy]
      have herror : (ServerMessage.acknowledged id added token :
          ServerMessage K D).watchChange.targetError = none := by
        cases added <;> rfl
      have ht : WatchProtocol.hear w.targets (ServerMessage.acknowledged id added token :
          ServerMessage K D).watchChange = some (Function.update w.targets id y) := by
        cases added with
        | false => exact hhear
        | true => exact hhear
      refine change_sound h hopen hsent herror ht (fun j => ?_) false
      by_cases hj : j = id
      · rw [hj, Function.update_self]
        exact hanswered
      · rw [Function.update_of_ne hj]
        refine inStep_tail (hstep j) ?_
        rw [hmessage]
        exact beq_eq_false_iff_ne.mpr (Ne.symm hj)
  | said change isSnapshot =>
      rw [Proper, hmessage] at hproper
      have hsaid : ∀ id, m.message.acknowledges id = false := by
        intro id
        rw [hmessage]
        rfl
      have htail : ∀ id, InStep n.client.requests n.sessions sent id (w.targets id) :=
        fun id => inStep_tail (hstep id) (hsaid id)
      have hsessions : ∀ id, (w.targets id).active = true →
          SameQuery (m.sessions id).data (w.targets id).data := by
        intro id hactive
        obtain ⟨hsame, hfresh⟩ := inStep_of_awaited (hstep id) (awaited_of_active hactive)
        rw [hfresh m List.mem_cons_self]
        exact hsame
      obtain ⟨herror, t, ht, hkept⟩ := hear_of_allowed hproper hsessions
      exact change_sound h hopen hsent herror ht
        (fun id => inStep_congr (htail id) (hkept id).1 (hkept id).2) isSnapshot

theorem step_sound (n : WatchNetwork K D) (event : NetworkEvent K D) (next : WatchNetwork K D)
    (h : ∃ w, Sound n w) (hnext : n.step event = some next) : ∃ v, Sound next v := by
  obtain ⟨w, h⟩ := h
  cases event with
  | client event =>
      obtain ⟨client, hclient, rfl⟩ := Option.map_eq_some_iff.mp hnext
      exact client_sound h hclient
  | serve token => exact ⟨w, serve_sound h hnext⟩
  | send change isSnapshot =>
      rw [WatchNetwork.step] at hnext
      split_ifs at hnext with hsend
      cases hnext
      obtain ⟨hopen, hallowed⟩ := Bool.and_eq_true_iff.mp hsend
      exact ⟨w, send_sound h hopen hallowed⟩
  | receive =>
      rw [WatchNetwork.step] at hnext
      cases hsent : n.sent with
      | nil =>
          rw [hsent] at hnext
          cases hnext
      | cons m sent =>
          rw [hsent] at hnext
          obtain ⟨client, hclient, rfl⟩ := Option.map_eq_some_iff.mp hnext
          obtain ⟨other, v, hother, hsound⟩ := receive_sound h hsent
          cases hclient.symm.trans hother
          exact ⟨v, hsound⟩

theorem start_sound : Sound (WatchNetwork.start : WatchNetwork K D) WatchProtocol.start := by
  refine ⟨follows_start, by simp [WatchNetwork.start], fun _ => rfl, ?_⟩
  intro hopen
  cases hopen

end Steps

/-- In every run, the client can take the message that comes next, and whatever is under way to an
active target comes from the session which the client asked for last. -/
theorem messages_of_present_session (events : List (NetworkEvent K D)) (n : WatchNetwork K D)
    (h : run WatchNetwork.step WatchNetwork.start events = some n) :
    (n.sent ≠ [] → (n.step .receive).isSome = true) ∧
      ∀ id, n.client.isOpen = true → n.client.aggregator.isActiveTarget n.client.metadata id = true →
        SameQuery (n.sessions id).data (n.client.listenTargets.find id) ∧
        (∀ m ∈ n.sent, m.sessions id = n.sessions id) ∧
        ∀ request ∈ n.client.requests, request.target ≠ id := by
  obtain ⟨w, hsound⟩ := (throughout_of_step step_sound ⟨_, start_sound⟩).last h
  constructor
  · intro hsent
    rw [WatchNetwork.step]
    cases hlist : n.sent with
    | nil => exact (hsent hlist).elim
    | cons m sent =>
        obtain ⟨client, v, hclient, -⟩ := receive_sound hsound hlist
        dsimp only
        rw [hclient]
        rfl
  · intro id hopen hactive
    have hid := hsound.inStep hopen id
    have hagree := hsound.follows.agree (hsound.follows.isOpen.symm.trans hopen)
    rw [(hagree id).isActive] at hactive
    have hawaited := awaited_of_active hactive
    obtain ⟨hsame, hfresh⟩ := inStep_of_awaited hid hawaited
    rw [hsound.follows.data id]
    refine ⟨hsame, hfresh, ?_⟩
    intro request hrequest heq
    have hcounted := hid.counted
    have hpos : 0 < n.client.requests.countP fun request => request.target == id :=
      List.countP_pos_iff.mpr ⟨request, hrequest, beq_iff_eq.mpr heq⟩
    omega

/-- A target that is left and listened to again while the server still answers. -/
theorem messages_of_present_session_again :
    ∃ n : WatchNetwork ℕ ℕ,
      run WatchNetwork.step WatchNetwork.start
        [.client .enableNetwork, .client (.listen 2 ⟨⟨"rooms", none⟩, .listen⟩ SortedMap.empty),
          .client .streamStart, .serve [],
          .send (.document ⟨[2], [], 5, some (.document ⟨5, 0, .synced⟩)⟩) false,
          .client (.stopListening 2),
          .client (.listen 2 ⟨⟨"rooms", none⟩, .listen⟩ SortedMap.empty), .receive, .receive,
          .serve [], .serve [], .receive, .receive,
          .send (.document ⟨[2], [], 7, some (.document ⟨7, 0, .synced⟩)⟩) false] = some n ∧
      n.sent.length = 1 ∧ (∀ m ∈ n.sent, m.sessions 2 = n.sessions 2) := by
  have h := messages_of_present_session (K := ℕ) (D := ℕ)
    [.client .enableNetwork, .client (.listen 2 ⟨⟨"rooms", none⟩, .listen⟩ SortedMap.empty),
      .client .streamStart, .serve [],
      .send (.document ⟨[2], [], 5, some (.document ⟨5, 0, .synced⟩)⟩) false,
      .client (.stopListening 2),
      .client (.listen 2 ⟨⟨"rooms", none⟩, .listen⟩ SortedMap.empty), .receive, .receive,
      .serve [], .serve [], .receive, .receive,
      .send (.document ⟨[2], [], 7, some (.document ⟨7, 0, .synced⟩)⟩) false] _ rfl
  exact ⟨_, rfl, rfl, (h.2 2 rfl (by decide)).2.1⟩

end WatchSessions

end YouRoute
