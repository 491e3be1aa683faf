import Mathlib.Data.Finset.Card
import YouRoute.StepSystem
import YouRoute.ViewRuns
import YouRoute.WatchChanges

/-!
# What the collected changes say

The changes that are collected for a target always fit between the documents of
its views and those that the messages name, as long as no answer is awaited. Each
operation on the changes is compared here with what its message tells, so that
the numbers of the server can be checked against the changes, and the changes can
be handed on, without going through the messages again.
-/

namespace YouRoute.WatchChanges
open ViewRuns (keySet_ext contains_foldl_insert contains_foldl_erase)

variable {K D : Type*} [LinearOrder K]

section States

variable {a : WatchChangeAggregator K D}

@[simp] theorem stateOf_setState (a : WatchChangeAggregator K D) (id j : TargetId)
    (s : TargetState K) : (a.setState id s).stateOf j = if j = id then s else a.stateOf j := by
  simp only [WatchChangeAggregator.stateOf, WatchChangeAggregator.setState, KeyMap.find_insert]
  split_ifs <;> rfl

@[simp] theorem contains_setState (a : WatchChangeAggregator K D) (id j : TargetId)
    (s : TargetState K) : (a.setState id s).targetStates.contains j =
      (decide (j = id) || a.targetStates.contains j) := by
  simp only [WatchChangeAggregator.setState, SortedMap.contains, KeyMap.find_insert]
  split_ifs with h <;> simp [h]

theorem stateOf_removeTarget (a : WatchChangeAggregator K D) (id j : TargetId) :
    (a.removeTarget id).stateOf j = if j = id then {} else a.stateOf j := by
  simp only [WatchChangeAggregator.stateOf, WatchChangeAggregator.removeTarget, KeyMap.find_erase]
  split_ifs <;> rfl

theorem contains_removeTarget {id j : TargetId} (h : j ≠ id) :
    (a.removeTarget id).targetStates.contains j = a.targetStates.contains j := by
  simp only [WatchChangeAggregator.removeTarget, SortedMap.contains, KeyMap.find_erase, if_neg h]

/-- A target is active if it is listened to and nothing is awaited. -/
theorem targetDataForActiveTarget_eq (p : TargetMetadataProvider K)
    (a : WatchChangeAggregator K D) (id : TargetId) :
    a.targetDataForActiveTarget p id =
      if (a.stateOf id).outstandingResponses = 0 then p.targetData id else none := by
  unfold WatchChangeAggregator.targetDataForActiveTarget WatchChangeAggregator.stateOf
  cases a.targetStates.find id with
  | none => rfl
  | some s =>
      simp only [TargetState.isPending, Option.getD_some]
      by_cases h : s.outstandingResponses = 0 <;> simp [h]

end States

section Agreement

variable {p : TargetMetadataProvider K} {a b : WatchChangeAggregator K D} {id : TargetId}
  {x : Watched K}

theorem Agrees.targetData (h : Agrees p a id x) :
    a.targetDataForActiveTarget p id = if x.awaited = 0 then x.data else none := by
  rw [targetDataForActiveTarget_eq, h.awaited, h.data]
  simp only [Int.natCast_eq_zero]

theorem Agrees.isActive (h : Agrees p a id x) : a.isActiveTarget p id = x.active := by
  rw [WatchChangeAggregator.isActiveTarget, h.targetData, Watched.active]
  by_cases hawaited : x.awaited = 0 <;> simp [hawaited]

/-- A target that nothing has happened to stays as it is. -/
theorem Agrees.frame (h : Agrees p a id x) (hsame : Untouched a b id) : Agrees p b id x := by
  refine ⟨h.data, h.synced, fun hx => hsame.known (h.known hx), ?_, ?_, ?_, ?_, ?_⟩
  · rw [hsame.state]
    exact h.awaited
  · rw [hsame.resets]
    exact h.mismatched
  · rw [hsame.state]
    exact h.fits
  · intro hawaited key hadded
    rw [hsame.state] at hadded
    exact hsame.updates key (h.noted hawaited key hadded)
  · rw [hsame.state]
    exact h.quiet

theorem Untouched.refl (a : WatchChangeAggregator K D) (id : TargetId) : Untouched a a id :=
  ⟨rfl, fun h => h, rfl, fun _ h => h⟩

theorem Untouched.trans {c : WatchChangeAggregator K D} (h : Untouched a b id)
    (h' : Untouched b c id) : Untouched a c id :=
  ⟨h'.state.trans h.state, fun hk => h'.known (h.known hk), h'.resets.trans h.resets,
    fun key hk => h'.updates key (h.updates key hk)⟩

/-- A target whose documents change while it is active. -/
theorem Agrees.record (h : Agrees p a id x) (hactive : x.active = true)
    (changes : KeyMap K ChangeType) {members : KeySet K}
    (hstate : b.stateOf id =
      { a.stateOf id with hasPendingChanges := true, documentChanges := changes })
    (hknown : b.targetStates.contains id = true)
    (hresets : b.pendingTargetResets.contains id = a.pendingTargetResets.contains id)
    (hnoted : ∀ key, changes.find key = some .added →
      b.pendingDocumentUpdates.contains key = true)
    (hfits : ∀ key, Fits (changes.find key) (x.synced.contains key) (members.contains key)) :
    Agrees p b id { x with members := members } := by
  have hdata : x.data.isSome = true := (Bool.and_eq_true_iff.mp hactive).1
  refine ⟨h.data, h.synced, fun _ => hknown, ?_, hresets.trans h.mismatched, ?_, ?_, ?_⟩
  · rw [hstate]
    exact h.awaited
  · rw [hstate]
    exact fun _ => hfits
  · rw [hstate]
    exact fun _ => hnoted
  · rw [hstate]
    intro _ hquiet
    rcases hquiet with hnone | hfalse
    · rw [hnone] at hdata
      cases hdata
    · cases hfalse

end Agreement

section Documents

variable {p : TargetMetadataProvider K} {a : WatchChangeAggregator K D} {id j : TargetId}
  {x y : Watched K}

@[simp] theorem stateOf_mapTarget (a : WatchChangeAggregator K D) (key : K) (j id : TargetId) :
    (a.mapTarget key j).stateOf id = a.stateOf id := rfl

theorem targetStates_updateDocument (a : WatchChangeAggregator K D) (key : K)
    (doc : Option (MaybeDocument K D)) :
    (a.updateDocument key doc).targetStates = a.targetStates := by cases doc <;> rfl

@[simp] theorem stateOf_updateDocument (a : WatchChangeAggregator K D) (key : K)
    (doc : Option (MaybeDocument K D)) (id : TargetId) :
    (a.updateDocument key doc).stateOf id = a.stateOf id := by cases doc <;> rfl

@[simp] theorem resets_updateDocument (a : WatchChangeAggregator K D) (key : K)
    (doc : Option (MaybeDocument K D)) :
    (a.updateDocument key doc).pendingTargetResets = a.pendingTargetResets := by cases doc <;> rfl

theorem contains_insert {V : Type*} (m : KeyMap K V) (j k : K) (v : V) :
    (SortedMap.insert m k v).contains j = if j = k then true else m.contains j := by
  rw [SortedMap.contains, KeyMap.find_insert]
  split_ifs <;> rfl

theorem contains_erase {V : Type*} (m : KeyMap K V) (j k : K) :
    (SortedMap.erase m k).contains j = if j = k then false else m.contains j := by
  rw [SortedMap.contains, KeyMap.find_erase]
  split_ifs <;> rfl

theorem contains_updateDocument {a b : WatchChangeAggregator K D} {k : K}
    (h : a.pendingDocumentUpdates.contains k = true)
    (hb : b.pendingDocumentUpdates = a.pendingDocumentUpdates) (key : K)
    (doc : Option (MaybeDocument K D)) :
    (b.updateDocument key doc).pendingDocumentUpdates.contains k = true := by
  rw [← hb] at h
  cases doc with
  | none => exact h
  | some doc => simp [WatchChangeAggregator.updateDocument, contains_insert, h]

theorem awaited_of_active (h : x.active = true) : x.awaited = 0 :=
  beq_iff_eq.mp (Bool.and_eq_true_iff.mp h).2

/-- A document that enters a target or changes in it. -/
theorem addDocumentToTarget_agrees (h : Agrees p a id x) (key : K) (doc : MaybeDocument K D) :
    Agrees p (a.addDocumentToTarget p id key doc) id (x.hear fun s => s.insert key ()) := by
  rw [WatchChangeAggregator.addDocumentToTarget, h.isActive, Watched.hear]
  by_cases hactive : x.active = true
  · have hawaited := awaited_of_active hactive
    rw [if_pos hactive, if_pos hactive, WatchChangeAggregator.targetContainsDocument, h.synced]
    dsimp only
    generalize htype : (if x.synced.contains key = true then ChangeType.modified else .added) = type
    refine h.record hactive ((a.stateOf id).documentChanges.insert key type) (by simp; rfl) ?_ rfl
      ?_ ?_
    · simp [WatchChangeAggregator.mapTarget, targetStates_updateDocument]
    · intro k hk
      rw [KeyMap.find_insert] at hk
      by_cases hkey : k = key
      · simp [WatchChangeAggregator.mapTarget, WatchChangeAggregator.updateDocument,
          contains_insert, hkey]
      · rw [if_neg hkey] at hk
        exact contains_updateDocument (h.noted hawaited k hk) rfl key (some doc)
    · intro k
      rw [KeyMap.find_insert, contains_insert]
      by_cases hkey : k = key
      · rw [if_pos hkey, if_pos hkey, hkey, ← htype]
        cases hsynced : x.synced.contains key with
        | true => exact ⟨rfl, rfl⟩
        | false => exact ⟨rfl, rfl⟩
      · rw [if_neg hkey, if_neg hkey]
        exact h.fits hawaited k
  · rw [if_neg hactive, if_neg hactive]
    exact h

theorem addDocumentToTarget_untouched (p : TargetMetadataProvider K)
    (a : WatchChangeAggregator K D) (hj : j ≠ id) (key : K) (doc : MaybeDocument K D) :
    Untouched a (a.addDocumentToTarget p id key doc) j := by
  rw [WatchChangeAggregator.addDocumentToTarget]
  by_cases hactive : a.isActiveTarget p id = true
  · rw [if_pos hactive]
    refine ⟨?_, ?_, rfl, ?_⟩
    · simp [hj]
    · simp [WatchChangeAggregator.mapTarget, targetStates_updateDocument, hj]
    · exact fun k hk => contains_updateDocument hk rfl key (some doc)
  · rw [if_neg hactive]
    exact .refl a j

/-- A document that leaves a target. -/
theorem removeDocumentFromTarget_agrees (h : Agrees p a id x) (key : K)
    (doc : Option (MaybeDocument K D)) :
    Agrees p (a.removeDocumentFromTarget p id key doc) id (x.hear fun s => s.erase key) := by
  rw [WatchChangeAggregator.removeDocumentFromTarget, h.isActive, Watched.hear]
  by_cases hactive : x.active = true
  · have hawaited := awaited_of_active hactive
    rw [if_pos hactive, if_pos hactive, WatchChangeAggregator.targetContainsDocument, h.synced]
    dsimp only
    cases hsynced : x.synced.contains key with
    | true =>
        rw [if_pos rfl]
        refine h.record hactive ((a.stateOf id).documentChanges.insert key .removed) (by simp; rfl)
          ?_ (by simp; rfl) ?_ ?_
        · simp [WatchChangeAggregator.mapTarget, targetStates_updateDocument]
        · intro k hk
          rw [KeyMap.find_insert] at hk
          split_ifs at hk
          · cases hk
          · exact contains_updateDocument (h.noted hawaited k hk) (by rfl) key doc
        · intro k
          rw [KeyMap.find_insert, contains_erase]
          by_cases hkey : k = key
          · rw [if_pos hkey, if_pos hkey, hkey]
            exact ⟨hsynced, rfl⟩
          · rw [if_neg hkey, if_neg hkey]
            exact h.fits hawaited k
    | false =>
        rw [if_neg Bool.false_ne_true]
        refine h.record hactive ((a.stateOf id).documentChanges.erase key) (by simp; rfl) ?_
          (by simp; rfl) ?_ ?_
        · simp [WatchChangeAggregator.mapTarget, targetStates_updateDocument]
        · intro k hk
          rw [KeyMap.find_erase] at hk
          split_ifs at hk
          exact contains_updateDocument (h.noted hawaited k hk) (by rfl) key doc
        · intro k
          rw [KeyMap.find_erase, contains_erase]
          by_cases hkey : k = key
          · rw [if_pos hkey, if_pos hkey, hkey, hsynced]
            rfl
          · rw [if_neg hkey, if_neg hkey]
            exact h.fits hawaited k
  · rw [if_neg hactive, if_neg hactive]
    exact h

theorem removeDocumentFromTarget_untouched (p : TargetMetadataProvider K)
    (a : WatchChangeAggregator K D) (hj : j ≠ id) (key : K) (doc : Option (MaybeDocument K D)) :
    Untouched a (a.removeDocumentFromTarget p id key doc) j := by
  rw [WatchChangeAggregator.removeDocumentFromTarget]
  by_cases hactive : a.isActiveTarget p id = true
  · rw [if_pos hactive]
    refine ⟨?_, ?_, ?_, ?_⟩
    · simp [hj]
    · simp [WatchChangeAggregator.mapTarget, targetStates_updateDocument, hj]
    · simp [WatchChangeAggregator.mapTarget, WatchChangeAggregator.setState]
    · exact fun k hk => contains_updateDocument hk (by rfl) key doc
  · rw [if_neg hactive]
    exact .refl a j

end Documents

section Targets

variable {p : TargetMetadataProvider K} {a b : WatchChangeAggregator K D} {id j : TargetId}
  {x y : Watched K}

theorem ensureTargetState_untouched (a : WatchChangeAggregator K D) (id j : TargetId) :
    Untouched a (a.ensureTargetState id) j := by
  refine ⟨?_, ?_, rfl, fun _ hk => hk⟩
  · rw [WatchChangeAggregator.ensureTargetState, stateOf_setState]
    split_ifs with hj
    · rw [hj]
    · rfl
  · intro hknown
    rw [WatchChangeAggregator.ensureTargetState, contains_setState, hknown, Bool.or_true]

theorem setState_untouched (a : WatchChangeAggregator K D) (hj : j ≠ id) (s : TargetState K) :
    Untouched a (a.setState id s) j := by
  refine ⟨?_, ?_, rfl, fun _ hk => hk⟩
  · rw [stateOf_setState, if_neg hj]
  · intro hknown
    rw [contains_setState, hknown, Bool.or_true]

/-- A state without changes, beside documents that are those of the views. -/
theorem agrees_of_no_changes (hdata : p.targetData id = x.data) (hsynced : p.remoteKeys id = x.synced)
    (hknown : x.data.isSome = true → a.targetStates.contains id = true)
    (hawaited : (a.stateOf id).outstandingResponses = x.awaited)
    (hmismatched : a.pendingTargetResets.contains id = x.mismatched)
    (hchanges : x.awaited = 0 → (a.stateOf id).documentChanges = SortedMap.empty)
    (hmembers : x.awaited = 0 → x.members = x.synced) : Agrees p a id x := by
  refine ⟨hdata, hsynced, hknown, hawaited, hmismatched, ?_, ?_, fun hzero _ => hchanges hzero⟩
  · intro hzero key
    rw [hchanges hzero, hmembers hzero]
    rfl
  · intro hzero key hkey
    rw [hchanges hzero] at hkey
    cases hkey

/-- A new resume token, or the mark that the target is current, leaves the documents alone. -/
theorem touch_agrees (h : Agrees p a id x) {s : TargetState K}
    (hawaited : s.outstandingResponses = (a.stateOf id).outstandingResponses)
    (hchanges : s.documentChanges = (a.stateOf id).documentChanges)
    (hpending : s.hasPendingChanges = false → (a.stateOf id).hasPendingChanges = false) :
    Agrees p (a.setState id s) id x := by
  refine ⟨h.data, h.synced, fun _ => by simp, ?_, h.mismatched, ?_, ?_, ?_⟩
  · rw [stateOf_setState, if_pos rfl, hawaited]
    exact h.awaited
  · rw [stateOf_setState, if_pos rfl, hchanges]
    exact h.fits
  · rw [stateOf_setState, if_pos rfl, hchanges]
    exact h.noted
  · rw [stateOf_setState, if_pos rfl, hchanges]
    intro hzero hquiet
    exact h.quiet hzero (hquiet.imp_right hpending)

theorem updateResumeToken_awaited (s : TargetState K) (token : ByteString) :
    (s.updateResumeToken token).outstandingResponses = s.outstandingResponses := by
  unfold TargetState.updateResumeToken
  split_ifs <;> rfl

theorem updateResumeToken_changes (s : TargetState K) (token : ByteString) :
    (s.updateResumeToken token).documentChanges = s.documentChanges := by
  unfold TargetState.updateResumeToken
  split_ifs <;> rfl

theorem updateResumeToken_pending {s : TargetState K} {token : ByteString}
    (h : (s.updateResumeToken token).hasPendingChanges = false) : s.hasPendingChanges = false := by
  unfold TargetState.updateResumeToken at h
  split_ifs at h
  exact h

theorem answered_cases {added : Bool} (h : x.answered added = some y) :
    (x.awaited = 1 ∧ x.data.isSome = added ∧ y = { x with awaited := 0, members := x.synced }) ∨
      ∃ n, x.awaited = n + 2 ∧ y = { x with awaited := n + 1 } := by
  obtain ⟨data, awaited, synced, members, mismatched⟩ := x
  rcases awaited with _ | _ | n
  · cases h
  · rw [Watched.answered] at h
    dsimp only at h
    split_ifs at h with hadded
    cases h
    exact .inl ⟨rfl, beq_iff_eq.mp hadded, rfl⟩
  · cases h
    exact .inr ⟨n, rfl, rfl⟩

/-- Where answers are still awaited, nothing but their number counts. -/
theorem agrees_of_awaited (hdata : p.targetData id = x.data) (hsynced : p.remoteKeys id = x.synced)
    (hknown : x.data.isSome = true → a.targetStates.contains id = true)
    (hawaited : (a.stateOf id).outstandingResponses = x.awaited)
    (hmismatched : a.pendingTargetResets.contains id = x.mismatched) (hpos : x.awaited ≠ 0) :
    Agrees p a id x :=
  agrees_of_no_changes hdata hsynced hknown hawaited hmismatched (fun h => (hpos h).elim)
    fun h => (hpos h).elim

/-- The answer to a listen. -/
theorem added_agrees (h : Agrees p a id x) (token : ByteString) (hy : x.answered true = some y) :
    Agrees p (a.setState id
      (let s := (a.stateOf id).recordTargetResponse
      (if s.isPending then s else s.clearPendingChanges).updateResumeToken token)) id y := by
  have hawaited := h.awaited
  rcases answered_cases hy with ⟨hone, hdata, rfl⟩ | ⟨n, hmore, rfl⟩
  · have hzero : (a.stateOf id).recordTargetResponse.outstandingResponses = 0 := by
      rw [hone] at hawaited
      simp [TargetState.recordTargetResponse, hawaited]
    have hpending : (a.stateOf id).recordTargetResponse.isPending = false := by
      simp [TargetState.isPending, hzero]
    dsimp only
    rw [hpending]
    refine agrees_of_no_changes h.data h.synced (by simp) ?_ h.mismatched ?_ fun _ => rfl
    · rw [stateOf_setState, if_pos rfl, updateResumeToken_awaited]
      exact hzero
    · intro _
      rw [stateOf_setState, if_pos rfl, updateResumeToken_changes]
      rfl
  · refine agrees_of_awaited h.data h.synced (by simp) ?_ h.mismatched (Nat.succ_ne_zero n)
    rw [hmore] at hawaited
    have hleft : (a.stateOf id).recordTargetResponse.outstandingResponses = n + 1 := by
      simp only [TargetState.recordTargetResponse, hawaited]
      omega
    rw [stateOf_setState, if_pos rfl, updateResumeToken_awaited]
    split_ifs
    · exact hleft
    · exact hleft

/-- The answer to a removal. -/
theorem removed_agrees (h : Agrees p a id x) (hy : x.answered false = some y) :
    Agrees p (if (a.stateOf id).recordTargetResponse.isPending then
        a.setState id (a.stateOf id).recordTargetResponse
      else a.removeTarget id) id y := by
  have hawaited := h.awaited
  rcases answered_cases hy with ⟨hone, hdata, rfl⟩ | ⟨n, hmore, rfl⟩
  · have hpending : (a.stateOf id).recordTargetResponse.isPending = false := by
      rw [hone] at hawaited
      simp [TargetState.isPending, TargetState.recordTargetResponse, hawaited]
    rw [hpending]
    refine agrees_of_no_changes h.data h.synced ?_ ?_ h.mismatched ?_ fun _ => rfl
    · intro hsome
      rw [hdata] at hsome
      cases hsome
    · simp [stateOf_removeTarget]
    · intro _
      simp [stateOf_removeTarget]
  · have hleft : (a.stateOf id).recordTargetResponse.outstandingResponses = n + 1 := by
      rw [hmore] at hawaited
      simp only [TargetState.recordTargetResponse, hawaited]
      omega
    have hpending : (a.stateOf id).recordTargetResponse.isPending = true := by
      simp only [TargetState.isPending, hleft, bne_iff_ne]
      omega
    rw [if_pos hpending]
    refine agrees_of_awaited h.data h.synced (by simp) ?_ h.mismatched (Nat.succ_ne_zero n)
    rw [stateOf_setState, if_pos rfl]
    exact hleft

theorem removeTarget_untouched (a : WatchChangeAggregator K D) (hj : j ≠ id) :
    Untouched a (a.removeTarget id) j := by
  refine ⟨?_, ?_, rfl, fun _ hk => hk⟩
  · rw [stateOf_removeTarget, if_neg hj]
  · intro hknown
    rw [contains_removeTarget hj]
    exact hknown

end Targets

section Resets

variable {p : TargetMetadataProvider K} {a b : WatchChangeAggregator K D} {id j : TargetId}
  {x y : Watched K}

theorem removeKeys_agrees (keys : List K) (h : Agrees p a id x) (hactive : x.active = true) :
    Agrees p (keys.foldl (fun a key => a.removeDocumentFromTarget p id key none) a) id
      { x with members := keys.foldl (fun s key => s.erase key) x.members } := by
  induction keys generalizing a x with
  | nil => exact h
  | cons key keys ih =>
      have hnext := removeDocumentFromTarget_agrees h key none
      rw [Watched.hear, if_pos hactive] at hnext
      exact ih hnext hactive

theorem removeKeys_untouched (keys : List K) (a : WatchChangeAggregator K D) (hj : j ≠ id) :
    Untouched a (keys.foldl (fun a key => a.removeDocumentFromTarget p id key none) a) j := by
  induction keys generalizing a with
  | nil => exact .refl a j
  | cons key keys ih => exact (removeDocumentFromTarget_untouched p a hj key none).trans (ih _)

theorem foldl_erase_keys (s : KeySet K) :
    s.keys.foldl (fun s key => s.erase key) s = SortedMap.empty := by
  refine keySet_ext fun k => ?_
  rw [Bool.eq_iff_iff, contains_foldl_erase, KeyMap.mem_keys]
  constructor
  · intro ⟨hnot, hin⟩
    exact (hnot hin).elim
  · intro hin
    cases hin

/-- A target that starts anew has none of the documents of its views. -/
theorem resetTarget_agrees (h : Agrees p a id x) (hactive : x.active = true) :
    ∃ b, a.resetTarget p id = some b ∧ Agrees p b id { x with members := SortedMap.empty } ∧
      ∀ j, j ≠ id → Untouched a b j := by
  have hzero := awaited_of_active hactive
  have hdata : x.data.isSome = true := (Bool.and_eq_true_iff.mp hactive).1
  obtain ⟨s, hs⟩ := Option.isSome_iff_exists.mp (h.known hdata)
  have hstate : a.stateOf id = s := by rw [WatchChangeAggregator.stateOf, hs, Option.getD_some]
  have hpending : s.isPending = false := by
    have hawaited := h.awaited
    rw [hstate, hzero] at hawaited
    simp [TargetState.isPending, hawaited]
  refine ⟨_, by simp only [WatchChangeAggregator.resetTarget, hs, hpending]; rfl, ?_, ?_⟩
  · have hfresh : Agrees p (a.setState id {}) id { x with members := x.synced } := by
      refine agrees_of_no_changes h.data h.synced (by simp) ?_ h.mismatched ?_ fun _ => rfl
      · simp [hzero]
      · simp
    have hremoved := removeKeys_agrees (p.remoteKeys id).keys hfresh hactive
    rw [h.synced, foldl_erase_keys] at hremoved
    rw [h.synced]
    exact hremoved
  · intro j hj
    exact (setState_untouched a hj {}).trans (removeKeys_untouched _ _ hj)

end Resets

section Messages

variable {p : TargetMetadataProvider K} {a b : WatchChangeAggregator K D} {w : Targets K}

theorem allAgree_update (h : AllAgree p a w) {id : TargetId} {z : Watched K}
    (hid : Agrees p b id z) (hothers : ∀ j, j ≠ id → Untouched a b j) :
    AllAgree p b (Function.update w id z) := by
  intro j
  by_cases hj : j = id
  · rw [hj, Function.update_self]
    exact hid
  · rw [Function.update_of_ne hj]
    exact (h j).frame (hothers j hj)

theorem ensureTargetState_agrees (h : AllAgree p a w) (id : TargetId) :
    AllAgree p (a.ensureTargetState id) w :=
  fun j => (h j).frame (ensureTargetState_untouched a id j)

/-- A message for a target which leaves its documents alone. -/
theorem handleTarget_quiet (h : AllAgree p a w) {change : WatchTargetChange}
    (hstate : change.state = .noChange ∨ change.state = .current) (id : TargetId) :
    ∃ b, a.handleTarget p change id = some b ∧ AllAgree p b w := by
  have hensured : AllAgree p (a.ensureTargetState id) w := ensureTargetState_agrees h id
  unfold WatchChangeAggregator.handleTarget
  generalize a.ensureTargetState id = b at hensured
  have htouch : ∀ {s : TargetState K}, s.outstandingResponses = (b.stateOf id).outstandingResponses →
      s.documentChanges = (b.stateOf id).documentChanges →
      (s.hasPendingChanges = false → (b.stateOf id).hasPendingChanges = false) →
      AllAgree p (b.setState id s) w := by
    intro s hawaited hchanges hpending j
    by_cases hj : j = id
    · subst hj
      exact touch_agrees (hensured j) hawaited hchanges hpending
    · exact (hensured j).frame (setState_untouched b hj s)
  rcases hstate with hstate | hstate
  · rw [hstate]
    refine ⟨_, rfl, ?_⟩
    split_ifs
    · exact htouch (updateResumeToken_awaited _ _) (updateResumeToken_changes _ _)
        updateResumeToken_pending
    · exact hensured
  · rw [hstate]
    refine ⟨_, rfl, ?_⟩
    split_ifs
    · refine htouch (updateResumeToken_awaited _ _) (updateResumeToken_changes _ _) ?_
      intro hfalse
      cases updateResumeToken_pending hfalse
    · exact hensured

theorem handleTarget_added (h : AllAgree p a w) {change : WatchTargetChange}
    (hstate : change.state = .added) {id : TargetId} {z : Watched K}
    (hz : (w id).answered true = some z) :
    ∃ b, a.handleTarget p change id = some b ∧ AllAgree p b (Function.update w id z) := by
  have hensured : AllAgree p (a.ensureTargetState id) w := ensureTargetState_agrees h id
  unfold WatchChangeAggregator.handleTarget
  generalize a.ensureTargetState id = b at hensured
  rw [hstate]
  refine ⟨_, rfl, allAgree_update hensured (added_agrees (hensured id) change.resumeToken hz) ?_⟩
  exact fun j hj => setState_untouched b hj _

theorem handleTarget_removed (h : AllAgree p a w) {change : WatchTargetChange}
    (hstate : change.state = .removed) (hok : change.causeOk = true) {id : TargetId} {z : Watched K}
    (hz : (w id).answered false = some z) :
    ∃ b, a.handleTarget p change id = some b ∧ AllAgree p b (Function.update w id z) := by
  have hensured : AllAgree p (a.ensureTargetState id) w := ensureTargetState_agrees h id
  unfold WatchChangeAggregator.handleTarget
  generalize a.ensureTargetState id = b at hensured
  rw [hstate, hok]
  refine ⟨_, rfl, allAgree_update hensured (removed_agrees (hensured id) hz) ?_⟩
  intro j hj
  split_ifs
  · exact setState_untouched b hj _
  · exact removeTarget_untouched b hj

theorem handleTarget_reset (h : AllAgree p a w) {change : WatchTargetChange}
    (hstate : change.state = .reset) (id : TargetId) :
    ∃ b, a.handleTarget p change id = some b ∧
      AllAgree p b (w.change id (Watched.hear fun _ => SortedMap.empty)) := by
  have hensured : AllAgree p (a.ensureTargetState id) w := ensureTargetState_agrees h id
  unfold WatchChangeAggregator.handleTarget
  generalize a.ensureTargetState id = b at hensured
  rw [hstate]
  dsimp only
  rw [(hensured id).isActive, Targets.change, Watched.hear]
  by_cases hactive : (w id).active = true
  · obtain ⟨c, hc, hid, hothers⟩ := resetTarget_agrees (hensured id) hactive
    rw [if_pos hactive, if_pos hactive, hc]
    refine ⟨_, rfl, allAgree_update hensured ?_ ?_⟩
    · exact touch_agrees hid (updateResumeToken_awaited _ _) (updateResumeToken_changes _ _)
        updateResumeToken_pending
    · intro j hj
      exact (hothers j hj).trans (setState_untouched c hj _)
  · rw [if_neg hactive, if_neg hactive, Function.update_eq_self]
    exact ⟨b, rfl, hensured⟩

theorem foldl_agrees {f : WatchChangeAggregator K D → TargetId → WatchChangeAggregator K D}
    {g : Targets K → TargetId → Targets K}
    (hstep : ∀ a w id, AllAgree p a w → AllAgree p (f a id) (g w id)) (ids : List TargetId)
    (h : AllAgree p a w) : AllAgree p (ids.foldl f a) (ids.foldl g w) := by
  induction ids generalizing a w with
  | nil => exact h
  | cons id ids ih => exact ih (hstep a w id h)

theorem removeDocumentFromTarget_all (h : AllAgree p a w) (id : TargetId) (key : K)
    (doc : Option (MaybeDocument K D)) :
    AllAgree p (a.removeDocumentFromTarget p id key doc)
      (w.change id (Watched.hear fun s => s.erase key)) :=
  allAgree_update h (removeDocumentFromTarget_agrees (h id) key doc) fun _ hj =>
    removeDocumentFromTarget_untouched p a hj key doc

theorem handleDocumentChange_agrees (h : AllAgree p a w) (message : DocumentWatchChange K D) :
    AllAgree p (a.handleDocumentChange p message) (w.hearDocument message) := by
  have hremove : ∀ (a : WatchChangeAggregator K D) (w : Targets K) (id : TargetId),
      AllAgree p a w → AllAgree p
        (a.removeDocumentFromTarget p id message.documentKey message.newDocument)
        (w.change id (Watched.hear fun s => s.erase message.documentKey)) :=
    fun a w id h => removeDocumentFromTarget_all h id message.documentKey message.newDocument
  have hupdate : ∀ (a : WatchChangeAggregator K D) (w : Targets K) (id : TargetId),
      AllAgree p a w → AllAgree p (WatchChangeAggregator.updateTarget p message a id)
        (w.hearUpdate message id) := by
    intro a w id h
    unfold WatchChangeAggregator.updateTarget Targets.hearUpdate
    cases message.newDocument with
    | none => exact h
    | some doc =>
        cases doc with
        | document d =>
            exact allAgree_update h (addDocumentToTarget_agrees (h id) d.key (.document d))
              fun _ hj => addDocumentToTarget_untouched p a hj d.key (.document d)
        | noDocument key =>
            exact removeDocumentFromTarget_all h id message.documentKey (some (.noDocument key))
        | unknownDocument key => exact h
  exact foldl_agrees hremove message.removedTargetIds
    (foldl_agrees hupdate message.updatedTargetIds h)

theorem foldl_reset (ids : List TargetId) (w : Targets K) (j : TargetId) :
    (ids.foldl (fun (w : Targets K) id => w.change id (Watched.hear fun _ => SortedMap.empty)) w) j =
      if j ∈ ids then (w j).hear fun _ => SortedMap.empty else w j := by
  induction ids generalizing w with
  | nil => rfl
  | cons id ids ih =>
      rw [List.foldl_cons, ih, Targets.change]
      by_cases hj : j = id
      · subst hj
        rw [Function.update_self, if_pos List.mem_cons_self]
        split_ifs
        · unfold Watched.hear
          split_ifs <;> rfl
        · rfl
      · rw [Function.update_of_ne hj]
        simp only [List.mem_cons, hj, false_or]

/-- Messages for some targets which leave their documents alone. -/
theorem foldlM_quiet {change : WatchTargetChange}
    (hstate : change.state = .noChange ∨ change.state = .current) (ids : List TargetId)
    (h : AllAgree p a w) :
    ∃ b, ids.foldlM (WatchChangeAggregator.handleTarget p change) a = some b ∧ AllAgree p b w := by
  induction ids generalizing a with
  | nil => exact ⟨a, rfl, h⟩
  | cons id ids ih =>
      obtain ⟨b, hb, hagree⟩ := handleTarget_quiet h hstate id
      obtain ⟨c, hc, hlast⟩ := ih hagree
      exact ⟨c, by rw [List.foldlM_cons, hb]; exact hc, hlast⟩

theorem foldlM_reset {change : WatchTargetChange} (hstate : change.state = .reset)
    (ids : List TargetId) (h : AllAgree p a w) :
    ∃ b, ids.foldlM (WatchChangeAggregator.handleTarget p change) a = some b ∧
      AllAgree p b (ids.foldl
        (fun (w : Targets K) id => w.change id (Watched.hear fun _ => SortedMap.empty)) w) := by
  induction ids generalizing a w with
  | nil => exact ⟨a, rfl, h⟩
  | cons id ids ih =>
      obtain ⟨b, hb, hagree⟩ := handleTarget_reset h hstate id
      obtain ⟨c, hc, hlast⟩ := ih hagree
      exact ⟨c, by rw [List.foldlM_cons, hb]; exact hc, hlast⟩

theorem foldlM_answers {change : WatchTargetChange} {added : Bool} {ids : List TargetId}
    {next : Targets K} (h : AllAgree p a w)
    (hnext : w.hearAnswers added ids = some next)
    (hstep : ∀ (a : WatchChangeAggregator K D) (w : Targets K) (z : Watched K) (id : TargetId),
      AllAgree p a w → (w id).answered added = some z →
        ∃ b, a.handleTarget p change id = some b ∧ AllAgree p b (Function.update w id z)) :
    ids.isEmpty = false ∧
      ∃ b, ids.foldlM (WatchChangeAggregator.handleTarget p change) a = some b ∧
        AllAgree p b next := by
  unfold Targets.hearAnswers at hnext
  split_ifs at hnext with hids
  refine ⟨eq_false_of_ne_true hids, StepSystem.exists_run_of_simulation ?_ h hnext⟩
  intro a w next id h hnext
  obtain ⟨z, hz, rfl⟩ := Option.map_eq_some_iff.mp hnext
  exact hstep a w z id h hz

/-- The active targets are among those that the aggregator knows. -/
theorem mem_activeTargets (h : AllAgree p a w) (id : TargetId) :
    id ∈ a.targetStates.keys.filter (a.isActiveTarget p) ↔ (w id).active = true := by
  rw [List.mem_filter, (h id).isActive, KeyMap.mem_keys]
  constructor
  · exact And.right
  · intro hactive
    exact ⟨(h id).known (Bool.and_eq_true_iff.mp hactive).1, hactive⟩

theorem handleTargetChange_agrees (h : AllAgree p a w) {message : WatchTargetChange}
    {next : Targets K} (hnext : w.hearTarget message = some next) :
    ∃ b, a.handleTargetChange p message = some b ∧ AllAgree p b next := by
  unfold WatchChangeAggregator.handleTargetChange WatchChangeAggregator.getTargetIds
  unfold Targets.hearTarget at hnext
  cases hstate : message.state with
  | noChange =>
      rw [hstate] at hnext
      cases hnext
      exact foldlM_quiet (.inl hstate) _ h
  | current =>
      rw [hstate] at hnext
      cases hnext
      exact foldlM_quiet (.inr hstate) _ h
  | added =>
      rw [hstate] at hnext
      obtain ⟨hids, b, hb, hagree⟩ := foldlM_answers h hnext fun a w z id h hz =>
        handleTarget_added h hstate hz
      rw [hids]
      exact ⟨b, hb, hagree⟩
  | removed =>
      rw [hstate] at hnext
      dsimp only at hnext
      split_ifs at hnext with hok
      obtain ⟨hids, b, hb, hagree⟩ := foldlM_answers h hnext fun a w z id h hz =>
        handleTarget_removed h hstate hok hz
      rw [hids]
      exact ⟨b, hb, hagree⟩
  | reset =>
      rw [hstate] at hnext
      cases hnext
      obtain ⟨b, hb, hagree⟩ := foldlM_reset hstate
        (if message.targetIds.isEmpty then a.targetStates.keys.filter (a.isActiveTarget p)
          else message.targetIds) h
      refine ⟨b, hb, ?_⟩
      split_ifs at hagree ⊢ with hids
      · intro id
        have hid := hagree id
        rw [foldl_reset] at hid
        split_ifs at hid with hin
        · exact hid
        · rw [mem_activeTargets h] at hin
          change Agrees p b id ((w id).hear _)
          rw [Watched.hear, if_neg hin]
          exact hid
      · exact hagree

end Messages

section Counts

variable {p : TargetMetadataProvider K} {a b : WatchChangeAggregator K D} {w : Targets K}
  {id : TargetId} {x : Watched K}

theorem card_keys (s : KeySet K) : s.keys.toFinset.card = s.size := by
  rw [List.toFinset_card_of_nodup s.keys_nodup, SortedMap.keys, List.length_map, SortedMap.size]

/-- Two ways to put the same keys together from parts that share none. -/
theorem size_add_size {s t u v : KeySet K}
    (hst : ∀ k, s.contains k = true → t.contains k = false)
    (huv : ∀ k, u.contains k = true → v.contains k = false)
    (h : ∀ k, (s.contains k || t.contains k) = (u.contains k || v.contains k)) :
    s.size + t.size = u.size + v.size := by
  have hcard : ∀ {s t : KeySet K}, (∀ k, s.contains k = true → t.contains k = false) →
      (s.keys.toFinset ∪ t.keys.toFinset).card = s.size + t.size := by
    intro s t hst
    rw [Finset.card_union_of_disjoint, card_keys, card_keys]
    refine Finset.disjoint_left.mpr fun k hs ht => ?_
    rw [List.mem_toFinset, KeyMap.mem_keys] at hs ht
    rw [hst k hs] at ht
    cases ht
  rw [← hcard hst, ← hcard huv]
  congr 1
  ext k
  have hk := h k
  simp only [Finset.mem_union, List.mem_toFinset, KeyMap.mem_keys]
  rw [← Bool.or_eq_true_iff, ← Bool.or_eq_true_iff, hk]

theorem contains_changed (s : TargetState K) (type : ChangeType) (k : K) :
    (s.changed type).contains k = decide (s.documentChanges.find k = some type) := by
  have hfold : ∀ (es : List (K × ChangeType)) (set : KeySet K),
      (es.foldl (fun set e => if e.2 = type then set.insert e.1 () else set) set).contains k = true ↔
        (k, type) ∈ es ∨ set.contains k = true := by
    intro es
    induction es with
    | nil => simp
    | cons e es ih =>
        intro set
        obtain ⟨key, change⟩ := e
        rw [List.foldl_cons, ih, List.mem_cons, Prod.mk.injEq]
        by_cases hchange : change = type
        · rw [if_pos hchange, contains_insert]
          by_cases hk : k = key
          · simp [hk, hchange]
          · simp [hk]
        · rw [if_neg hchange]
          simp [Ne.symm hchange]
  rw [Bool.eq_iff_iff, decide_eq_true_iff, TargetState.changed, hfold]
  constructor
  · rintro (hmem | hempty)
    · exact KeyMap.mem_entries.mp hmem
    · cases hempty
  · intro hfind
    exact .inl (KeyMap.mem_entries.mpr hfind)

/-- The changes of a target that agrees with the protocol, as a target change. -/
theorem toTargetChange_eq (h : Agrees p a id x) (hawaited : x.awaited = 0) :
    (a.stateOf id).toTargetChange = some ((a.stateOf id).resumeToken, ⟨(a.stateOf id).current,
      (a.stateOf id).changed .added, (a.stateOf id).changed .modified,
      (a.stateOf id).changed .removed⟩) := by
  rw [TargetState.toTargetChange, if_neg]
  intro hany
  obtain ⟨e, he, hmetadata⟩ := List.any_eq_true.mp hany
  have hfits := h.fits hawaited e.1
  rw [KeyMap.mem_entries.mp he, beq_iff_eq.mp hmetadata] at hfits
  exact hfits

/-- What the changes of each type say of a document. -/
theorem member_cases (h : Agrees p a id x) (hawaited : x.awaited = 0) (k : K) :
    let added := ((a.stateOf id).changed .added).contains k
    let modified := ((a.stateOf id).changed .modified).contains k
    let removed := ((a.stateOf id).changed .removed).contains k
    x.members.contains k = ((x.synced.contains k || added) && !removed) ∧
      (modified = true → x.synced.contains k = true) ∧
      (added = true → x.synced.contains k = false) ∧
      (removed = true → x.synced.contains k = true) := by
  have hfits := h.fits hawaited k
  dsimp only
  rw [contains_changed, contains_changed, contains_changed]
  cases hfind : (a.stateOf id).documentChanges.find k with
  | none =>
      rw [hfind] at hfits
      have hsame : x.members.contains k = x.synced.contains k := hfits
      simp [hsame]
  | some change =>
      rw [hfind] at hfits
      cases change with
      | metadata => exact hfits.elim
      | added => simp [hfits.1, hfits.2]
      | modified => simp [hfits.1, hfits.2]
      | removed => simp [hfits.1, hfits.2]

/-- The number of documents by the changes is the number of those that the messages name. -/
theorem currentDocumentCount_eq (h : Agrees p a id x) (hawaited : x.awaited = 0) :
    a.getCurrentDocumentCountForTarget p id = some (x.members.size : ℤ) := by
  have hsize : x.members.size + ((a.stateOf id).changed .removed).size =
      x.synced.size + ((a.stateOf id).changed .added).size := by
    refine size_add_size ?_ ?_ ?_
    · intro k hk
      obtain ⟨hmember, -⟩ := member_cases h hawaited k
      rw [hk] at hmember
      simpa using (Bool.and_eq_true_iff.mp hmember.symm).2
    · intro k hk
      obtain ⟨-, -, hadded, -⟩ := member_cases h hawaited k
      cases hin : ((a.stateOf id).changed .added).contains k with
      | false => rfl
      | true => exact absurd (hadded hin) (by simp [hk])
    · intro k
      obtain ⟨hmember, -, -, hremoved⟩ := member_cases h hawaited k
      rw [hmember]
      cases hin : ((a.stateOf id).changed .removed).contains k with
      | false => simp
      | true => simp [hremoved hin]
  rw [WatchChangeAggregator.getCurrentDocumentCountForTarget, toTargetChange_eq h hawaited,
    h.synced, Option.map_some]
  refine congrArg some ?_
  dsimp only
  omega

/-- A target change takes the documents of the views to those that the messages name. -/
theorem syncedAfter_eq (h : Agrees p a id x) (hawaited : x.awaited = 0) (current : Bool) :
    syncedAfter x.synced ⟨current, (a.stateOf id).changed .added, (a.stateOf id).changed .modified,
      (a.stateOf id).changed .removed⟩ = some x.members := by
  unfold syncedAfter
  dsimp only
  have hmodified : ((a.stateOf id).changed .modified).keys.all (fun key =>
      (((a.stateOf id).changed .added).keys.foldl
        (fun (s : KeySet K) key => s.insert key ()) x.synced).contains key) = true := by
    refine List.all_eq_true.mpr fun k hk => ?_
    rw [contains_foldl_insert]
    exact .inr ((member_cases h hawaited k).2.1 (KeyMap.mem_keys.mp hk))
  rw [if_pos hmodified]
  refine congrArg some (keySet_ext fun k => ?_)
  rw [Bool.eq_iff_iff, contains_foldl_erase, contains_foldl_insert, KeyMap.mem_keys, KeyMap.mem_keys,
    (member_cases h hawaited k).1]
  simp only [Bool.and_eq_true_iff, Bool.or_eq_true_iff, Bool.not_eq_true', Bool.not_eq_true]
  tauto

/-- A target whose documents do not add up is noted for a new start. -/
theorem mismatch_agrees (h : Agrees p a id x) :
    Agrees p { a with pendingTargetResets := a.pendingTargetResets.insert id () } id
      { x with mismatched := true } := by
  refine ⟨h.data, h.synced, h.known, h.awaited, ?_, h.fits, h.noted, h.quiet⟩
  simp [contains_insert]

theorem mismatch_untouched (a : WatchChangeAggregator K D) {j : TargetId} (hj : j ≠ id) :
    Untouched a { a with pendingTargetResets := a.pendingTargetResets.insert id () } j := by
  refine ⟨rfl, fun hk => hk, ?_, fun _ hk => hk⟩
  rw [contains_insert, if_neg hj]

theorem handleExistenceFilter_agrees (h : AllAgree p a w) {message : ExistenceFilterWatchChange}
    {next : Targets K} (hnext : w.hearCount message = some next) :
    ∃ b, a.handleExistenceFilter p message = some b ∧ AllAgree p b next := by
  obtain ⟨id, count⟩ := message
  obtain ⟨z, hz, rfl⟩ := Option.map_eq_some_iff.mp hnext
  dsimp only at hz ⊢
  unfold Watched.counted at hz
  unfold WatchChangeAggregator.handleExistenceFilter
  dsimp only
  by_cases hactive : (w id).active = true
  · have hawaited := awaited_of_active hactive
    obtain ⟨data, hdata⟩ := Option.isSome_iff_exists.mp (Bool.and_eq_true_iff.mp hactive).1
    have hbind : (w id).data.bind TargetData.documentKey = data.documentKey := by
      rw [hdata, Option.bind_some]
    rw [if_pos hactive, hbind] at hz
    rw [(h id).targetData, if_pos hawaited, hdata]
    dsimp only
    cases hkey : data.documentKey with
    | some key =>
        rw [hkey] at hz
        dsimp only at hz ⊢
        split_ifs at hz with hzero hone
        · cases hz
          rw [if_pos hzero]
          refine ⟨_, rfl, allAgree_update h ?_ ?_⟩
          · have hremoved := removeDocumentFromTarget_agrees (h id) key (some (.noDocument key))
            rw [Watched.hear, if_pos hactive] at hremoved
            exact hremoved
          · exact fun j hj => removeDocumentFromTarget_untouched p a hj key _
        · cases hz
          rw [if_neg hzero, if_pos hone, Function.update_eq_self]
          exact ⟨a, rfl, h⟩
    | none =>
        rw [hkey] at hz
        dsimp only at hz ⊢
        rw [currentDocumentCount_eq (h id) hawaited, Option.bind_some]
        have hensured : AllAgree p (a.ensureTargetState id) w := ensureTargetState_agrees h id
        split_ifs at hz with hcount
        · cases hz
          rw [if_neg (not_not_intro hcount), Function.update_eq_self]
          exact ⟨_, rfl, hensured⟩
        · cases hz
          obtain ⟨c, hc, hid, hothers⟩ := resetTarget_agrees (hensured id) hactive
          rw [if_pos hcount, hc]
          refine ⟨_, rfl, allAgree_update hensured (mismatch_agrees hid) ?_⟩
          exact fun j hj => (hothers j hj).trans (mismatch_untouched c hj)
  · rw [if_neg hactive] at hz
    cases hz
    have hnone : a.targetDataForActiveTarget p id = none := by
      have hisActive := (h id).isActive
      rw [eq_false_of_ne_true hactive, WatchChangeAggregator.isActiveTarget,
        Option.isSome_eq_false_iff, Option.isNone_iff_eq_none] at hisActive
      exact hisActive
    rw [hnone, Function.update_eq_self]
    exact ⟨a, rfl, h⟩

end Counts

section Events

variable {p : TargetMetadataProvider K} {a b : WatchChangeAggregator K D} {w : Targets K}
  {id j : TargetId} {x y : Watched K} {changes : KeyMap TargetId (ByteString × TargetChange K)}

/-- The part of an event that is about one target takes the documents of its views to those
that the messages name, and nothing is left to be told about it. -/
structure Settled (p : TargetMetadataProvider K) (a : WatchChangeAggregator K D)
    (change : Option (ByteString × TargetChange K)) (id : TargetId) (x : Watched K) : Prop where
  data : p.targetData id = x.data
  synced : p.remoteKeys id = x.synced
  known : x.data.isSome = true → a.targetStates.contains id = true
  awaited : (a.stateOf id).outstandingResponses = x.awaited
  mismatched : a.pendingTargetResets.contains id = x.mismatched
  cleared : x.awaited = 0 → (a.stateOf id).documentChanges = SortedMap.empty
  unchanged : change = none → x.awaited = 0 → x.members = x.synced
  changed : ∀ c, change = some c → x.active = true ∧ syncedAfter x.synced c.2 = some x.members

theorem Settled.frame {change : Option (ByteString × TargetChange K)}
    (h : Settled p a change id x) (hsame : Untouched a b id) : Settled p b change id x := by
  refine ⟨h.data, h.synced, fun hx => hsame.known (h.known hx), ?_, ?_, ?_, h.unchanged, h.changed⟩
  · rw [hsame.state]
    exact h.awaited
  · rw [hsame.resets]
    exact h.mismatched
  · rw [hsame.state]
    exact h.cleared

/-- Without changes the documents are those of the views. -/
theorem members_eq_synced (h : Agrees p a id x) (hawaited : x.awaited = 0)
    (hchanges : (a.stateOf id).documentChanges = SortedMap.empty) : x.members = x.synced := by
  refine keySet_ext fun k => ?_
  have hfits := h.fits hawaited k
  rw [hchanges] at hfits
  exact hfits

/-- A document that nothing was heard of is not in a target whose views do not have it. -/
theorem not_member (h : Agrees p a id x) (hawaited : x.awaited = 0) {key : K}
    (hupdates : a.pendingDocumentUpdates.contains key = false)
    (hsynced : x.synced.contains key = false) : x.members.contains key = false := by
  have hfits := h.fits hawaited key
  rw [hsynced] at hfits
  cases hfind : (a.stateOf id).documentChanges.find key with
  | none =>
      rw [hfind] at hfits
      exact hfits
  | some change =>
      rw [hfind] at hfits
      cases change with
      | added =>
          have hnoted := h.noted hawaited key hfind
          rw [hupdates] at hnoted
          cases hnoted
      | metadata => exact hfits.elim
      | modified => cases hfits.1
      | removed => cases hfits.1

theorem erase_of_not_contains {s : KeySet K} {key : K} (h : s.contains key = false) :
    SortedMap.erase s key = s := by
  refine keySet_ext fun k => ?_
  rw [contains_erase]
  split_ifs with hk
  · rw [hk, h]
  · rfl

/-- To say that a document is missing makes no difference to the targets. -/
theorem deleteMissingDocument_agrees (h : Agrees p a id x) (hactive : x.active = true)
    (data : TargetData K) :
    Agrees p (a.deleteMissingDocument p id data) id x ∧
      ∀ j, j ≠ id → Untouched a (a.deleteMissingDocument p id data) j := by
  unfold WatchChangeAggregator.deleteMissingDocument
  cases data.documentKey with
  | none => exact ⟨h, fun j _ => .refl a j⟩
  | some key =>
      dsimp only
      split_ifs with hmissing
      · obtain ⟨hmissing, hsynced⟩ := Bool.and_eq_true_iff.mp hmissing
        obtain ⟨-, hupdates⟩ := Bool.and_eq_true_iff.mp hmissing
        rw [Bool.not_eq_true'] at hsynced hupdates
        rw [WatchChangeAggregator.targetContainsDocument, h.synced] at hsynced
        have hremoved := removeDocumentFromTarget_agrees h key (some (.noDocument key))
        rw [Watched.hear, if_pos hactive,
          erase_of_not_contains (not_member h (awaited_of_active hactive) hupdates hsynced)] at hremoved
        exact ⟨hremoved, fun j hj => removeDocumentFromTarget_untouched p a hj key _⟩
      · exact ⟨h, fun j _ => .refl a j⟩

theorem settled_of_agrees (h : Agrees p a id x)
    (hquiet : x.awaited = 0 → x.data = none ∨ (a.stateOf id).hasPendingChanges = false) :
    Settled p a none id x := by
  have hcleared : x.awaited = 0 → (a.stateOf id).documentChanges = SortedMap.empty :=
    fun hzero => h.quiet hzero (hquiet hzero)
  refine ⟨h.data, h.synced, h.known, h.awaited, h.mismatched, hcleared, ?_, ?_⟩
  · exact fun _ hzero => members_eq_synced h hzero (hcleared hzero)
  · intro c hc
    cases hc

theorem createTargetChange_settles (h : Agrees p a id x) (hid : changes.find id = none) :
    ∃ made, WatchChangeAggregator.createTargetChange p (a, changes) id = some made ∧
      Settled p made.1 (made.2.find id) id x ∧
      ∀ j, j ≠ id → Untouched a made.1 j ∧ made.2.find j = changes.find j := by
  unfold WatchChangeAggregator.createTargetChange
  dsimp only
  rw [h.targetData]
  by_cases hawaited : x.awaited = 0
  · rw [if_pos hawaited]
    cases hdata : x.data with
    | none =>
        refine ⟨_, rfl, ?_, fun j _ => ⟨.refl a j, rfl⟩⟩
        rw [hid]
        exact settled_of_agrees h fun _ => .inl hdata
    | some data =>
        have hactive : x.active = true := by simp [Watched.active, hdata, hawaited]
        obtain ⟨hagrees, hothers⟩ := deleteMissingDocument_agrees h hactive data
        dsimp only
        generalize a.deleteMissingDocument p id data = b at hagrees hothers
        by_cases hpending : (b.stateOf id).hasPendingChanges = true
        · rw [if_pos hpending, toTargetChange_eq hagrees hawaited]
          refine ⟨_, rfl, ?_, ?_⟩
          · rw [KeyMap.find_insert, if_pos rfl]
            refine ⟨h.data, h.synced, by simp, ?_, hagrees.mismatched, ?_, ?_, ?_⟩
            · rw [stateOf_setState, if_pos rfl]
              exact hagrees.awaited
            · rw [stateOf_setState, if_pos rfl]
              exact fun _ => rfl
            · intro hnone
              cases hnone
            · intro c hc
              cases hc
              exact ⟨hactive, syncedAfter_eq hagrees hawaited _⟩
          · intro j hj
            rw [KeyMap.find_insert, if_neg hj]
            exact ⟨(hothers j hj).trans (setState_untouched b hj _), rfl⟩
        · rw [if_neg hpending]
          refine ⟨_, rfl, ?_, fun j hj => ⟨hothers j hj, rfl⟩⟩
          rw [hid]
          exact settled_of_agrees hagrees fun _ => .inr (eq_false_of_ne_true hpending)
  · rw [if_neg hawaited]
    refine ⟨_, rfl, ?_, fun j _ => ⟨.refl a j, rfl⟩⟩
    rw [hid]
    exact settled_of_agrees h fun hzero => (hawaited hzero).elim

/-- The whole event. -/
theorem foldlM_settles (ids : List TargetId) (hids : ids.Nodup)
    (hagrees : ∀ j ∈ ids, Agrees p a j (w j) ∧ changes.find j = none)
    (hsettled : ∀ j ∉ ids, Settled p a (changes.find j) j (w j)) :
    ∃ made, ids.foldlM (WatchChangeAggregator.createTargetChange p) (a, changes) = some made ∧
      ∀ j, Settled p made.1 (made.2.find j) j (w j) := by
  induction ids generalizing a changes with
  | nil => exact ⟨(a, changes), rfl, fun j => hsettled j List.not_mem_nil⟩
  | cons id ids ih =>
      obtain ⟨hnot, hnodup⟩ := List.nodup_cons.mp hids
      obtain ⟨hid, hnone⟩ := hagrees id List.mem_cons_self
      obtain ⟨⟨b, made⟩, hmade, hsettledId, hothers⟩ := createTargetChange_settles hid hnone
      have hrest : ∀ j ∈ ids, Agrees p b j (w j) ∧ made.find j = none := by
        intro j hj
        obtain ⟨hsame, hfind⟩ := hothers j (ne_of_mem_of_not_mem hj hnot)
        obtain ⟨hagree, hfree⟩ := hagrees j (List.mem_cons_of_mem id hj)
        exact ⟨hagree.frame hsame, hfind.trans hfree⟩
      have hdone : ∀ j ∉ ids, Settled p b (made.find j) j (w j) := by
        intro j hj
        by_cases heq : j = id
        · rw [heq]
          exact hsettledId
        · obtain ⟨hsame, hfind⟩ := hothers j heq
          have hj' : j ∉ id :: ids := by
            rw [List.mem_cons]
            exact not_or.mpr ⟨heq, hj⟩
          rw [show made.find j = changes.find j from hfind]
          exact (hsettled j hj').frame hsame
      obtain ⟨last, hlast, hall⟩ := ih hnodup hrest hdone
      exact ⟨last, by rw [List.foldlM_cons, hmade]; exact hlast, hall⟩

theorem createRemoteEvent_settles (h : AllAgree p a w) :
    ∃ event b, a.createRemoteEvent p = some (event, b) ∧
      (∀ j, event.targetMismatches.contains j = (w j).mismatched) ∧
      b.pendingTargetResets = SortedMap.empty ∧
      ∀ j, Settled p { b with pendingTargetResets := event.targetMismatches }
        (event.targetChanges.find j) j (w j) := by
  have hknown : ∀ j ∉ a.targetStates.keys,
      Settled p a ((SortedMap.empty : KeyMap TargetId (ByteString × TargetChange K)).find j) j
        (w j) := by
    intro j hj
    refine settled_of_agrees (h j) fun _ => .inl ?_
    rw [KeyMap.mem_keys] at hj
    by_contra hdata
    exact hj ((h j).known (Option.isSome_iff_ne_none.mpr hdata))
  obtain ⟨⟨b, changes⟩, hmade, hsettled⟩ :=
    foldlM_settles a.targetStates.keys a.targetStates.keys_nodup (fun j _ => ⟨h j, rfl⟩) hknown
  refine ⟨_, _, by rw [WatchChangeAggregator.createRemoteEvent, hmade]; rfl, ?_, rfl, ?_⟩
  · exact fun j => (hsettled j).mismatched
  · intro j
    have hj := hsettled j
    exact ⟨hj.data, hj.synced, hj.known, hj.awaited, hj.mismatched, hj.cleared, hj.unchanged,
      hj.changed⟩

/-- Once the event has reached the views, the target starts from there. -/
theorem delivered_agrees {p' : TargetMetadataProvider K}
    {change : Option (ByteString × TargetChange K)} {mismatches : KeySet TargetId}
    (h : Settled p { a with pendingTargetResets := mismatches } change id x)
    (hresets : a.pendingTargetResets = SortedMap.empty) (hdata : p'.targetData id = p.targetData id)
    (hkeys : change.elim (some x.synced) (fun c => syncedAfter x.synced c.2) =
      some (p'.remoteKeys id)) : Agrees p' a id x.delivered := by
  have hdelivered : p'.remoteKeys id = x.delivered.synced ∧
      (x.awaited = 0 → x.members = x.delivered.synced) := by
    cases change with
    | none =>
        have hsame : p'.remoteKeys id = x.synced := (Option.some.inj hkeys).symm
        have hunchanged := h.unchanged rfl
        unfold Watched.delivered
        dsimp only
        split_ifs with hactive
        · have hmembers := hunchanged (awaited_of_active hactive)
          exact ⟨hsame.trans hmembers.symm, fun _ => rfl⟩
        · exact ⟨hsame, hunchanged⟩
    | some c =>
        obtain ⟨hactive, hsynced⟩ := h.changed c rfl
        have hsame : p'.remoteKeys id = x.members :=
          (Option.some.inj (hsynced.symm.trans hkeys)).symm
        unfold Watched.delivered
        rw [if_pos hactive]
        exact ⟨hsame, fun _ => rfl⟩
  refine agrees_of_no_changes (hdata.trans h.data) hdelivered.1 h.known h.awaited ?_ h.cleared
    hdelivered.2
  rw [hresets]
  rfl

theorem Agrees.congr {p' : TargetMetadataProvider K} (h : Agrees p a id x)
    (hdata : p'.targetData id = p.targetData id) (hkeys : p'.remoteKeys id = p.remoteKeys id) :
    Agrees p' a id x :=
  ⟨hdata.trans h.data, hkeys.trans h.synced, h.known, h.awaited, h.mismatched, h.fits, h.noted,
    h.quiet⟩

/-- The client may say anew what it has of a target when it asks the server for something. -/
theorem recordPendingTargetRequest_agrees {p' : TargetMetadataProvider K} (h : AllAgree p a w)
    (hothers : ∀ j, j ≠ id → p'.targetData j = p.targetData j ∧ p'.remoteKeys j = p.remoteKeys j)
    (hdata : p'.targetData id = x.data) (hkeys : p'.remoteKeys id = x.synced)
    (hawaited : x.awaited = (w id).awaited) (hmismatched : x.mismatched = (w id).mismatched) :
    AllAgree p' (a.recordPendingTargetRequest id) (Function.update w id x.requested) := by
  intro j
  by_cases hj : j = id
  · rw [hj, Function.update_self]
    refine agrees_of_awaited hdata hkeys ?_ ?_ ?_ (Nat.succ_ne_zero _)
    · intro _
      simp [WatchChangeAggregator.recordPendingTargetRequest]
    · simp only [WatchChangeAggregator.recordPendingTargetRequest, stateOf_setState, if_true,
        TargetState.recordPendingTargetRequest, Watched.requested, hawaited, (h id).awaited]
      rfl
    · exact (h id).mismatched.trans hmismatched.symm
  · rw [Function.update_of_ne hj]
    have huntouched : Untouched a (a.recordPendingTargetRequest id) j := setState_untouched a hj _
    exact ((h j).frame huntouched).congr (hothers j hj).1 (hothers j hj).2

end Events

end YouRoute.WatchChanges
