import Mathlib.Data.Nat.Basic
import Mathlib.Logic.Function.Basic
import YouRoute.DocumentSets

/-!
# Merging the changes of a view

The changes of a view are collected in a set that holds at most one change for a
document, so a change to a document that has one already is merged with it. Some
pairs of changes are not supported and end the program. No history in which each
change fits the documents left by the changes before it meets such a pair, and
what the set holds of a document after such a history is told by whether it was
there before, the last change to it and whether all of them were metadata changes.
-/

namespace YouRoute

inductive ChangeType where
  | removed
  | added
  | modified
  | metadata
deriving DecidableEq, Repr

structure DocumentViewChange (K D : Type*) where
  document : Document K D
  type : ChangeType
deriving DecidableEq, Repr

abbrev DocumentViewChangeSet (K D : Type*) [LinearOrder K] := KeyMap K (DocumentViewChange K D)

section

variable {K D : Type*} [LinearOrder K]

/-- Merge a change into the set; nothing where the combination is not supported. -/
def addChange (set : DocumentViewChangeSet K D) (change : DocumentViewChange K D) :
    Option (DocumentViewChangeSet K D) :=
  let key := change.document.key
  match set.find key with
  | none => some (set.insert key change)
  | some old =>
      if change.type ≠ .added ∧ old.type = .metadata then
        some (set.insert key change)
      else if change.type = .metadata ∧ old.type ≠ .removed then
        some (set.insert key ⟨change.document, old.type⟩)
      else if change.type = .modified ∧ old.type = .modified then
        some (set.insert key ⟨change.document, .modified⟩)
      else if change.type = .modified ∧ old.type = .added then
        some (set.insert key ⟨change.document, .added⟩)
      else if change.type = .removed ∧ old.type = .added then
        some (set.erase key)
      else if change.type = .removed ∧ old.type = .modified then
        some (set.insert key ⟨old.document, .removed⟩)
      else if change.type = .added ∧ old.type = .removed then
        some (set.insert key ⟨change.document, .modified⟩)
      else
        none

def getChanges (set : DocumentViewChangeSet K D) : List (DocumentViewChange K D) :=
  set.entries.map Prod.snd

/-- A change fits a document that it finds and the one it leaves. -/
inductive DocumentViewChange.Fits :
    Option (Document K D) → Option (Document K D) → DocumentViewChange K D → Prop
  | added (d : Document K D) : Fits none (some d) ⟨d, .added⟩
  | removed (o : Document K D) : Fits (some o) none ⟨o, .removed⟩
  | modified (o d : Document K D) : Fits (some o) (some d) ⟨d, .modified⟩
  | metadata {o d : Document K D} : o.data = d.data → Fits (some o) (some d) ⟨d, .metadata⟩

/-- Changes taken in order, each one fitting the documents left by those before it. -/
inductive History :
    (K → Option (Document K D)) → List (DocumentViewChange K D) →
      (K → Option (Document K D)) → Prop
  | nil (docs : K → Option (Document K D)) : History docs [] docs
  | cons {docs final : K → Option (Document K D)} {change : DocumentViewChange K D}
      {changes : List (DocumentViewChange K D)} (next : Option (Document K D)) :
      change.Fits (docs change.document.key) next →
      History (Function.update docs change.document.key next) changes final →
      History docs (change :: changes) final

/-- The net change of a document that was there or not, by all changes made to it. -/
def netChange (old : Option (Document K D)) (changes : List (DocumentViewChange K D)) :
    Option (DocumentViewChange K D) :=
  changes.getLast?.bind fun last =>
    match old with
    | none => if last.type = .removed then none else some ⟨last.document, .added⟩
    | some _ =>
        if last.type = .removed then some last
        else if changes.all fun change => change.type == .metadata then
          some ⟨last.document, .metadata⟩
        else
          some ⟨last.document, .modified⟩

/-- What a change leaves of the document it is about. -/
def outcome (old : Option (Document K D)) : Option (DocumentViewChange K D) → Option (Document K D)
  | none => old
  | some change => if change.type = .removed then none else some change.document

/-- A change merged with the one that its document had. -/
def merged (old : Option (DocumentViewChange K D)) (change : DocumentViewChange K D) :
    Option (DocumentViewChange K D) :=
  match old with
  | none => some change
  | some old =>
      match old.type with
      | .removed => some ⟨change.document, .modified⟩
      | .added => if change.type = .removed then none else some ⟨change.document, .added⟩
      | .modified =>
          if change.type = .removed then some ⟨old.document, .removed⟩
          else some ⟨change.document, .modified⟩
      | .metadata => some change

/-- The set holds the net changes, which lead from the old documents to the present ones. -/
structure Merges (old : K → Option (Document K D)) (changes : List (DocumentViewChange K D))
    (set : DocumentViewChangeSet K D) (docs : K → Option (Document K D)) : Prop where
  net : ∀ k, set.find k =
    netChange (old k) (changes.filter fun change => change.document.key = k)
  outcome : ∀ k, outcome (old k) (set.find k) = docs k

end

namespace ViewChanges

variable {K D : Type*} [LinearOrder K]

/-- A change that fits what the change before it left is merged with it. -/
theorem exists_addChange {set : DocumentViewChangeSet K D} {change : DocumentViewChange K D}
    {old before after : Option (Document K D)}
    (hold : outcome old (set.find change.document.key) = before)
    (hfits : change.Fits before after) :
    ∃ set', addChange set change = some set' ∧
      ∀ j, set'.find j =
        if j = change.document.key then merged (set.find change.document.key) change
        else set.find j := by
  have hinsert : ∀ {m : DocumentViewChange K D},
      merged (set.find change.document.key) change = some m →
      addChange set change = some (set.insert change.document.key m) →
      ∃ set', addChange set change = some set' ∧
        ∀ j, set'.find j =
          if j = change.document.key then merged (set.find change.document.key) change
          else set.find j := by
    intro m hm hadd
    rw [hm]
    exact ⟨_, hadd, fun j => KeyMap.find_insert set j _ m⟩
  cases hfind : set.find change.document.key with
  | none =>
      rw [← hfind]
      refine hinsert (by rw [hfind]; rfl) ?_
      simp only [addChange, hfind]
  | some was =>
      obtain ⟨o, type⟩ := was
      rw [hfind] at hold
      rw [← hfind]
      cases type with
      | removed =>
          cases hold
          cases hfits with
          | added d =>
              refine hinsert (by rw [hfind]; rfl) ?_
              simp [addChange, hfind]
      | added =>
          cases hold
          cases hfits with
          | removed =>
              rw [hfind]
              refine ⟨set.erase o.key, ?_, fun j => KeyMap.find_erase set j o.key⟩
              simp [addChange, hfind]
          | modified _ d =>
              refine hinsert (by rw [hfind]; rfl) ?_
              simp [addChange, hfind]
          | @metadata _ d _ =>
              refine hinsert (by rw [hfind]; rfl) ?_
              simp [addChange, hfind]
      | modified =>
          cases hold
          cases hfits with
          | removed =>
              refine hinsert (by rw [hfind]; rfl) ?_
              simp [addChange, hfind]
          | modified _ d =>
              refine hinsert (by rw [hfind]; rfl) ?_
              simp [addChange, hfind]
          | @metadata _ d _ =>
              refine hinsert (by rw [hfind]; rfl) ?_
              simp [addChange, hfind]
      | metadata =>
          cases hold
          cases hfits with
          | removed =>
              refine hinsert (by rw [hfind]; rfl) ?_
              simp [addChange, hfind]
          | modified _ d =>
              refine hinsert (by rw [hfind]; rfl) ?_
              simp [addChange, hfind]
          | @metadata _ d _ =>
              refine hinsert (by rw [hfind]; rfl) ?_
              simp [addChange, hfind]

section OneDocument

variable {old before after : Option (Document K D)} {change : DocumentViewChange K D}

omit [LinearOrder K] in
theorem netChange_none_concat (changes : List (DocumentViewChange K D)) :
    netChange none (changes ++ [change]) =
      if change.type = .removed then none else some ⟨change.document, .added⟩ := by
  rw [netChange, List.getLast?_concat]
  rfl

omit [LinearOrder K] in
theorem netChange_some_concat (o : Document K D) (changes : List (DocumentViewChange K D)) :
    netChange (some o) (changes ++ [change]) =
      if change.type = .removed then some change
      else if (changes ++ [change]).all fun change => change.type == .metadata then
        some ⟨change.document, .metadata⟩
      else
        some ⟨change.document, .modified⟩ := by
  rw [netChange, List.getLast?_concat]
  rfl

omit [LinearOrder K] in
theorem outcome_netChange_concat (changes : List (DocumentViewChange K D))
    (hfits : change.Fits before after) :
    outcome old (netChange old (changes ++ [change])) = after := by
  have hafter : after = if change.type = .removed then none else some change.document := by
    cases hfits <;> rfl
  cases old with
  | none =>
      rw [netChange_none_concat, hafter]
      split_ifs <;> rfl
  | some o =>
      rw [netChange_some_concat, hafter]
      split_ifs with hremoved
      · exact if_pos hremoved
      · rfl
      · rfl

omit [LinearOrder K] in
/-- One more change is merged with the net change of those before it. -/
theorem netChange_concat {changes : List (DocumentViewChange K D)}
    (h : outcome old (netChange old changes) = before) (hfits : change.Fits before after) :
    netChange old (changes ++ [change]) = merged (netChange old changes) change := by
  rcases List.eq_nil_or_concat changes with rfl | ⟨earlier, last, rfl⟩
  · cases h
    cases hfits <;> rfl
  · rw [List.concat_eq_append] at h ⊢
    obtain ⟨doc, type⟩ := last
    cases old with
    | none =>
        rw [netChange_none_concat] at h ⊢
        rw [netChange_none_concat]
        cases type <;> simp only [reduceCtorEq, if_true, if_false, outcome] at h ⊢ <;>
          subst h <;> cases hfits <;> rfl
    | some o =>
        rw [netChange_some_concat] at h ⊢
        rw [netChange_some_concat]
        simp only [List.all_append, List.all_cons, List.all_nil, Bool.and_true] at h ⊢
        generalize (earlier.all fun change => change.type == .metadata) = quiet at h ⊢
        cases type <;> cases quiet <;> cases h <;> cases hfits <;> rfl

end OneDocument

/-- A change that fits the documents is merged, and the set holds the net changes after it. -/
theorem merges_addChange {old cur : K → Option (Document K D)}
    {set : DocumentViewChangeSet K D} {changes : List (DocumentViewChange K D)}
    (h : Merges old changes set cur) {change : DocumentViewChange K D}
    {next : Option (Document K D)} (hfits : change.Fits (cur change.document.key) next) :
    ∃ set', addChange set change = some set' ∧
      Merges old (changes ++ [change]) set' (Function.update cur change.document.key next) := by
  obtain ⟨set', hadd, hfind⟩ := exists_addChange (h.outcome change.document.key) hfits
  refine ⟨set', hadd, ?_, ?_⟩
  · intro k
    rw [hfind, List.filter_append]
    by_cases hk : k = change.document.key
    · subst hk
      have houtcome := h.outcome change.document.key
      rw [h.net] at houtcome ⊢
      rw [if_pos rfl, List.filter_cons_of_pos (by simp), List.filter_nil]
      exact (netChange_concat houtcome hfits).symm
    · rw [if_neg hk, List.filter_cons_of_neg (by simpa using Ne.symm hk), List.filter_nil,
        List.append_nil]
      exact h.net k
  · intro k
    rw [hfind]
    by_cases hk : k = change.document.key
    · subst hk
      rw [if_pos rfl, Function.update_self]
      have houtcome := h.outcome change.document.key
      rw [h.net] at houtcome ⊢
      rw [← netChange_concat houtcome hfits]
      exact outcome_netChange_concat _ hfits
    · rw [if_neg hk, Function.update_of_ne hk]
      exact h.outcome k

theorem exists_foldlM_addChange {old cur final : K → Option (Document K D)}
    {set : DocumentViewChangeSet K D} {earlier changes : List (DocumentViewChange K D)}
    (h : Merges old earlier set cur) (hist : History cur changes final) :
    ∃ set', changes.foldlM addChange set = some set' ∧
      Merges old (earlier ++ changes) set' final := by
  induction hist generalizing set earlier with
  | nil docs => exact ⟨set, rfl, by rw [List.append_nil]; exact h⟩
  | @cons _ _ change changes next hfits _ ih =>
      obtain ⟨set', hadd, hset'⟩ := merges_addChange h hfits
      obtain ⟨set'', hfold, hset''⟩ := ih hset'
      refine ⟨set'', ?_, ?_⟩
      · rw [List.foldlM_cons, hadd]
        exact hfold
      · rw [← List.append_cons] at hset''
        exact hset''

/-- Every history is merged without an unsupported pair, into the net change of each document
from the first documents to the last. -/
theorem history_merges {old final : K → Option (Document K D)}
    {changes : List (DocumentViewChange K D)} (hist : History old changes final) :
    ∃ set, changes.foldlM addChange SortedMap.empty = some set ∧ ∀ k,
      set.find k = netChange (old k) (changes.filter fun change => change.document.key = k) ∧
      outcome (old k) (set.find k) = final k := by
  have hempty : Merges old [] SortedMap.empty old := ⟨fun k => rfl, fun k => rfl⟩
  obtain ⟨set, hfold, hmerges⟩ := exists_foldlM_addChange hempty hist
  exact ⟨set, hfold, fun k => ⟨hmerges.net k, hmerges.outcome k⟩⟩

/-- A document that is left out and comes back unchanged counts as modified, one that comes
and goes leaves no trace. -/
theorem history_merges_return :
    let here : Document ℕ ℕ := ⟨3, 10, .synced⟩
    let passing : Document ℕ ℕ := ⟨4, 20, .synced⟩
    let changes : List (DocumentViewChange ℕ ℕ) :=
      [⟨here, .removed⟩, ⟨passing, .added⟩, ⟨here, .added⟩, ⟨passing, .removed⟩]
    ∃ set, changes.foldlM addChange SortedMap.empty = some set ∧
      set.find 3 = some ⟨here, .modified⟩ ∧ set.find 4 = none := by
  intro here passing changes
  obtain ⟨set, hset, hnet⟩ := history_merges
    (.cons none (.removed here) (.cons (some passing) (.added passing)
      (.cons (some here) (.added here) (.cons none (.removed passing) (.nil _)))) :
      History (Function.update (fun _ => none) 3 (some here)) changes _)
  exact ⟨set, hset, (hnet 3).1, (hnet 4).1⟩

end ViewChanges

end YouRoute
