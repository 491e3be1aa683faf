import Mathlib.Order.BoundedOrder.Basic
import Mathlib.Order.Nat
import YouRoute.ViewRuns

/-!
# References to documents

A reference set notes which targets refer to which documents. It is kept twice,
sorted by key and sorted by identifier, so that both the targets of a document and
the documents of a target stand together. A range of the first half is searched to
see if a document has any reference, and a range of the second for the documents of
a target. The ranges are found with the empty key, which comes before all others,
with the identifier zero, and with the identifier after the target's, which for the
largest 32-bit one is the smallest.
-/

namespace YouRoute

structure DocumentKeyReference (K : Type*) where
  key : K
  refId : Int32
deriving DecidableEq, Repr

namespace DocumentKeyReference

variable {K : Type*} [LinearOrder K]

def byKey (K : Type*) [LinearOrder K] : Comparator (DocumentKeyReference K) where
  compare := compareLex (compareOn key) (compareOn refId)
  trans := inferInstance

def byId (K : Type*) [LinearOrder K] : Comparator (DocumentKeyReference K) where
  compare := compareLex (compareOn refId) (compareOn key)
  trans := inferInstance

theorem byKey_lt {a b : DocumentKeyReference K} : (byKey K).compare a b = .lt ↔
    a.key < b.key ∨ a.key = b.key ∧ a.refId < b.refId := by
  simp [byKey, compareLex, compareOn, Ordering.then_eq_lt, compare_lt_iff_lt, Std.compare_eq_lt]

theorem byId_lt {a b : DocumentKeyReference K} : (byId K).compare a b = .lt ↔
    a.refId < b.refId ∨ a.refId = b.refId ∧ a.key < b.key := by
  simp [byId, compareLex, compareOn, Ordering.then_eq_lt, compare_lt_iff_lt, Std.compare_eq_lt]

@[simp] theorem byKey_eq {a b : DocumentKeyReference K} :
    (byKey K).compare a b = .eq ↔ a = b := by
  obtain ⟨key, id⟩ := a
  obtain ⟨key', id'⟩ := b
  simp [byKey, compareLex, compareOn, Ordering.then_eq_eq]

@[simp] theorem byId_eq {a b : DocumentKeyReference K} :
    (byId K).compare a b = .eq ↔ a = b := by
  obtain ⟨key, id⟩ := a
  obtain ⟨key', id'⟩ := b
  simp [byId, compareLex, compareOn, Ordering.then_eq_eq, and_comm]

end DocumentKeyReference

open DocumentKeyReference in
/-- The references by key and by identifier, which are the same. -/
structure ReferenceSet (K : Type*) [LinearOrder K] where
  byKey : SortedMap (byKey K) Unit
  byId : SortedMap (byId K) Unit
  coherent : ∀ r, byKey.contains r = byId.contains r

namespace ReferenceSet

variable {K : Type*} [LinearOrder K]

theorem contains_insert {c : Comparator (DocumentKeyReference K)}
    (hc : ∀ {a b}, c.compare a b = .eq ↔ a = b) (m : SortedMap c Unit)
    (r s : DocumentKeyReference K) :
    (m.insert r ()).contains s = (decide (s = r) || m.contains s) := by
  rw [SortedMap.contains, SortedMap.find_insert]
  by_cases hs : s = r
  · rw [if_pos (hc.mpr hs)]
    simp [hs]
  · rw [if_neg (hs ∘ hc.mp)]
    simp [hs, SortedMap.contains]

theorem contains_erase {c : Comparator (DocumentKeyReference K)}
    (hc : ∀ {a b}, c.compare a b = .eq ↔ a = b) (m : SortedMap c Unit)
    (r s : DocumentKeyReference K) :
    (m.erase r).contains s = (!decide (s = r) && m.contains s) := by
  rw [SortedMap.contains, SortedMap.find_erase]
  by_cases hs : s = r
  · rw [if_pos (hc.mpr hs)]
    simp [hs]
  · rw [if_neg (hs ∘ hc.mp)]
    simp [hs, SortedMap.contains]

def empty : ReferenceSet K := ⟨SortedMap.empty, SortedMap.empty, fun _ => rfl⟩

def addReference (s : ReferenceSet K) (key : K) (id : Int32) : ReferenceSet K where
  byKey := s.byKey.insert ⟨key, id⟩ ()
  byId := s.byId.insert ⟨key, id⟩ ()
  coherent r := by
    rw [contains_insert DocumentKeyReference.byKey_eq, contains_insert DocumentKeyReference.byId_eq,
      s.coherent]

def remove (s : ReferenceSet K) (r : DocumentKeyReference K) : ReferenceSet K where
  byKey := s.byKey.erase r
  byId := s.byId.erase r
  coherent t := by
    rw [contains_erase DocumentKeyReference.byKey_eq, contains_erase DocumentKeyReference.byId_eq,
      s.coherent]

def removeReference (s : ReferenceSet K) (key : K) (id : Int32) : ReferenceSet K :=
  s.remove ⟨key, id⟩

def addReferences (s : ReferenceSet K) (keys : KeySet K) (id : Int32) : ReferenceSet K :=
  keys.keys.foldl (fun s key => s.addReference key id) s

def removeReferencesOf (s : ReferenceSet K) (keys : KeySet K) (id : Int32) : ReferenceSet K :=
  keys.keys.foldl (fun s key => s.removeReference key id) s

def removeAllReferences (s : ReferenceSet K) : ReferenceSet K := s.byKey.keys.foldl remove s

section

variable [OrderBot K]

/-- The references of one identifier stand between two references to the empty key. -/
def referencesOf (s : ReferenceSet K) (id : Int32) : List (DocumentKeyReference K) :=
  (SortedList.between (DocumentKeyReference.byId K) ⟨⊥, id⟩ ⟨⊥, id + 1⟩ s.byId.entries).map Prod.fst

def removeReferences (s : ReferenceSet K) (id : Int32) : ReferenceSet K × KeySet K :=
  (s.referencesOf id).foldl (fun (s, removed) r => (s.remove r, removed.insert r.key ()))
    (s, SortedMap.empty)

def referencedKeys (s : ReferenceSet K) (id : Int32) : KeySet K :=
  (s.referencesOf id).foldl (fun keys r => keys.insert r.key ()) SortedMap.empty

end

/-- The first reference from the key on is one to the key. -/
def containsKey (s : ReferenceSet K) (key : K) : Bool :=
  match SortedList.fromKey (DocumentKeyReference.byKey K) ⟨key, 0⟩ s.byKey.entries with
  | [] => false
  | e :: _ => e.1.key == key

/-- The target refers to the document. -/
def Refers (s : ReferenceSet K) (key : K) (id : Int32) : Prop := s.byKey.contains ⟨key, id⟩ = true

end ReferenceSet

/-- One change of the references. -/
inductive ReferenceChange (K : Type*) [LinearOrder K] where
  | addReference (key : K) (id : Int32)
  | addReferences (keys : KeySet K) (id : Int32)
  | removeReference (key : K) (id : Int32)
  | removeReferencesOf (keys : KeySet K) (id : Int32)
  | removeReferences (id : Int32)
  | removeAllReferences

namespace ReferenceChange

variable {K : Type*} [LinearOrder K]

def apply [OrderBot K] (s : ReferenceSet K) : ReferenceChange K → ReferenceSet K
  | .addReference key id => s.addReference key id
  | .addReferences keys id => s.addReferences keys id
  | .removeReference key id => s.removeReference key id
  | .removeReferencesOf keys id => s.removeReferencesOf keys id
  | .removeReferences id => (s.removeReferences id).1
  | .removeAllReferences => s.removeAllReferences

/-- What the change makes of a set of pairs of a document and a target. -/
def relate (r : Set (K × Int32)) : ReferenceChange K → Set (K × Int32)
  | .addReference key id => {t | t.1 = key ∧ t.2 = id ∨ t ∈ r}
  | .addReferences keys id => {t | keys.contains t.1 = true ∧ t.2 = id ∨ t ∈ r}
  | .removeReference key id => {t | ¬(t.1 = key ∧ t.2 = id) ∧ t ∈ r}
  | .removeReferencesOf keys id => {t | ¬(keys.contains t.1 = true ∧ t.2 = id) ∧ t ∈ r}
  | .removeReferences id => {t | t.2 ≠ id ∧ t ∈ r}
  | .removeAllReferences => ∅

/-- Added identifiers are not negative, and a removed one is not the largest. -/
def Proper : ReferenceChange K → Prop
  | .addReference _ id => 0 ≤ id
  | .addReferences _ id => 0 ≤ id
  | .removeReferences id => id < Int32.maxValue
  | _ => True

end ReferenceChange

namespace ReferenceSets

variable {K : Type*} [LinearOrder K] {s : ReferenceSet K} {key j : K} {id i : Int32}

theorem refers_addReference :
    (s.addReference key id).Refers j i ↔ j = key ∧ i = id ∨ s.Refers j i := by
  rw [ReferenceSet.Refers, ReferenceSet.addReference,
    ReferenceSet.contains_insert DocumentKeyReference.byKey_eq]
  simp [ReferenceSet.Refers]

theorem refers_remove (r : DocumentKeyReference K) :
    (s.remove r).Refers j i ↔ ¬(j = r.key ∧ i = r.refId) ∧ s.Refers j i := by
  obtain ⟨key, id⟩ := r
  rw [ReferenceSet.Refers, ReferenceSet.remove,
    ReferenceSet.contains_erase DocumentKeyReference.byKey_eq, Bool.and_eq_true, Bool.not_eq_true',
    decide_eq_false_iff_not, DocumentKeyReference.mk.injEq]
  rfl

theorem refers_foldl_addReference (keys : List K) (s : ReferenceSet K) :
    (keys.foldl (fun s key => s.addReference key id) s).Refers j i ↔
      j ∈ keys ∧ i = id ∨ s.Refers j i := by
  induction keys generalizing s with
  | nil => simp
  | cons key keys ih =>
      rw [List.foldl_cons, ih, refers_addReference, List.mem_cons]
      tauto

theorem refers_foldl_remove (rs : List (DocumentKeyReference K)) (s : ReferenceSet K) :
    (rs.foldl ReferenceSet.remove s).Refers j i ↔ ⟨j, i⟩ ∉ rs ∧ s.Refers j i := by
  induction rs generalizing s with
  | nil => simp
  | cons r rs ih =>
      obtain ⟨key, id⟩ := r
      rw [List.foldl_cons, ih, refers_remove, List.mem_cons, DocumentKeyReference.mk.injEq]
      tauto

/-- All references are where both halves have them. -/
theorem refers_iff_byId : s.Refers j i ↔ s.byId.contains ⟨j, i⟩ = true := by
  rw [ReferenceSet.Refers, s.coherent]

theorem mem_keys_byKey {r : DocumentKeyReference K} :
    r ∈ s.byKey.keys ↔ s.Refers r.key r.refId := by
  rw [ReferenceSet.Refers, SortedMap.contains_iff]
  simp [DocumentKeyReference.byKey_eq]

theorem mem_keys_byId {r : DocumentKeyReference K} :
    r ∈ s.byId.keys ↔ s.Refers r.key r.refId := by
  rw [refers_iff_byId, SortedMap.contains_iff]
  simp [DocumentKeyReference.byId_eq]

theorem toInt_succ (h : id < Int32.maxValue) : (id + 1).toInt = id.toInt + 1 := by
  have hlt : id.toInt < 2 ^ 31 - 1 := Int32.lt_iff_toInt_lt.mp h
  have hle := id.le_toInt
  have hone : (1 : Int32).toInt = 1 := rfl
  rw [Int32.toInt_add, hone]
  apply Int.bmod_eq_of_le <;> omega

section Ranges

variable [OrderBot K]

/-- After the largest identifier comes the smallest, so that its range is empty. -/
theorem referencesOf_maxValue (s : ReferenceSet K) : s.referencesOf Int32.maxValue = [] := by
  have hsucc : Int32.maxValue + 1 = Int32.minValue := by decide
  rw [ReferenceSet.referencesOf, List.map_eq_nil_iff, SortedList.between, List.filter_eq_nil_iff]
  intro e _ hrange
  rw [Bool.and_eq_true, beq_iff_eq, DocumentKeyReference.byId_lt, hsucc] at hrange
  rcases hrange.2 with hlt | ⟨-, hbot⟩
  · exact Int32.not_lt.mpr (Int32.minValue_le _) hlt
  · exact not_lt_bot hbot

/-- The range between the two references to the empty key is that of the identifier. -/
theorem mem_referencesOf (hid : id < Int32.maxValue) {r : DocumentKeyReference K} :
    r ∈ s.referencesOf id ↔ r.refId = id ∧ s.Refers r.key r.refId := by
  rw [← mem_keys_byId, ReferenceSet.referencesOf, SortedMap.keys, List.mem_map, List.mem_map]
  have hrange : ∀ e : DocumentKeyReference K × Unit,
      ((DocumentKeyReference.byId K).compare e.1 ⟨⊥, id⟩ != .lt &&
        (DocumentKeyReference.byId K).compare e.1 ⟨⊥, id + 1⟩ == .lt) = true ↔ e.1.refId = id := by
    intro e
    rw [Bool.and_eq_true, bne_iff_ne, beq_iff_eq, Ne, DocumentKeyReference.byId_lt,
      DocumentKeyReference.byId_lt]
    simp only [not_lt_bot, and_false, or_false]
    rw [Int32.lt_iff_toInt_lt, Int32.lt_iff_toInt_lt, toInt_succ hid, ← Int32.toInt_inj]
    omega
  simp only [SortedList.between, List.mem_filter, hrange]
  constructor
  · rintro ⟨e, ⟨he, hid⟩, rfl⟩
    exact ⟨hid, e, he, rfl⟩
  · rintro ⟨hid, e, he, rfl⟩
    exact ⟨e, ⟨he, hid⟩, rfl⟩

theorem contains_referencedKeys (hid : id < Int32.maxValue) :
    (s.referencedKeys id).contains key = true ↔ s.Refers key id := by
  have hfold : s.referencedKeys id = ((s.referencesOf id).map DocumentKeyReference.key).foldl
      (fun keys key => keys.insert key ()) SortedMap.empty := by
    rw [ReferenceSet.referencedKeys, List.foldl_map]
  rw [hfold, ViewRuns.contains_foldl_insert, List.mem_map]
  constructor
  · rintro (⟨r, hr, rfl⟩ | hempty)
    · obtain ⟨heq, hrefers⟩ := (mem_referencesOf hid).mp hr
      exact heq ▸ hrefers
    · cases hempty
  · intro hrefers
    exact .inl ⟨⟨key, id⟩, (mem_referencesOf hid).mpr ⟨rfl, hrefers⟩, rfl⟩

/-- The removal of the references of a target tells whose they were. -/
theorem removeReferences_eq (s : ReferenceSet K) (id : Int32) :
    s.removeReferences id =
      ((s.referencesOf id).foldl ReferenceSet.remove s, s.referencedKeys id) := by
  have hfold : ∀ (rs : List (DocumentKeyReference K)) (s : ReferenceSet K) (removed : KeySet K),
      rs.foldl (fun (made : ReferenceSet K × KeySet K) r =>
          (made.1.remove r, made.2.insert r.key ())) (s, removed) =
        (rs.foldl ReferenceSet.remove s,
          rs.foldl (fun keys r => keys.insert r.key ()) removed) := by
    intro rs
    induction rs with
    | nil => exact fun s removed => rfl
    | cons r rs ih => exact fun s removed => ih _ _
  exact hfold (s.referencesOf id) s SortedMap.empty

end Ranges

/-- A document has a reference if the first one from its key on is one to it. -/
theorem containsKey_iff (h : ∀ j i, s.Refers j i → 0 ≤ i) :
    s.containsKey key = true ↔ ∃ id, s.Refers key id := by
  unfold ReferenceSet.containsKey
  have hmem : ∀ e : DocumentKeyReference K × Unit,
      e ∈ SortedList.fromKey (DocumentKeyReference.byKey K) ⟨key, 0⟩ s.byKey.entries ↔
        s.Refers e.1.key e.1.refId ∧ ¬(e.1.key < key ∨ e.1.key = key ∧ e.1.refId < 0) := by
    intro e
    rw [← mem_keys_byKey, SortedList.fromKey, List.mem_filter, bne_iff_ne, Ne,
      DocumentKeyReference.byKey_lt]
    refine and_congr_left fun _ => ?_
    rw [SortedMap.keys, List.mem_map]
    constructor
    · intro he
      exact ⟨e, he, rfl⟩
    · rintro ⟨d, hd, hkey⟩
      exact (Prod.ext hkey rfl : d = e) ▸ hd
  have hsorted : (SortedList.fromKey (DocumentKeyReference.byKey K) ⟨key, 0⟩
      s.byKey.entries).Pairwise fun a b => (DocumentKeyReference.byKey K).compare a.1 b.1 = .lt :=
    s.byKey.sorted.filter _
  cases hlist : SortedList.fromKey (DocumentKeyReference.byKey K) ⟨key, 0⟩ s.byKey.entries with
  | nil =>
      rw [hlist] at hmem
      refine iff_of_false Bool.false_ne_true ?_
      rintro ⟨id, hrefers⟩
      refine List.not_mem_nil ((hmem (⟨key, id⟩, ())).mpr ⟨hrefers, ?_⟩)
      rintro (hlt | ⟨-, hneg⟩)
      · exact lt_irrefl key hlt
      · exact Int32.not_lt.mpr (h key id hrefers) hneg
  | cons e es =>
      rw [hlist] at hmem hsorted
      obtain ⟨hfirst, hfrom⟩ := (hmem e).mp List.mem_cons_self
      change (e.1.key == key) = true ↔ _
      rw [beq_iff_eq]
      constructor
      · intro hkey
        exact ⟨e.1.refId, hkey ▸ hfirst⟩
      · rintro ⟨id, hrefers⟩
        have hin : ((⟨key, id⟩ : DocumentKeyReference K), ()) ∈ e :: es := by
          refine (hmem _).mpr ⟨hrefers, ?_⟩
          rintro (hlt | ⟨-, hneg⟩)
          · exact lt_irrefl key hlt
          · exact Int32.not_lt.mpr (h key id hrefers) hneg
        rcases List.mem_cons.mp hin with heq | htail
        · exact (congrArg (fun d => d.1.key) heq).symm
        · have hlt := (List.pairwise_cons.mp hsorted).1 _ htail
          rcases DocumentKeyReference.byKey_lt.mp hlt with hkey | ⟨hkey, -⟩
          · exact (hfrom (.inl hkey)).elim
          · exact hkey

section Changes

variable [OrderBot K]

theorem refers_apply (s : ReferenceSet K) {change : ReferenceChange K} (hchange : change.Proper)
    {r : Set (K × Int32)} (h : ∀ j i, s.Refers j i ↔ (j, i) ∈ r) (j : K) (i : Int32) :
    (change.apply s).Refers j i ↔ (j, i) ∈ change.relate r := by
  cases change with
  | addReference key id => exact refers_addReference.trans (or_congr_right (h j i))
  | addReferences keys id =>
      refine (refers_foldl_addReference _ _).trans (or_congr ?_ (h j i))
      exact and_congr_left fun _ => KeyMap.mem_keys
  | removeReference key id => exact (refers_remove _).trans (and_congr_right fun _ => h j i)
  | removeReferencesOf keys id =>
      have hfold : ReferenceChange.apply s (.removeReferencesOf keys id) =
          (keys.keys.map fun key => ⟨key, id⟩).foldl ReferenceSet.remove s := by
        rw [List.foldl_map]
        rfl
      rw [hfold, refers_foldl_remove]
      refine and_congr (not_congr ?_) (h j i)
      rw [List.mem_map]
      constructor
      · rintro ⟨key, hkey, heq⟩
        cases heq
        exact ⟨KeyMap.mem_keys.mp hkey, rfl⟩
      · rintro ⟨hkey, hid⟩
        exact ⟨j, KeyMap.mem_keys.mpr hkey, congrArg (DocumentKeyReference.mk j) hid.symm⟩
  | removeReferences id =>
      rw [ReferenceChange.apply, removeReferences_eq, refers_foldl_remove, mem_referencesOf hchange]
      change ¬(i = id ∧ s.Refers j i) ∧ s.Refers j i ↔ i ≠ id ∧ (j, i) ∈ r
      rw [h]
      tauto
  | removeAllReferences =>
      refine (refers_foldl_remove _ _).trans ?_
      rw [mem_keys_byKey]
      exact iff_of_false (fun hboth => hboth.1 hboth.2) fun hfalse => hfalse

theorem refers_foldl_apply {changes : List (ReferenceChange K)}
    (hproper : ∀ change ∈ changes, change.Proper) {s : ReferenceSet K} {r : Set (K × Int32)}
    (h : ∀ j i, s.Refers j i ↔ (j, i) ∈ r) (j : K) (i : Int32) :
    (changes.foldl ReferenceChange.apply s).Refers j i ↔
      (j, i) ∈ changes.foldl ReferenceChange.relate r := by
  induction changes generalizing s r with
  | nil => exact h j i
  | cons change changes ih =>
      obtain ⟨hchange, hrest⟩ := List.forall_mem_cons.mp hproper
      exact ih hrest (refers_apply s hchange h)

omit [OrderBot K] in
/-- Changes with identifiers that are not negative leave no negative one. -/
theorem nonneg_of_mem_foldl {changes : List (ReferenceChange K)}
    (h : ∀ change ∈ changes, change.Proper) {r : Set (K × Int32)} (hr : ∀ t ∈ r, 0 ≤ t.2) :
    ∀ t ∈ changes.foldl ReferenceChange.relate r, 0 ≤ t.2 := by
  induction changes generalizing r with
  | nil => exact hr
  | cons change changes ih =>
      obtain ⟨hchange, hrest⟩ := List.forall_mem_cons.mp h
      refine ih hrest ?_
      intro t ht
      cases change with
      | addReference key id =>
          cases ht with
          | inl hnew => exact hnew.2 ▸ hchange
          | inr hold => exact hr t hold
      | addReferences keys id =>
          cases ht with
          | inl hnew => exact hnew.2 ▸ hchange
          | inr hold => exact hr t hold
      | removeReference key id => exact hr t ht.2
      | removeReferencesOf keys id => exact hr t ht.2
      | removeReferences id => exact hr t ht.2
      | removeAllReferences => cases ht

/-- What the references are after some changes, and what the questions about them answer. -/
theorem references_follow_changes (changes : List (ReferenceChange K))
    (h : ∀ change ∈ changes, change.Proper) :
    let s := changes.foldl ReferenceChange.apply ReferenceSet.empty
    let r := changes.foldl ReferenceChange.relate ∅
    (∀ key, s.containsKey key = true ↔ ∃ id, (key, id) ∈ r) ∧
      (∀ key id, id < Int32.maxValue →
        ((s.referencedKeys id).contains key = true ↔ (key, id) ∈ r)) ∧
      (∀ id, (s.removeReferences id).2 = s.referencedKeys id) ∧
      s.byKey.keys.Perm s.byId.keys ∧ ∀ t, t ∈ s.byKey.keys ↔ (t.key, t.refId) ∈ r := by
  have hrefers := refers_foldl_apply h (s := ReferenceSet.empty) (r := (∅ : Set (K × Int32)))
    fun _ _ => iff_of_false Bool.false_ne_true id
  have hnonneg := nonneg_of_mem_foldl h (r := (∅ : Set (K × Int32))) fun _ ht => ht.elim
  dsimp only
  generalize changes.foldl ReferenceChange.apply ReferenceSet.empty = s at hrefers
  generalize changes.foldl ReferenceChange.relate (∅ : Set (K × Int32)) = r at hrefers hnonneg
  refine ⟨?_, ?_, ?_, ?_, ?_⟩
  · intro key
    rw [containsKey_iff fun j i hji => hnonneg (j, i) ((hrefers j i).mp hji)]
    exact exists_congr fun id => hrefers key id
  · exact fun key id hid => (contains_referencedKeys hid).trans (hrefers key id)
  · exact fun id => congrArg Prod.snd (removeReferences_eq s id)
  · refine (List.perm_ext_iff_of_nodup s.byKey.keys_nodup s.byId.keys_nodup).mpr fun t => ?_
    exact mem_keys_byKey.trans mem_keys_byId.symm
  · exact fun t => mem_keys_byKey.trans (hrefers t.key t.refId)

/-- Two targets share a document that one of them leaves. -/
theorem references_follow_shared_document :
    let changes : List (ReferenceChange ℕ) :=
      [.addReference 5 2, .addReferences (SortedMap.empty.insert 5 ()) 4, .removeReferences 2]
    let s := changes.foldl ReferenceChange.apply ReferenceSet.empty
    let r := changes.foldl ReferenceChange.relate ∅
    (∀ key, s.containsKey key = true ↔ ∃ id, (key, id) ∈ r) ∧
      (∀ key id, id < Int32.maxValue →
        ((s.referencedKeys id).contains key = true ↔ (key, id) ∈ r)) ∧
      (∀ id, (s.removeReferences id).2 = s.referencedKeys id) ∧
      s.byKey.keys.Perm s.byId.keys ∧ ∀ t, t ∈ s.byKey.keys ↔ (t.key, t.refId) ∈ r := by
  refine references_follow_changes _ ?_
  simp only [List.mem_cons, List.not_mem_nil, or_false, forall_eq_or_imp, forall_eq]
  exact ⟨(by decide : (0 : Int32) ≤ 2), (by decide : (0 : Int32) ≤ 4),
    (by decide : (2 : Int32) < Int32.maxValue)⟩

end Changes

end ReferenceSets

end YouRoute
