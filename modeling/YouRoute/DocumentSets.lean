import Mathlib.Data.List.Nodup
import YouRoute.SortedLists

/-!
# The documents of a query view

A view keeps the documents of its query twice, in an index by key and in a set
sorted by the comparator of the query. The comparator goes by the data of the
documents, so the sorted set would keep an outdated document if the index did not
lead to it. Both halves hold the same documents after any insertions and
removals, which is a field of the structure here.
-/

namespace YouRoute

inductive DocumentState where
  | localMutations
  | committedMutations
  | synced
deriving DecidableEq, Repr

structure Document (K D : Type*) where
  key : K
  data : D
  state : DocumentState
deriving DecidableEq, Repr

namespace Document

variable {K D : Type*}

def hasLocalMutations (d : Document K D) : Bool := d.state == .localMutations

def hasCommittedMutations (d : Document K D) : Bool := d.state == .committedMutations

end Document

inductive MaybeDocument (K D : Type*) where
  | document (d : Document K D)
  | noDocument (key : K)
  | unknownDocument (key : K)
deriving DecidableEq, Repr

inductive LimitType where
  | none
  | first
  | last
deriving DecidableEq, Repr

/-- A query as its views use it: an order of keys and data that ends in the keys, a
filter and a limit. -/
structure Query (K D : Type*) where
  order : Comparator (K × D)
  key_of_same : ∀ a b, order.compare a b = .eq → a.1 = b.1
  matchesDocument : K → D → Bool
  limitType : LimitType
  limit : ℕ

namespace Query

variable {K D : Type*} (q : Query K D)

def comparator : Comparator (Document K D) := q.order.on fun d => (d.key, d.data)

theorem key_of_compare_eq {a b : Document K D} (h : q.comparator.compare a b = .eq) :
    a.key = b.key := q.key_of_same _ _ h

/-- The `Matches` test of a document. -/
def accepts (d : Document K D) : Bool := q.matchesDocument d.key d.data

def hasLimitToFirst : Bool := q.limitType == .first

def hasLimitToLast : Bool := q.limitType == .last

end Query

abbrev KeyMap (K V : Type*) [LinearOrder K] := SortedMap (Comparator.ofLinearOrder K) V

abbrev KeySet (K : Type*) [LinearOrder K] := KeyMap K Unit

section KeyMap

variable {K V : Type*} [LinearOrder K]

@[simp] theorem KeyMap.find_insert (m : KeyMap K V) (j k : K) (v : V) :
    (SortedMap.insert m k v).find j = if j = k then some v else m.find j := by
  rw [SortedMap.find_insert]
  simp only [Comparator.ofLinearOrder_eq]

@[simp] theorem KeyMap.find_erase (m : KeyMap K V) (j k : K) :
    (SortedMap.erase m k).find j = if j = k then none else m.find j := by
  rw [SortedMap.find_erase]
  simp only [Comparator.ofLinearOrder_eq]

@[simp] theorem KeyMap.find_empty (k : K) :
    (SortedMap.empty : KeyMap K V).find k = none := rfl

theorem KeyMap.ext_find {m n : KeyMap K V} (h : ∀ k, m.find k = n.find k) : m = n :=
  SortedMap.ext_find (fun _ _ => Comparator.ofLinearOrder_eq.mp) h

theorem KeyMap.mem_keys {m : KeyMap K V} {k : K} : k ∈ m.keys ↔ m.contains k = true := by
  simp only [SortedMap.contains_iff, Comparator.ofLinearOrder_eq, exists_eq_right']

theorem KeyMap.mem_entries {m : KeyMap K V} {e : K × V} :
    e ∈ m.entries ↔ m.find e.1 = some e.2 :=
  SortedMap.mem_entries_iff fun _ _ => Comparator.ofLinearOrder_eq.mp

end KeyMap

/-- The index and the sorted set of one query, holding the same documents. -/
structure DocumentSet {K D : Type*} [LinearOrder K] (q : Query K D) where
  index : KeyMap K (Document K D)
  sortedSet : SortedMap q.comparator Unit
  keyed : ∀ k d, index.find k = some d → d.key = k
  coherent : ∀ d, d ∈ sortedSet.keys ↔ index.find d.key = some d

namespace DocumentSet

variable {K D : Type*} [LinearOrder K] {q : Query K D}

def empty : DocumentSet q where
  index := SortedMap.empty
  sortedSet := SortedMap.empty
  keyed _ _ h := nomatch h
  coherent d := by simp [SortedMap.empty, SortedMap.keys, SortedMap.find, SortedList.find]

def size (s : DocumentSet q) : ℕ := s.index.size

def containsKey (s : DocumentSet q) (key : K) : Bool := s.index.contains key

def getDocument (s : DocumentSet q) (key : K) : Option (Document K D) := s.index.find key

/-- The documents in the order of an iteration. -/
def documents (s : DocumentSet q) : List (Document K D) := s.sortedSet.keys

def getFirstDocument (s : DocumentSet q) : Option (Document K D) := s.documents.head?

def getLastDocument (s : DocumentSet q) : Option (Document K D) := s.documents.getLast?

theorem key_of_getDocument {s : DocumentSet q} {k : K} {d : Document K D}
    (h : s.getDocument k = some d) : d.key = k := s.keyed k d h

theorem mem_documents {s : DocumentSet q} {d : Document K D} :
    d ∈ s.documents ↔ s.getDocument d.key = some d := s.coherent d

def erase (s : DocumentSet q) (key : K) : DocumentSet q :=
  match hdoc : s.getDocument key with
  | none => s
  | some doc =>
      { index := s.index.erase key
        sortedSet := s.sortedSet.erase doc
        keyed := by
          intro k d h
          rw [KeyMap.find_erase] at h
          split_ifs at h
          exact s.keyed k d h
        coherent := by
          intro d
          rw [SortedMap.mem_keys_erase, KeyMap.find_erase]
          have hkey : doc.key = key := key_of_getDocument hdoc
          have hdoc' : doc ∈ s.documents := mem_documents.mpr (by rw [hkey]; exact hdoc)
          constructor
          · rintro ⟨hd, hne⟩
            have hdk : d.key ≠ key := by
              intro hdk
              have hsome : s.index.find d.key = some d := (s.coherent d).mp hd
              have heq : some doc = some d := by
                rw [← hdoc, ← hdk]
                exact hsome
              rw [Option.some.inj heq] at hne
              exact hne (q.comparator.compare_self d)
            rw [if_neg hdk]
            exact (s.coherent d).mp hd
          · intro h
            split_ifs at h with hdk
            refine ⟨(s.coherent d).mpr h, ?_⟩
            intro heq
            exact hdk ((q.key_of_compare_eq heq).symm.trans hkey) }

theorem getDocument_erase (s : DocumentSet q) (j key : K) :
    (s.erase key).getDocument j = if j = key then none else s.getDocument j := by
  unfold erase
  split
  next hnone =>
    split_ifs with hj
    · rw [hj, hnone]
    · rfl
  next => exact KeyMap.find_erase s.index j key

theorem getDocument_erase_self (s : DocumentSet q) (key : K) :
    (s.erase key).getDocument key = none := by
  rw [getDocument_erase, if_pos rfl]

def insert (s : DocumentSet q) : Option (Document K D) → DocumentSet q
  | none => s
  | some doc =>
      let removed := s.erase doc.key
      { index := removed.index.insert doc.key doc
        sortedSet := removed.sortedSet.insert doc ()
        keyed := by
          intro k d h
          rw [KeyMap.find_insert] at h
          split_ifs at h with hk
          · rw [← Option.some.inj h, hk]
          · exact removed.keyed k d h
        coherent := by
          intro d
          have hnone : removed.index.find doc.key = none := getDocument_erase_self s doc.key
          have hnew : removed.sortedSet.contains doc = false := by
            rw [Bool.eq_false_iff]
            intro hin
            obtain ⟨e, he, hcmp⟩ := SortedMap.contains_iff.mp hin
            have hfind := (removed.coherent e).mp he
            rw [← q.key_of_compare_eq hcmp, hnone] at hfind
            cases hfind
          rw [SortedMap.mem_keys_insert hnew, KeyMap.find_insert, removed.coherent d]
          by_cases hkey : d.key = doc.key
          · rw [if_pos hkey, hkey, hnone]
            simp [eq_comm]
          · rw [if_neg hkey]
            refine or_iff_right ?_
            rintro rfl
            exact hkey rfl }

theorem getDocument_insert (s : DocumentSet q) (j : K) (doc : Document K D) :
    (s.insert (some doc)).getDocument j = if j = doc.key then some doc else s.getDocument j := by
  have h := KeyMap.find_insert (s.erase doc.key).index j doc.key doc
  have herase := getDocument_erase s j doc.key
  unfold getDocument at *
  rw [insert, h, herase]
  split_ifs <;> rfl

/-- Two sets of one query are told apart by the documents they answer with. -/
theorem ext_getDocument {s t : DocumentSet q} (h : ∀ k, s.getDocument k = t.getDocument k) :
    s = t := by
  have hindex : s.index = t.index := KeyMap.ext_find h
  have hkeys : s.sortedSet.keys = t.sortedSet.keys := by
    refine q.comparator.eq_of_sorted s.sortedSet.keys_sorted t.sortedSet.keys_sorted ?_
    intro d
    rw [s.coherent d, t.coherent d, hindex]
  have hentries : s.sortedSet.entries = t.sortedSet.entries :=
    List.map_injective_iff.mpr (fun a b hab => Prod.ext hab rfl) hkeys
  obtain ⟨i, ⟨es, hes⟩, _, _⟩ := s
  obtain ⟨j, ⟨fs, hfs⟩, _, _⟩ := t
  cases hindex
  cases hentries
  rfl

theorem documents_sorted (s : DocumentSet q) :
    s.documents.Pairwise fun a b => q.comparator.compare a b = .lt := s.sortedSet.keys_sorted

theorem documents_nodup (s : DocumentSet q) : s.documents.Nodup := s.sortedSet.keys_nodup

/-- The two halves have the same size. -/
theorem length_documents (s : DocumentSet q) : s.documents.length = s.size := by
  have hnodup : (s.index.entries.map Prod.snd).Nodup := by
    have hkeys : ((s.index.entries.map Prod.snd).map Document.key) = s.index.keys := by
      rw [List.map_map, SortedMap.keys]
      refine List.map_congr_left ?_
      intro e he
      exact s.keyed e.1 e.2 (KeyMap.mem_entries.mp he)
    exact List.Nodup.of_map Document.key (hkeys ▸ s.index.keys_nodup)
  have hperm : s.documents.Perm (s.index.entries.map Prod.snd) := by
    refine (List.perm_ext_iff_of_nodup s.documents_nodup hnodup).mpr ?_
    intro d
    rw [mem_documents, List.mem_map]
    constructor
    · intro h
      exact ⟨(d.key, d), KeyMap.mem_entries.mpr h, rfl⟩
    · rintro ⟨e, he, rfl⟩
      have hfind := KeyMap.mem_entries.mp he
      rw [s.keyed e.1 e.2 hfind]
      exact hfind
  rw [hperm.length_eq, List.length_map]
  rfl

theorem eq_of_key_eq {s : DocumentSet q} {d e : Document K D} (hd : d ∈ s.documents)
    (he : e ∈ s.documents) (h : d.key = e.key) : d = e := by
  rw [mem_documents, h] at hd
  rw [mem_documents, hd] at he
  exact Option.some.inj he

theorem keys_nodup (s : DocumentSet q) : (s.documents.map Document.key).Nodup :=
  List.Nodup.map_on (fun _ hd _ he h => eq_of_key_eq hd he h) s.documents_nodup

theorem mem_documents_erase {s : DocumentSet q} {d : Document K D} {key : K} :
    d ∈ (s.erase key).documents ↔ d ∈ s.documents ∧ d.key ≠ key := by
  rw [mem_documents, mem_documents, getDocument_erase]
  split_ifs with hk
  · simp [hk]
  · simp [hk]

theorem getDocument_getLastDocument {s : DocumentSet q} {d : Document K D}
    (h : s.getLastDocument = some d) : s.getDocument d.key = some d :=
  mem_documents.mp (List.mem_of_getLast? h)

theorem getDocument_getFirstDocument {s : DocumentSet q} {d : Document K D}
    (h : s.getFirstDocument = some d) : s.getDocument d.key = some d :=
  mem_documents.mp (List.mem_of_head? h)

/-- Removing an end of the order leaves the rest of it. -/
theorem documents_erase_of_perm {s : DocumentSet q} {d : Document K D} {rest : List (Document K D)}
    (hperm : s.documents.Perm (d :: rest)) (hsub : rest.Sublist s.documents) :
    (s.erase d.key).documents = rest := by
  refine q.comparator.eq_of_sorted (s.erase d.key).documents_sorted
    (s.documents_sorted.sublist hsub) ?_
  intro e
  have hnot : d ∉ rest := (List.nodup_cons.mp (hperm.nodup_iff.mp s.documents_nodup)).1
  rw [mem_documents_erase, hperm.mem_iff, List.mem_cons]
  constructor
  · rintro ⟨rfl | he, hk⟩
    · exact (hk rfl).elim
    · exact he
  · intro he
    refine ⟨.inr he, ?_⟩
    intro hk
    have hd : d ∈ s.documents := hperm.mem_iff.mpr List.mem_cons_self
    exact hnot (eq_of_key_eq (hsub.subset he) hd hk ▸ he)

theorem documents_erase_last {s : DocumentSet q} {d : Document K D}
    (h : s.getLastDocument = some d) : (s.erase d.key).documents = s.documents.dropLast := by
  obtain ⟨front, hfront⟩ := List.getLast?_eq_some_iff.mp h
  refine documents_erase_of_perm ?_ (List.dropLast_sublist _)
  rw [hfront, List.dropLast_concat]
  exact List.perm_append_singleton d front

theorem documents_erase_first {s : DocumentSet q} {d : Document K D}
    (h : s.getFirstDocument = some d) : (s.erase d.key).documents = s.documents.tail := by
  obtain ⟨back, hback⟩ := List.head?_eq_some_iff.mp h
  refine documents_erase_of_perm ?_ (List.tail_sublist _)
  rw [hback, List.tail_cons]

end DocumentSet

end YouRoute
