import YouRoute.LlrbIterators

/-!
# Sorted maps that change their representation

A small sorted map is an array of a fixed size, in the order of the keys; before
an insertion into a full array it becomes a tree, and it becomes an array again
when the last entry of the tree is erased. The array never outgrows its size.
Whichever changes are made, lookups cannot tell the map from a sorted list with
the same changes; where two keys compare the same, array and tree may hold
different ones of them, since the array takes over the new key and the tree
keeps the old one.
-/

namespace YouRoute.SortedMaps

open LlrbNodes LlrbNode LlrbTrees TreeSortedMaps LlrbIterators

/-- The most entries that are kept in an array. -/
def kFixedSize : ℕ := 25

/-- The entries before the first one that a test rejects, and those from there on. -/
def splitWhile {T : Type*} (p : T → Bool) (xs : List T) : List T × List T :=
  (xs.takeWhile p, xs.dropWhile p)

theorem splitWhile_cases {T : Type*} (p : T → Bool) (xs : List T) :
    splitWhile p xs = (xs, []) ∧ (∀ x ∈ xs, p x = true) ∨
      ∃ before y after, splitWhile p xs = (before, y :: after) ∧ xs = before ++ y :: after ∧
        p y = false ∧ ∀ x ∈ before, p x = true := by
  induction xs with
  | nil => exact .inl ⟨rfl, by simp⟩
  | cons x xs ih =>
      cases hx : p x with
      | false => exact .inr ⟨[], x, xs, by simp [splitWhile, hx], rfl, hx, by simp⟩
      | true =>
          rw [splitWhile, List.takeWhile_cons_of_pos hx, List.dropWhile_cons_of_pos hx]
          rcases ih with ⟨heq, hall⟩ | ⟨before, y, after, heq, hxs, hy, hbefore⟩
          · obtain ⟨htake, hdrop⟩ := Prod.mk.inj heq
            rw [htake, hdrop]
            exact .inl ⟨rfl, List.forall_mem_cons.mpr ⟨hx, hall⟩⟩
          · obtain ⟨htake, hdrop⟩ := Prod.mk.inj heq
            refine .inr ⟨x :: before, y, after, ?_, ?_, hy, ?_⟩
            · rw [htake, hdrop]
            · rw [hxs, List.cons_append]
            · exact List.forall_mem_cons.mpr ⟨hx, hbefore⟩

structure FixedArray (T : Type*) where
  contents : List T
  size_le : contents.length ≤ kFixedSize

namespace FixedArray

variable {T : Type*}

def empty : FixedArray T := ⟨[], Nat.zero_le _⟩

/-- Appending more than there is room for fails an assertion. -/
def append (a : FixedArray T) (xs : List T) : Option (FixedArray T) :=
  if h : a.contents.length + xs.length ≤ kFixedSize then
    some ⟨a.contents ++ xs, (List.length_append).trans_le h⟩
  else none

theorem append_eq {a : FixedArray T} (xs : List T)
    (h : a.contents.length + xs.length ≤ kFixedSize) :
    ∃ b, a.append xs = some b ∧ b.contents = a.contents ++ xs :=
  ⟨_, dif_pos h, rfl⟩

end FixedArray

structure ArraySortedMap (K V : Type*) where
  array : FixedArray (K × V)

variable {K V : Type*}

namespace ArraySortedMap

def empty : ArraySortedMap K V := ⟨.empty⟩

def entries (a : ArraySortedMap K V) : List (K × V) := a.array.contents

def size (a : ArraySortedMap K V) : ℕ := a.entries.length

/-- A new array to which the parts have been appended in turn. -/
def copyOf (parts : List (List (K × V))) : Option (ArraySortedMap K V) := do
  let copy ← parts.foldlM FixedArray.append FixedArray.empty
  return ⟨copy⟩

variable (c : Comparator K)

/-- The entries before the position of a key and those from there on. -/
def lowerBound (a : ArraySortedMap K V) (key : K) : List (K × V) × List (K × V) :=
  splitWhile (fun e => c.compare e.1 key == .lt) a.entries

def insert [DecidableEq V] (a : ArraySortedMap K V) (key : K) (value : V) :
    Option (ArraySortedMap K V) :=
  match a.lowerBound c key with
  | (before, []) => copyOf [before, [(key, value)], []]
  | (before, e :: after) =>
      if c.compare key e.1 = .eq then
        if value = e.2 then some a else copyOf [before, [(key, value)], after]
      else copyOf [before, [(key, value)], e :: after]

/-- The entries before the one with a key and those from there on. -/
def position (a : ArraySortedMap K V) (key : K) : List (K × V) × List (K × V) :=
  splitWhile (fun e => c.compare key e.1 != .eq) a.entries

def erase (a : ArraySortedMap K V) (key : K) : Option (ArraySortedMap K V) :=
  match a.position c key with
  | (_, []) => some a
  | (before, _ :: after) =>
      if a.size ≤ 1 then some empty else copyOf [before, after]

def find (a : ArraySortedMap K V) (key : K) : Option (K × V) := (a.position c key).2.head?

def contains (a : ArraySortedMap K V) (key : K) : Bool := (a.find c key).isSome

def findIndex (a : ArraySortedMap K V) (key : K) : Option ℕ :=
  match a.position c key with
  | (_, []) => none
  | (before, _ :: _) => some before.length

theorem foldlM_append {parts : List (List (K × V))} {a : FixedArray (K × V)}
    (h : a.contents.length + parts.flatten.length ≤ kFixedSize) :
    ∃ b, parts.foldlM FixedArray.append a = some b ∧
      b.contents = a.contents ++ parts.flatten := by
  induction parts generalizing a with
  | nil => exact ⟨a, rfl, (List.append_nil _).symm⟩
  | cons xs parts ih =>
      rw [List.flatten_cons, List.length_append] at h
      obtain ⟨b, hb, hcontents⟩ := FixedArray.append_eq (a := a) xs (by omega)
      have hlen : b.contents.length + parts.flatten.length ≤ kFixedSize := by
        rw [hcontents, List.length_append]
        omega
      obtain ⟨d, hd, hflat⟩ := ih hlen
      refine ⟨d, ?_, ?_⟩
      · rw [List.foldlM_cons, hb]
        exact hd
      · rw [hflat, hcontents, List.flatten_cons, List.append_assoc]

theorem copyOf_eq (parts : List (List (K × V))) (h : parts.flatten.length ≤ kFixedSize) :
    ∃ b : ArraySortedMap K V, copyOf parts = some b ∧ b.entries = parts.flatten := by
  obtain ⟨b, hb, hcontents⟩ :=
    foldlM_append (a := .empty) (h.trans' (Nat.zero_add _).le)
  refine ⟨⟨b⟩, ?_, hcontents⟩
  rw [copyOf, hb]
  rfl

section spec

variable {c} {a : ArraySortedMap K V}

theorem insert_spec [DecidableEq V] (key : K) (value : V) (ha : a.size < kFixedSize) :
    ∃ b, a.insert c key value = some b ∧
      SortedList.Alike c b.entries (SortedList.insert c key value a.entries) := by
  rw [size] at ha
  rw [insert, lowerBound]
  rcases splitWhile_cases (fun e : K × V => c.compare e.1 key == .lt) a.entries with
    ⟨heq, hall⟩ | ⟨before, e, after, heq, hsplit, he, hbefore⟩
  · rw [heq]
    obtain ⟨b, hb, hentries⟩ := copyOf_eq [a.entries, [(key, value)], []]
      (by simpa using Nat.succ_le_of_lt ha)
    have hlt : ∀ x ∈ a.entries, c.compare x.1 key = .lt := fun x hx => eq_of_beq (hall x hx)
    have hinsert := SortedList.insert_append_right c (v := value) hlt []
    rw [List.append_nil] at hinsert
    refine ⟨b, hb, ?_⟩
    rw [hinsert, hentries]
    simpa [SortedList.insert] using SortedList.Alike.refl c (a.entries ++ [(key, value)])
  · rw [heq]
    have hlt : ∀ x ∈ before, c.compare x.1 key = .lt := fun x hx => eq_of_beq (hbefore x hx)
    have hge : c.compare e.1 key ≠ .lt := ne_of_beq_false he
    rw [hsplit, List.length_append, List.length_cons] at ha
    rw [hsplit, SortedList.insert_append_right c hlt, SortedList.insert]
    cases hc : c.compare key e.1 with
    | lt =>
        obtain ⟨b, hb, hentries⟩ := copyOf_eq [before, [(key, value)], e :: after]
          (by simp; omega)
        refine ⟨b, by simp [hc, hb], ?_⟩
        rw [hentries]
        simpa using SortedList.Alike.refl c (before ++ (key, value) :: e :: after)
    | eq =>
        by_cases hv : value = e.2
        · refine ⟨a, by simp [hc, hv], ?_⟩
          rw [hsplit, hv]
          exact SortedList.Alike.refl c _
        · obtain ⟨b, hb, hentries⟩ := copyOf_eq [before, [(key, value)], after]
            (by simp; omega)
          refine ⟨b, by simp [hc, hv, hb], ?_⟩
          rw [hentries]
          have hentry : SortedList.Alike c ((key, value) :: after) ((e.1, value) :: after) :=
            .cons ⟨hc, rfl⟩ (SortedList.Alike.refl c after)
          simpa using (SortedList.Alike.refl c before).append hentry
    | gt => exact (hge (c.gt_iff_lt.mp hc)).elim

theorem erase_spec (key : K) (hs : a.entries.Pairwise fun a b => c.compare a.1 b.1 = .lt) :
    ∃ b, a.erase c key = some b ∧ b.entries = SortedList.erase c key a.entries := by
  rw [erase, position]
  rcases splitWhile_cases (fun e : K × V => c.compare key e.1 != .eq) a.entries with
    ⟨heq, hall⟩ | ⟨before, e, after, heq, hsplit, he, hbefore⟩
  · rw [heq]
    have hne : ∀ x ∈ a.entries, c.compare key x.1 ≠ .eq := fun x hx => bne_iff_ne.mp (hall x hx)
    exact ⟨a, rfl, (SortedList.erase_eq_self c hne).symm⟩
  · rw [heq]
    have hc : c.compare key e.1 = .eq := by simpa using he
    have hsize : a.size = before.length + (after.length + 1) := by
      rw [size, hsplit, List.length_append, List.length_cons]
    have hle : a.size ≤ kFixedSize := a.array.size_le
    rw [hsplit] at hs
    rw [hsplit, SortedList.erase_append_same c hs hc]
    by_cases hone : a.size ≤ 1
    · have hbefore' : before = [] := List.eq_nil_of_length_eq_zero (by omega)
      have hafter : after = [] := List.eq_nil_of_length_eq_zero (by omega)
      refine ⟨empty, by simp [hone], ?_⟩
      rw [hbefore', hafter]
      rfl
    · obtain ⟨b, hb, hentries⟩ := copyOf_eq [before, after] (by simp; omega)
      refine ⟨b, by simp [hone, hb], ?_⟩
      rw [hentries]
      simp

theorem find_eq (key : K) :
    (a.find c key).map Prod.snd = SortedList.find c key a.entries := by
  rw [find, position]
  rcases splitWhile_cases (fun e : K × V => c.compare key e.1 != .eq) a.entries with
    ⟨heq, hall⟩ | ⟨before, e, after, heq, hsplit, he, hbefore⟩
  · rw [heq]
    have hne : ∀ x ∈ a.entries, c.compare key x.1 ≠ .eq := fun x hx => bne_iff_ne.mp (hall x hx)
    rw [SortedList.find_eq_none c hne]
    rfl
  · have hc : c.compare key e.1 = .eq := by simpa using he
    have hne : ∀ x ∈ before, c.compare key x.1 ≠ .eq := fun x hx => bne_iff_ne.mp (hbefore x hx)
    rw [heq, hsplit, SortedList.find_append, SortedList.find_eq_none c hne, SortedList.find,
      if_pos hc]
    rfl

theorem contains_eq (key : K) :
    a.contains c key = (SortedList.find c key a.entries).isSome := by
  rw [← find_eq, Option.isSome_map, contains]

theorem findIndex_eq (key : K) : a.findIndex c key = SortedList.place c key a.entries := by
  rw [findIndex, position]
  rcases splitWhile_cases (fun e : K × V => c.compare key e.1 != .eq) a.entries with
    ⟨heq, hall⟩ | ⟨before, e, after, heq, hsplit, he, hbefore⟩
  · rw [heq]
    have hne : ∀ x ∈ a.entries, c.compare key x.1 ≠ .eq := fun x hx => bne_iff_ne.mp (hall x hx)
    exact (SortedList.place_eq_none c hne).symm
  · have hc : c.compare key e.1 = .eq := by simpa using he
    have hne : ∀ x ∈ before, c.compare key x.1 ≠ .eq := fun x hx => bne_iff_ne.mp (hbefore x hx)
    rw [heq, hsplit, SortedList.place_append, SortedList.place_eq_none c hne,
      SortedList.place_cons_of_eq c hc]
    simp

end spec

end ArraySortedMap

/-- A sorted map in one of its two representations. -/
inductive TaggedMap (K V : Type*)
  | array (map : ArraySortedMap K V)
  | tree (root : LlrbNode K V)

namespace TaggedMap

variable (c : Comparator K)

def empty : TaggedMap K V := .array .empty

def entries : TaggedMap K V → List (K × V)
  | .array a => a.entries
  | .tree t => t.toList

/-- The tree of the entries of an array, inserted one after the other. -/
def create (es : List (K × V)) : LlrbNode K V :=
  es.foldl (fun t e => t.insert c e.1 e.2) (.empty .black)

def insert [DecidableEq V] (m : TaggedMap K V) (key : K) (value : V) :
    Option (TaggedMap K V) :=
  match m with
  | .array a =>
      if kFixedSize ≤ a.size then some (.tree ((create c a.entries).insert c key value))
      else (a.insert c key value).map .array
  | .tree t => some (.tree (t.insert c key value))

def erase (m : TaggedMap K V) (key : K) : Option (TaggedMap K V) :=
  match m with
  | .array a => (a.erase c key).map .array
  | .tree t =>
      let result := t.erase c key
      some (if result.isEmpty then empty else .tree result)

def size : TaggedMap K V → ℕ
  | .array a => a.size
  | .tree t => t.size

def contains (m : TaggedMap K V) (key : K) : Bool :=
  match m with
  | .array a => a.contains c key
  | .tree t => TreeSortedMaps.contains c key t

def get (m : TaggedMap K V) (key : K) : Option V :=
  match m with
  | .array a => (a.find c key).map Prod.snd
  | .tree t => (LlrbIterators.find c t key).get.map Prod.snd

def findIndex (m : TaggedMap K V) (key : K) : Option ℕ :=
  match m with
  | .array a => a.findIndex c key
  | .tree t => TreeSortedMaps.findIndex c key 0 t

def apply [DecidableEq V] (m : TaggedMap K V) : SortedMap.Change K V → Option (TaggedMap K V)
  | .insert k v => m.insert c k v
  | .erase k => m.erase c k

/-- The map that the changes make of the empty one, unless an assertion fails. -/
def run [DecidableEq V] (changes : List (SortedMap.Change K V)) : Option (TaggedMap K V) :=
  changes.foldlM (apply c) empty

section create

variable {c}

/-- Entries inserted in their order stand in the tree in that order. -/
theorem create_from {es : List (K × V)} {t : LlrbNode K V} (ht : WellFormed c t)
    (hs : (t.toList ++ es).Pairwise fun a b => c.compare a.1 b.1 = .lt) :
    WellFormed c (es.foldl (fun t e => t.insert c e.1 e.2) t) ∧
      (es.foldl (fun t e => t.insert c e.1 e.2) t).toList = t.toList ++ es := by
  induction es generalizing t with
  | nil => exact ⟨ht, (List.append_nil _).symm⟩
  | cons e es ih =>
      obtain ⟨h, hv⟩ := ht.valid
      have hlt : ∀ x ∈ t.toList, c.compare x.1 e.1 = .lt := fun x hx =>
        (List.pairwise_append.mp hs).2.2 x hx e List.mem_cons_self
      have hlist : (t.insert c e.1 e.2).toList = t.toList ++ [e] := by
        have hinsert := SortedList.insert_append_right c (v := e.2) hlt []
        rw [List.append_nil] at hinsert
        rw [toList_insert c e.1 e.2 hv.measured ht.sorted, hinsert]
        rfl
      have happend : t.toList ++ e :: es = (t.insert c e.1 e.2).toList ++ es := by
        rw [hlist, List.append_assoc]
        rfl
      rw [happend] at hs ⊢
      exact ih (ht.insert e.1 e.2) hs

theorem create_spec {es : List (K × V)}
    (hs : es.Pairwise fun a b => c.compare a.1 b.1 = .lt) :
    WellFormed c (create c es) ∧ (create c es).toList = es := create_from .empty hs

end create

/-- The array is in order, or the tree is well formed and not empty. -/
def Ordered : TaggedMap K V → Prop
  | .array a => a.entries.Pairwise fun a b => c.compare a.1 b.1 = .lt
  | .tree t => WellFormed c t ∧ t.toList ≠ []

/-- The map stands for a sorted list, up to keys that compare the same. -/
structure Represents (m : TaggedMap K V) (s : SortedMap c V) : Prop where
  ordered : m.Ordered c
  alike : SortedList.Alike c m.entries s.entries

section run

variable {c} {m : TaggedMap K V} {s : SortedMap c V}

theorem insert_ne_nil (k : K) (v : V) (es : List (K × V)) : SortedList.insert c k v es ≠ [] := by
  cases es with
  | nil => exact List.cons_ne_nil _ _
  | cons e es =>
      rw [SortedList.insert]
      split <;> exact List.cons_ne_nil _ _

theorem represents_tree_insert {t : LlrbNode K V} (ht : WellFormed c t)
    (h : SortedList.Alike c t.toList s.entries) (key : K) (value : V) :
    Represents c (.tree (t.insert c key value)) (s.insert key value) := by
  obtain ⟨i, hv⟩ := ht.valid
  have hlist := toList_insert c key value hv.measured ht.sorted
  refine ⟨⟨ht.insert key value, ?_⟩, ?_⟩
  · rw [hlist]
    exact insert_ne_nil key value _
  · rw [entries, hlist]
    exact h.insert key value

theorem Represents.insert [DecidableEq V] (h : Represents c m s) (key : K) (value : V) :
    ∃ m', m.insert c key value = some m' ∧ Represents c m' (s.insert key value) := by
  obtain ⟨hord, halike⟩ := h
  cases m with
  | array a =>
      by_cases hfull : kFixedSize ≤ a.size
      · obtain ⟨hcreate, hlist⟩ := create_spec hord
        rw [TaggedMap.insert, if_pos hfull]
        have halike' : SortedList.Alike c (create c a.entries).toList s.entries := by
          rw [hlist]
          exact halike
        exact ⟨_, rfl, represents_tree_insert hcreate halike' key value⟩
      · obtain ⟨b, hb, hentries⟩ := ArraySortedMap.insert_spec (c := c) key value
          (Nat.lt_of_not_le hfull)
        rw [TaggedMap.insert, if_neg hfull, hb]
        have h' : SortedList.Alike c b.entries (s.insert key value).entries :=
          hentries.trans (halike.insert key value)
        exact ⟨_, rfl, h'.sorted (s.insert key value).sorted, h'⟩
  | tree t => exact ⟨_, rfl, represents_tree_insert hord.1 halike key value⟩

theorem Represents.erase (h : Represents c m s) (key : K) :
    ∃ m', m.erase c key = some m' ∧ Represents c m' (s.erase key) := by
  obtain ⟨hord, halike⟩ := h
  cases m with
  | array a =>
      obtain ⟨b, hb, hentries⟩ := ArraySortedMap.erase_spec key hord
      rw [TaggedMap.erase, hb]
      have h' : SortedList.Alike c b.entries (s.erase key).entries :=
        hentries ▸ halike.erase key
      exact ⟨_, rfl, h'.sorted (s.erase key).sorted, h'⟩
  | tree t =>
      obtain ⟨⟨i, hv⟩, hs⟩ := hord.1
      have herase := hord.1.erase key
      have hlist := (LlrbErasure.erase_spec c key hv hs).2
      have h' : SortedList.Alike c (t.erase c key).toList (s.erase key).entries :=
        hlist ▸ halike.erase key
      obtain ⟨j, hv'⟩ := herase.valid
      rw [TaggedMap.erase]
      cases hempty : (t.erase c key).isEmpty with
      | true =>
          rw [hv'.measured.isEmpty_iff.mp hempty] at h'
          refine ⟨_, rfl, ?_⟩
          rw [if_pos rfl]
          exact ⟨List.Pairwise.nil, h'⟩
      | false =>
          refine ⟨_, rfl, ?_⟩
          rw [if_neg Bool.false_ne_true]
          exact ⟨⟨herase, hv'.measured.toList_ne_nil hempty⟩, h'⟩

theorem Represents.run [DecidableEq V] (h : Represents c m s)
    (changes : List (SortedMap.Change K V)) :
    ∃ m', changes.foldlM (apply c) m = some m' ∧
      Represents c m' (changes.foldl SortedMap.apply s) := by
  induction changes generalizing m s with
  | nil => exact ⟨m, rfl, h⟩
  | cons change changes ih =>
      obtain ⟨m', hm', h'⟩ : ∃ m', m.apply c change = some m' ∧
          Represents c m' (s.apply change) := by
        cases change with
        | insert k v => exact h.insert k v
        | erase k => exact h.erase k
      obtain ⟨m'', hm'', h''⟩ := ih h'
      refine ⟨m'', ?_, h''⟩
      rw [List.foldlM_cons, hm']
      exact hm''

theorem Represents.size_eq (h : Represents c m s) : m.size = s.size := by
  have hlen : m.entries.length = s.entries.length := h.alike.length_eq
  cases m with
  | array a => exact hlen
  | tree t => exact h.ordered.1.size_eq.trans hlen

theorem Represents.get_eq (h : Represents c m s) (key : K) : m.get c key = s.find key := by
  rw [SortedMap.find, ← h.alike.find_eq key]
  cases m with
  | array a => exact ArraySortedMap.find_eq key
  | tree t =>
      obtain ⟨⟨i, hv⟩, hs⟩ := h.ordered.1
      exact find_get c key hv.measured hs

theorem Represents.contains_eq (h : Represents c m s) (key : K) :
    m.contains c key = s.contains key := by
  rw [SortedMap.contains, SortedMap.find, ← h.alike.find_eq key]
  cases m with
  | array a => exact ArraySortedMap.contains_eq key
  | tree t =>
      obtain ⟨⟨i, hv⟩, hs⟩ := h.ordered.1
      exact TreeSortedMaps.contains_eq c key hv.measured hs

theorem Represents.findIndex_eq (h : Represents c m s) (key : K) :
    m.findIndex c key = SortedList.place c key s.entries := by
  rw [← h.alike.place_eq key]
  cases m with
  | array a => exact ArraySortedMap.findIndex_eq key
  | tree t =>
      obtain ⟨⟨i, hv⟩, hs⟩ := h.ordered.1
      rw [findIndex, TreeSortedMaps.findIndex_eq c key hv.measured hs]
      simp [entries]

end run

/-- No sequence of changes fails an assertion, and no lookup tells the map that it makes from
the sorted list with the same changes. -/
theorem map_looks_like_list [DecidableEq V] (c : Comparator K)
    (changes : List (SortedMap.Change K V)) :
    ∃ m, run c changes = some m ∧ m.Ordered c ∧
      SortedList.Alike c m.entries (SortedMap.run c changes).entries ∧
        m.size = (SortedMap.run c changes).size ∧
          ∀ key, m.get c key = (SortedMap.run c changes).find key ∧
            m.contains c key = (SortedMap.run c changes).contains key ∧
              m.findIndex c key =
                SortedList.place c key (SortedMap.run c changes).entries := by
  have hempty : Represents c (empty : TaggedMap K V) SortedMap.empty :=
    ⟨List.Pairwise.nil, SortedList.Alike.refl c []⟩
  obtain ⟨m, hm, h⟩ := hempty.run changes
  refine ⟨m, hm, h.ordered, h.alike, h.size_eq, ?_⟩
  intro key
  exact ⟨h.get_eq key, h.contains_eq key, h.findIndex_eq key⟩

end TaggedMap

end YouRoute.SortedMaps
