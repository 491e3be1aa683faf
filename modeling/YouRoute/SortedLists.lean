import Mathlib.Order.Compare
import Mathlib.Order.Std
import Mathlib.Data.List.Forall2

/-!
# Maps kept as sorted lists

A comparator orders whatever it tells apart. A sorted map is a list of entries
whose keys ascend strictly, so a key stands in it at most once. Insertion keeps
the key that is already there and replaces its value. Two maps whose keys are
told apart by equality are equal as soon as they answer every lookup alike.
-/

/-- A comparison function that orders totally whatever it does not find the same. -/
structure Comparator (α : Type*) where
  compare : α → α → Ordering
  trans : Std.TransCmp compare

attribute [instance] Comparator.trans

namespace Comparator

variable {α β : Type*}

/-- The comparison of a linear order; it finds only equal values the same. -/
def ofLinearOrder (α : Type*) [LinearOrder α] : Comparator α where
  compare := Ord.compare
  trans := inferInstance

@[simp] theorem ofLinearOrder_eq [LinearOrder α] {a b : α} :
    (ofLinearOrder α).compare a b = .eq ↔ a = b := compare_eq_iff_eq

/-- Compare values by what a function reads off them. -/
def on (c : Comparator β) (f : α → β) : Comparator α where
  compare a b := c.compare (f a) (f b)
  trans :=
    { eq_swap := Std.OrientedCmp.eq_swap
      isLE_trans := Std.TransCmp.isLE_trans }

@[simp] theorem on_compare (c : Comparator β) (f : α → β) (a b : α) :
    (c.on f).compare a b = c.compare (f a) (f b) := rfl

variable (c : Comparator α)

@[simp] theorem compare_self (a : α) : c.compare a a = .eq := Std.ReflCmp.compare_self

theorem gt_iff_lt {a b : α} : c.compare a b = .gt ↔ c.compare b a = .lt :=
  Std.OrientedCmp.gt_iff_lt

theorem eq_comm {a b : α} : c.compare a b = .eq ↔ c.compare b a = .eq := Std.OrientedCmp.eq_comm

theorem lt_irrefl {a : α} : c.compare a a ≠ .lt := by simp

theorem lt_asymm {a b : α} (h : c.compare a b = .lt) : c.compare b a ≠ .lt := by
  intro h'
  rw [c.gt_iff_lt.mpr h] at h'
  cases h'

/-- What compares the same compares alike with anything else. -/
theorem compare_congr_left {a b : α} (h : c.compare a b = .eq) (d : α) :
    c.compare a d = c.compare b d := Std.TransCmp.congr_left h

theorem compare_congr_right {a b : α} (h : c.compare a b = .eq) (d : α) :
    c.compare d a = c.compare d b := Std.TransCmp.congr_right h

/-- Strictly ascending lists with the same members are the same list. -/
theorem eq_of_sorted {xs ys : List α} (hxs : xs.Pairwise fun a b => c.compare a b = .lt)
    (hys : ys.Pairwise fun a b => c.compare a b = .lt) (h : ∀ a, a ∈ xs ↔ a ∈ ys) : xs = ys := by
  have hnodup : ∀ {zs : List α}, (zs.Pairwise fun a b => c.compare a b = .lt) → zs.Nodup := by
    intro zs hzs
    refine hzs.imp ?_
    rintro a b hab rfl
    exact c.lt_irrefl hab
  have hperm : xs.Perm ys := (List.perm_ext_iff_of_nodup (hnodup hxs) (hnodup hys)).mpr h
  refine hperm.eq_of_pairwise ?_ hxs hys
  intro a b _ _ hab hba
  exact (c.lt_asymm hab hba).elim

end Comparator

/-- A list of entries in strictly ascending order of their keys. -/
structure SortedMap {K : Type*} (c : Comparator K) (V : Type*) where
  entries : List (K × V)
  sorted : entries.Pairwise fun a b => c.compare a.1 b.1 = .lt

namespace SortedList

variable {K V : Type*} (c : Comparator K)

/-- Put an entry in its place; an entry of the same key keeps its key. -/
def insert (k : K) (v : V) : List (K × V) → List (K × V)
  | [] => [(k, v)]
  | e :: es =>
      match c.compare k e.1 with
      | .lt => (k, v) :: e :: es
      | .eq => (e.1, v) :: es
      | .gt => e :: insert k v es

def erase (k : K) (es : List (K × V)) : List (K × V) :=
  es.filter fun e => c.compare k e.1 != .eq

def find (k : K) : List (K × V) → Option V
  | [] => none
  | e :: es => if c.compare k e.1 = .eq then some e.2 else find k es

theorem exists_key_of_mem_insert {k : K} {v : V} {es : List (K × V)} {e : K × V}
    (h : e ∈ insert c k v es) : e.1 = k ∨ ∃ d ∈ es, d.1 = e.1 := by
  induction es with
  | nil =>
      rw [insert, List.mem_singleton] at h
      exact .inl (h ▸ rfl)
  | cons d ds ih =>
      rw [insert] at h
      split at h
      · rcases List.mem_cons.mp h with rfl | h
        · exact .inl rfl
        · exact .inr ⟨e, h, rfl⟩
      · rcases List.mem_cons.mp h with rfl | h
        · exact .inr ⟨d, List.mem_cons_self, rfl⟩
        · exact .inr ⟨e, List.mem_cons_of_mem _ h, rfl⟩
      · rcases List.mem_cons.mp h with rfl | h
        · exact .inr ⟨e, List.mem_cons_self, rfl⟩
        · rcases ih h with hk | ⟨f, hf, hfe⟩
          · exact .inl hk
          · exact .inr ⟨f, List.mem_cons_of_mem _ hf, hfe⟩

theorem insert_sorted (k : K) (v : V) {es : List (K × V)}
    (h : es.Pairwise fun a b => c.compare a.1 b.1 = .lt) :
    (insert c k v es).Pairwise fun a b => c.compare a.1 b.1 = .lt := by
  induction es with
  | nil => exact List.pairwise_singleton _ _
  | cons e es ih =>
      obtain ⟨he, hes⟩ := List.pairwise_cons.mp h
      rw [insert]
      split
      next hlt =>
        refine List.pairwise_cons.mpr ⟨?_, h⟩
        intro d hd
        rcases List.mem_cons.mp hd with rfl | hd
        · exact hlt
        · exact Std.TransCmp.lt_trans hlt (he d hd)
      next => exact List.pairwise_cons.mpr ⟨he, hes⟩
      next hgt =>
        refine List.pairwise_cons.mpr ⟨?_, ih hes⟩
        intro d hd
        rcases exists_key_of_mem_insert c hd with hk | ⟨f, hf, hfd⟩
        · rw [hk]
          exact c.gt_iff_lt.mp hgt
        · rw [← hfd]
          exact he f hf

theorem find_insert (j k : K) (v : V) (es : List (K × V)) :
    find c j (insert c k v es) = if c.compare j k = .eq then some v else find c j es := by
  induction es with
  | nil => rfl
  | cons e es ih =>
      rw [insert]
      split
      next => rfl
      next heq =>
        have hjk : c.compare j k = c.compare j e.1 := c.compare_congr_right heq j
        rw [find, find, hjk]
        split_ifs <;> rfl
      next hgt =>
        rw [find, find, ih]
        by_cases hje : c.compare j e.1 = .eq
        · have hjk : c.compare j k ≠ .eq := by
            intro hjk
            rw [← c.compare_congr_left hjk, hje] at hgt
            cases hgt
          rw [if_pos hje, if_pos hje, if_neg hjk]
        · rw [if_neg hje, if_neg hje]

theorem find_erase (j k : K) (es : List (K × V)) :
    find c j (erase c k es) = if c.compare j k = .eq then none else find c j es := by
  induction es with
  | nil => split_ifs <;> rfl
  | cons e es ih =>
      rw [erase, List.filter_cons]
      by_cases hke : c.compare k e.1 = .eq
      · have hjk : c.compare j k = c.compare j e.1 := c.compare_congr_right hke j
        rw [if_neg (by simp [hke])]
        change find c j (erase c k es) = _
        rw [ih, find, hjk]
        split_ifs <;> rfl
      · rw [if_pos (by simp [hke]), find]
        change (if _ then _ else find c j (erase c k es)) = _
        rw [ih, find]
        by_cases hje : c.compare j e.1 = .eq
        · have hjk : c.compare j k ≠ .eq := by
            intro hjk
            rw [← c.compare_congr_left hjk] at hke
            exact hke hje
          rw [if_pos hje, if_pos hje, if_neg hjk]
        · rw [if_neg hje, if_neg hje]

theorem find_eq_some_iff {k : K} {v : V} {es : List (K × V)}
    (h : es.Pairwise fun a b => c.compare a.1 b.1 = .lt) :
    find c k es = some v ↔ ∃ e ∈ es, c.compare k e.1 = .eq ∧ e.2 = v := by
  induction es with
  | nil => simp [find]
  | cons e es ih =>
      obtain ⟨he, hes⟩ := List.pairwise_cons.mp h
      rw [find, List.exists_mem_cons_iff]
      by_cases hke : c.compare k e.1 = .eq
      · rw [if_pos hke]
        have hnone : ¬∃ d ∈ es, c.compare k d.1 = .eq ∧ d.2 = v := by
          intro ⟨d, hd, hkd, _⟩
          have hlt := he d hd
          rw [← c.compare_congr_left hke, hkd] at hlt
          cases hlt
        simp [hke, hnone]
      · rw [if_neg hke, ih hes]
        simp [hke]

/-- A key that is new to the list is the one key that its insertion adds. -/
theorem mem_keys_insert {j k : K} {v : V} {es : List (K × V)}
    (h : ∀ e ∈ es, c.compare k e.1 ≠ .eq) :
    j ∈ (insert c k v es).map Prod.fst ↔ j = k ∨ j ∈ es.map Prod.fst := by
  induction es with
  | nil => simp [insert]
  | cons e es ih =>
      obtain ⟨he, hes⟩ := List.forall_mem_cons.mp h
      rw [insert]
      split
      next => simp
      next heq => exact (he heq).elim
      next =>
        rw [List.map_cons, List.mem_cons, List.map_cons, List.mem_cons]
        rw [show j ∈ (insert c k v es).map Prod.fst ↔ _ from ih hes]
        exact or_left_comm

theorem find_of_mem {es : List (K × V)} (h : es.Pairwise fun a b => c.compare a.1 b.1 = .lt)
    {e : K × V} (he : e ∈ es) : find c e.1 es = some e.2 :=
  (find_eq_some_iff c h).mpr ⟨e, he, c.compare_self e.1, rfl⟩

/-- An entry goes to the left of one whose key is greater. -/
theorem insert_append_left {k : K} {v : V} {e : K × V} (h : c.compare k e.1 = .lt)
    (xs ys : List (K × V)) :
    insert c k v (xs ++ e :: ys) = insert c k v xs ++ e :: ys := by
  induction xs with
  | nil => simp [insert, h]
  | cons x xs ih =>
      rw [List.cons_append, insert, insert]
      split
      · rfl
      · rfl
      · rw [ih]
        rfl

theorem insert_append_right {k : K} {v : V} {xs : List (K × V)}
    (h : ∀ x ∈ xs, c.compare x.1 k = .lt) (ys : List (K × V)) :
    insert c k v (xs ++ ys) = xs ++ insert c k v ys := by
  induction xs with
  | nil => rfl
  | cons x xs ih =>
      obtain ⟨hx, hxs⟩ := List.forall_mem_cons.mp h
      have hgt : c.compare k x.1 = .gt := c.gt_iff_lt.mpr hx
      rw [List.cons_append, insert, hgt]
      exact congrArg _ (ih hxs)

theorem erase_append (k : K) (xs ys : List (K × V)) :
    erase c k (xs ++ ys) = erase c k xs ++ erase c k ys := List.filter_append _ _

/-- Where no entry has the key there is nothing to erase. -/
theorem erase_eq_self {k : K} {xs : List (K × V)} (h : ∀ x ∈ xs, c.compare k x.1 ≠ .eq) :
    erase c k xs = xs := by
  refine List.filter_eq_self.mpr ?_
  intro x hx
  exact bne_iff_ne.mpr (h x hx)

theorem erase_cons_of_eq {k : K} {e : K × V} (h : c.compare k e.1 = .eq) (es : List (K × V)) :
    erase c k (e :: es) = erase c k es := List.filter_cons_of_neg (by simp [h])

theorem erase_cons_of_ne {k : K} {e : K × V} (h : c.compare k e.1 ≠ .eq) (es : List (K × V)) :
    erase c k (e :: es) = e :: erase c k es := List.filter_cons_of_pos (by simp [h])

/-- The entries on either side of one that they surround in order. -/
theorem sorted_append_cons {e : K × V} {xs ys : List (K × V)} :
    ((xs ++ e :: ys).Pairwise fun a b => c.compare a.1 b.1 = .lt) ↔
      (xs.Pairwise fun a b => c.compare a.1 b.1 = .lt) ∧
        (ys.Pairwise fun a b => c.compare a.1 b.1 = .lt) ∧
          (∀ x ∈ xs, c.compare x.1 e.1 = .lt) ∧ ∀ y ∈ ys, c.compare e.1 y.1 = .lt := by
  rw [List.pairwise_append, List.pairwise_cons]
  constructor
  · intro ⟨hxs, ⟨hey, hys⟩, hxy⟩
    exact ⟨hxs, hys, fun x hx => hxy x hx e List.mem_cons_self, hey⟩
  · intro ⟨hxs, hys, hxe, hey⟩
    refine ⟨hxs, ⟨hey, hys⟩, ?_⟩
    intro x hx y hy
    rcases List.mem_cons.mp hy with rfl | hy
    · exact hxe x hx
    · exact Std.TransCmp.lt_trans (hxe x hx) (hey y hy)

/-- No key on the one side of an entry is the same as a key on its other side. -/
theorem ne_of_lt {k : K} {e : K × V} {ys : List (K × V)}
    (h : ∀ y ∈ ys, c.compare e.1 y.1 = .lt) (hk : c.compare k e.1 = .lt) :
    ∀ y ∈ ys, c.compare k y.1 ≠ .eq := by
  intro y hy heq
  have hlt := Std.TransCmp.lt_trans hk (h y hy)
  rw [heq] at hlt
  cases hlt

theorem ne_of_gt {k : K} {e : K × V} {xs : List (K × V)}
    (h : ∀ x ∈ xs, c.compare x.1 e.1 = .lt) (hk : c.compare e.1 k = .lt) :
    ∀ x ∈ xs, c.compare k x.1 ≠ .eq := by
  intro x hx heq
  have hlt := Std.TransCmp.lt_trans (h x hx) hk
  rw [c.eq_comm.mp heq] at hlt
  cases hlt

/-- A key before the entry is erased on its left. -/
theorem erase_append_left {k : K} {e : K × V} {xs ys : List (K × V)}
    (hs : (xs ++ e :: ys).Pairwise fun a b => c.compare a.1 b.1 = .lt)
    (h : c.compare k e.1 = .lt) :
    erase c k (xs ++ e :: ys) = erase c k xs ++ e :: ys := by
  have hey := ((sorted_append_cons c).mp hs).2.2.2
  have hne : c.compare k e.1 ≠ .eq := by simp [h]
  rw [erase_append, erase_cons_of_ne c hne, erase_eq_self c (ne_of_lt c hey h)]

theorem erase_append_right {k : K} {e : K × V} {xs ys : List (K × V)}
    (hs : (xs ++ e :: ys).Pairwise fun a b => c.compare a.1 b.1 = .lt)
    (h : c.compare e.1 k = .lt) :
    erase c k (xs ++ e :: ys) = xs ++ e :: erase c k ys := by
  have hxe := ((sorted_append_cons c).mp hs).2.2.1
  have hne : c.compare k e.1 ≠ .eq := by simp [c.gt_iff_lt.mpr h]
  rw [erase_append, erase_cons_of_ne c hne, erase_eq_self c (ne_of_gt c hxe h)]

theorem erase_append_same {k : K} {e : K × V} {xs ys : List (K × V)}
    (hs : (xs ++ e :: ys).Pairwise fun a b => c.compare a.1 b.1 = .lt)
    (h : c.compare k e.1 = .eq) : erase c k (xs ++ e :: ys) = xs ++ ys := by
  obtain ⟨-, -, hxe, hey⟩ := (sorted_append_cons c).mp hs
  rw [erase_append, erase_cons_of_eq c h]
  congr 1
  · refine erase_eq_self c ?_
    intro x hx heq
    have hlt := hxe x hx
    rw [← c.compare_congr_right h, c.eq_comm.mp heq] at hlt
    cases hlt
  · refine erase_eq_self c ?_
    intro y hy heq
    have hlt := hey y hy
    rw [← c.compare_congr_left h, heq] at hlt
    cases hlt

/-- The entries whose keys do not come before the given one. -/
def fromKey (k : K) (es : List (K × V)) : List (K × V) :=
  es.filter fun e => c.compare e.1 k != .lt

theorem fromKey_append (k : K) (xs ys : List (K × V)) :
    fromKey c k (xs ++ ys) = fromKey c k xs ++ fromKey c k ys := List.filter_append _ _

theorem fromKey_eq_self {k : K} {xs : List (K × V)} (h : ∀ x ∈ xs, c.compare x.1 k ≠ .lt) :
    fromKey c k xs = xs := by
  refine List.filter_eq_self.mpr ?_
  intro x hx
  exact bne_iff_ne.mpr (h x hx)

theorem fromKey_eq_nil {k : K} {xs : List (K × V)} (h : ∀ x ∈ xs, c.compare x.1 k = .lt) :
    fromKey c k xs = [] := by
  refine List.filter_eq_nil_iff.mpr ?_
  intro x hx hne
  exact bne_iff_ne.mp hne (h x hx)

/-- An entry that does not come before the key is the start of the tail with it. -/
theorem fromKey_cons {k : K} {e : K × V} {es : List (K × V)}
    (hs : (e :: es).Pairwise fun a b => c.compare a.1 b.1 = .lt)
    (h : c.compare e.1 k ≠ .lt) : fromKey c k (e :: es) = e :: es := by
  refine fromKey_eq_self c ?_
  intro x hx hlt
  rcases List.mem_cons.mp hx with rfl | hx
  · exact h hlt
  · exact h (Std.TransCmp.lt_trans ((List.pairwise_cons.mp hs).1 x hx) hlt)

/-- A key after the entry is looked for on its right. -/
theorem fromKey_append_cons {k : K} {e : K × V} {xs ys : List (K × V)}
    (hs : (xs ++ e :: ys).Pairwise fun a b => c.compare a.1 b.1 = .lt)
    (h : c.compare e.1 k = .lt) : fromKey c k (xs ++ e :: ys) = fromKey c k ys := by
  have hxe := ((sorted_append_cons c).mp hs).2.2.1
  have hxs : fromKey c k xs = [] :=
    fromKey_eq_nil c fun x hx => Std.TransCmp.lt_trans (hxe x hx) h
  rw [fromKey_append, hxs, List.nil_append]
  exact List.filter_cons_of_neg (by simp [h])

/-- Where a key stands, the entries from it on are its own and those after it. -/
theorem fromKey_of_eq {k : K} {e : K × V} {xs ys : List (K × V)}
    (hs : (xs ++ e :: ys).Pairwise fun a b => c.compare a.1 b.1 = .lt)
    (h : c.compare k e.1 = .eq) : fromKey c k (xs ++ e :: ys) = e :: ys := by
  have hxe := ((sorted_append_cons c).mp hs).2.2.1
  have hxs : fromKey c k xs = [] := by
    refine fromKey_eq_nil c ?_
    intro x hx
    exact (c.compare_congr_right h x.1).trans (hxe x hx)
  have hne : c.compare e.1 k ≠ .lt := by
    rw [c.eq_comm.mp h]
    exact Ordering.noConfusion
  rw [fromKey_append, hxs, List.nil_append]
  exact fromKey_cons c (List.pairwise_append.mp hs).2.1 hne

/-- A key before the entry is looked for on its left. -/
theorem fromKey_of_lt {k : K} {e : K × V} {xs ys : List (K × V)}
    (hs : (xs ++ e :: ys).Pairwise fun a b => c.compare a.1 b.1 = .lt)
    (h : c.compare k e.1 = .lt) :
    fromKey c k (xs ++ e :: ys) = fromKey c k xs ++ e :: ys := by
  have hne : c.compare e.1 k ≠ .lt := c.lt_asymm h
  rw [fromKey_append, fromKey_cons c (List.pairwise_append.mp hs).2.1 hne]

/-- The entries from one key on and before another. -/
def between (a b : K) (es : List (K × V)) : List (K × V) :=
  es.filter fun e => c.compare e.1 a != .lt && c.compare e.1 b == .lt

theorem between_eq_nil {a b : K} (h : c.compare a b ≠ .lt) (es : List (K × V)) :
    between c a b es = [] := by
  refine List.filter_eq_nil_iff.mpr ?_
  intro e _ he
  obtain ⟨hea, heb⟩ := Bool.and_eq_true_iff.mp he
  have hlt : c.compare e.1 b = .lt := eq_of_beq heb
  cases hc : c.compare a e.1 with
  | lt => exact h (Std.TransCmp.lt_trans hc hlt)
  | eq => exact h ((c.compare_congr_left hc b).trans hlt)
  | gt => exact bne_iff_ne.mp hea (c.gt_iff_lt.mp hc)

theorem fromKey_eq_between_append {a b : K} (hab : c.compare a b = .lt) {es : List (K × V)}
    (hs : es.Pairwise fun a b => c.compare a.1 b.1 = .lt) :
    fromKey c a es = between c a b es ++ fromKey c b es := by
  induction es with
  | nil => rfl
  | cons e es ih =>
      have hes := (List.pairwise_cons.mp hs).2
      by_cases heb : c.compare e.1 b = .lt
      · have hb : fromKey c b (e :: es) = fromKey c b es :=
          List.filter_cons_of_neg (by simp [heb])
        by_cases hea : c.compare e.1 a = .lt
        · have ha : fromKey c a (e :: es) = fromKey c a es :=
            List.filter_cons_of_neg (by simp [hea])
          have hbetween : between c a b (e :: es) = between c a b es :=
            List.filter_cons_of_neg (by simp [hea])
          rw [ha, hb, hbetween, ih hes]
        · have ha : fromKey c a (e :: es) = e :: fromKey c a es :=
            List.filter_cons_of_pos (by simp [hea])
          have hbetween : between c a b (e :: es) = e :: between c a b es :=
            List.filter_cons_of_pos (by simp [hea, heb])
          rw [ha, hb, hbetween, ih hes, List.cons_append]
      · have hea : c.compare e.1 a ≠ .lt := fun hea => heb (Std.TransCmp.lt_trans hea hab)
        have hnil : between c a b (e :: es) = [] := by
          have hself := fromKey_cons c hs heb
          refine List.filter_eq_nil_iff.mpr ?_
          intro x hx hbetween
          rw [← hself] at hx
          have hxb := bne_iff_ne.mp (List.mem_filter.mp hx).2
          exact hxb (eq_of_beq (Bool.and_eq_true_iff.mp hbetween).2)
        rw [fromKey_cons c hs hea, fromKey_cons c hs heb, hnil, List.nil_append]

theorem find_eq_none {k : K} {es : List (K × V)} (h : ∀ e ∈ es, c.compare k e.1 ≠ .eq) :
    find c k es = none := by
  induction es with
  | nil => rfl
  | cons e es ih =>
      obtain ⟨he, hes⟩ := List.forall_mem_cons.mp h
      rw [find, if_neg he, ih hes]

theorem find_append (k : K) (xs ys : List (K × V)) :
    find c k (xs ++ ys) = (find c k xs).or (find c k ys) := by
  induction xs with
  | nil => rfl
  | cons x xs ih =>
      rw [List.cons_append, find, find, ih]
      split_ifs <;> rfl

/-- A key is found where the search for the first one not before it ends. -/
theorem find_eq_fromKey {k : K} {es : List (K × V)}
    (hs : es.Pairwise fun a b => c.compare a.1 b.1 = .lt) :
    find c k es =
      ((fromKey c k es).head?.filter fun e => c.compare k e.1 == .eq).map Prod.snd := by
  induction es with
  | nil => rfl
  | cons e es ih =>
      obtain ⟨he, hes⟩ := List.pairwise_cons.mp hs
      by_cases hlt : c.compare e.1 k = .lt
      · have hdrop : fromKey c k (e :: es) = fromKey c k es :=
          List.filter_cons_of_neg (by simp [hlt])
        rw [find, if_neg (by simp [c.gt_iff_lt.mpr hlt]), hdrop, ih hes]
      · rw [fromKey_cons c hs hlt, find, List.head?_cons, Option.filter_some]
        cases hc : c.compare k e.1 with
        | lt =>
            rw [find_eq_none c (ne_of_lt c he hc)]
            rfl
        | eq => rfl
        | gt => exact (hlt (c.gt_iff_lt.mp hc)).elim

/-- The number of entries before the one with a key. -/
def place (k : K) (es : List (K × V)) : Option ℕ := es.findIdx? fun e => c.compare k e.1 == .eq

theorem place_eq_none {k : K} {es : List (K × V)} (h : ∀ e ∈ es, c.compare k e.1 ≠ .eq) :
    place c k es = none := by
  refine List.findIdx?_eq_none_iff.mpr ?_
  intro e he
  exact beq_false_of_ne (h e he)

theorem place_append (k : K) (xs ys : List (K × V)) :
    place c k (xs ++ ys) = (place c k xs).or ((place c k ys).map (· + xs.length)) :=
  List.findIdx?_append

theorem place_cons_of_eq {k : K} {e : K × V} (h : c.compare k e.1 = .eq) (es : List (K × V)) :
    place c k (e :: es) = some 0 := by
  rw [place, List.findIdx?_cons, if_pos (by simp [h])]

theorem place_cons_of_ne {k : K} {e : K × V} (h : c.compare k e.1 ≠ .eq) (es : List (K × V)) :
    place c k (e :: es) = (place c k es).map (· + 1) := by
  rw [place, List.findIdx?_cons, if_neg (by simp [h])]
  rfl

/-- Entries in the same order, with keys that compare the same and with equal values. -/
def Alike (es fs : List (K × V)) : Prop :=
  List.Forall₂ (fun e f => c.compare e.1 f.1 = .eq ∧ e.2 = f.2) es fs

theorem Alike.refl (es : List (K × V)) : Alike c es es :=
  List.forall₂_same.mpr fun e _ => ⟨c.compare_self e.1, rfl⟩

variable {c}

theorem Alike.append {es fs es' fs' : List (K × V)} (h : Alike c es fs) (h' : Alike c es' fs') :
    Alike c (es ++ es') (fs ++ fs') := List.rel_append h h'

theorem Alike.trans {es fs gs : List (K × V)} (h : Alike c es fs) (h' : Alike c fs gs) :
    Alike c es gs := by
  induction h generalizing gs with
  | nil => exact h'
  | cons hef h ih =>
      cases h' with
      | cons hfg h' =>
          exact .cons ⟨(c.compare_congr_left hef.1 _).trans hfg.1, hef.2.trans hfg.2⟩ (ih h')

theorem Alike.exists_mem {es fs : List (K × V)} (h : Alike c es fs) {e : K × V}
    (he : e ∈ es) : ∃ f ∈ fs, c.compare e.1 f.1 = .eq := by
  induction h with
  | nil => cases he
  | @cons d f es fs hdf h ih =>
      rcases List.mem_cons.mp he with rfl | he
      · exact ⟨f, List.mem_cons_self, hdf.1⟩
      · obtain ⟨g, hg, heg⟩ := ih he
        exact ⟨g, List.mem_cons_of_mem _ hg, heg⟩

theorem Alike.sorted {es fs : List (K × V)} (h : Alike c es fs)
    (hs : fs.Pairwise fun a b => c.compare a.1 b.1 = .lt) :
    es.Pairwise fun a b => c.compare a.1 b.1 = .lt := by
  induction h with
  | nil => exact List.Pairwise.nil
  | @cons e f es fs hef h ih =>
      obtain ⟨hf, hfs⟩ := List.pairwise_cons.mp hs
      refine List.pairwise_cons.mpr ⟨?_, ih hfs⟩
      intro d hd
      obtain ⟨g, hg, hdg⟩ := Alike.exists_mem h hd
      rw [c.compare_congr_left hef.1, c.compare_congr_right hdg]
      exact hf g hg

theorem Alike.insert {es fs : List (K × V)} (h : Alike c es fs) (k : K) (v : V) :
    Alike c (SortedList.insert c k v es) (SortedList.insert c k v fs) := by
  induction h with
  | nil => exact Alike.refl c _
  | @cons e f es fs hef h ih =>
      rw [SortedList.insert, SortedList.insert, ← c.compare_congr_right hef.1 k]
      cases c.compare k e.1 with
      | lt => exact .cons ⟨c.compare_self k, rfl⟩ (.cons hef h)
      | eq => exact .cons ⟨hef.1, rfl⟩ h
      | gt => exact .cons hef ih

theorem Alike.erase {es fs : List (K × V)} (h : Alike c es fs) (k : K) :
    Alike c (SortedList.erase c k es) (SortedList.erase c k fs) := by
  induction h with
  | nil => exact Alike.refl c _
  | @cons e f es fs hef h ih =>
      by_cases hk : c.compare k e.1 = .eq
      · have hk' : c.compare k f.1 = .eq := (c.compare_congr_right hef.1 k).symm.trans hk
        rw [erase_cons_of_eq c hk, erase_cons_of_eq c hk']
        exact ih
      · have hk' : c.compare k f.1 ≠ .eq := fun hf => hk ((c.compare_congr_right hef.1 k).trans hf)
        rw [erase_cons_of_ne c hk, erase_cons_of_ne c hk']
        exact .cons hef ih

theorem Alike.find_eq {es fs : List (K × V)} (h : Alike c es fs) (k : K) :
    SortedList.find c k es = SortedList.find c k fs := by
  induction h with
  | nil => rfl
  | @cons e f es fs hef h ih =>
      rw [SortedList.find, SortedList.find, c.compare_congr_right hef.1 k, hef.2, ih]

theorem Alike.place_eq {es fs : List (K × V)} (h : Alike c es fs) (k : K) :
    place c k es = place c k fs := by
  induction h with
  | nil => rfl
  | @cons e f es fs hef h ih =>
      have hk := c.compare_congr_right hef.1 k
      by_cases heq : c.compare k e.1 = .eq
      · rw [place_cons_of_eq c heq, place_cons_of_eq c (hk ▸ heq)]
      · rw [place_cons_of_ne c heq, place_cons_of_ne c (hk ▸ heq), ih]

end SortedList

namespace SortedMap

variable {K V : Type*} {c : Comparator K}

def empty : SortedMap c V where
  entries := []
  sorted := List.Pairwise.nil

def insert (m : SortedMap c V) (k : K) (v : V) : SortedMap c V where
  entries := SortedList.insert c k v m.entries
  sorted := SortedList.insert_sorted c k v m.sorted

def erase (m : SortedMap c V) (k : K) : SortedMap c V where
  entries := SortedList.erase c k m.entries
  sorted := m.sorted.filter _

def find (m : SortedMap c V) (k : K) : Option V := SortedList.find c k m.entries

def contains (m : SortedMap c V) (k : K) : Bool := (m.find k).isSome

def keys (m : SortedMap c V) : List K := m.entries.map Prod.fst

def size (m : SortedMap c V) : ℕ := m.entries.length

theorem find_empty (k : K) : (empty : SortedMap c V).find k = none := rfl

theorem find_insert (m : SortedMap c V) (j k : K) (v : V) :
    (m.insert k v).find j = if c.compare j k = .eq then some v else m.find j :=
  SortedList.find_insert c j k v m.entries

theorem find_erase (m : SortedMap c V) (j k : K) :
    (m.erase k).find j = if c.compare j k = .eq then none else m.find j :=
  SortedList.find_erase c j k m.entries

theorem find_eq_some_iff {m : SortedMap c V} {k : K} {v : V} :
    m.find k = some v ↔ ∃ e ∈ m.entries, c.compare k e.1 = .eq ∧ e.2 = v :=
  SortedList.find_eq_some_iff c m.sorted

theorem find_of_mem {m : SortedMap c V} {e : K × V} (he : e ∈ m.entries) :
    m.find e.1 = some e.2 := SortedList.find_of_mem c m.sorted he

theorem keys_sorted (m : SortedMap c V) : m.keys.Pairwise fun a b => c.compare a b = .lt :=
  List.pairwise_map.mpr m.sorted

theorem keys_nodup (m : SortedMap c V) : m.keys.Nodup := by
  refine m.keys_sorted.imp ?_
  rintro a b hab rfl
  exact c.lt_irrefl hab

theorem contains_iff {m : SortedMap c V} {k : K} :
    m.contains k = true ↔ ∃ j ∈ m.keys, c.compare k j = .eq := by
  rw [contains, Option.isSome_iff_exists]
  simp only [find_eq_some_iff, keys, List.mem_map]
  constructor
  · rintro ⟨v, e, he, hk, -⟩
    exact ⟨e.1, ⟨e, he, rfl⟩, hk⟩
  · rintro ⟨j, ⟨e, he, rfl⟩, hk⟩
    exact ⟨e.2, e, he, hk, rfl⟩

theorem mem_keys_erase {m : SortedMap c V} {j k : K} :
    j ∈ (m.erase k).keys ↔ j ∈ m.keys ∧ c.compare k j ≠ .eq := by
  simp only [keys, erase, SortedList.erase, List.mem_map, List.mem_filter, bne_iff_ne]
  constructor
  · rintro ⟨e, ⟨he, hk⟩, rfl⟩
    exact ⟨⟨e, he, rfl⟩, hk⟩
  · rintro ⟨⟨e, he, rfl⟩, hk⟩
    exact ⟨e, ⟨he, hk⟩, rfl⟩

/-- A key that is new to the map is the one key that its insertion adds. -/
theorem mem_keys_insert {m : SortedMap c V} {j k : K} {v : V} (h : m.contains k = false) :
    j ∈ (m.insert k v).keys ↔ j = k ∨ j ∈ m.keys := by
  refine SortedList.mem_keys_insert c ?_
  intro e he hk
  have hin : m.contains k = true := contains_iff.mpr ⟨e.1, List.mem_map_of_mem he, hk⟩
  rw [h] at hin
  cases hin

theorem mem_entries_iff (hc : ∀ a b, c.compare a b = .eq → a = b) {m : SortedMap c V}
    {e : K × V} : e ∈ m.entries ↔ m.find e.1 = some e.2 := by
  refine ⟨find_of_mem, ?_⟩
  intro h
  obtain ⟨d, hd, hk, hv⟩ := find_eq_some_iff.mp h
  exact (Prod.ext (hc _ _ hk) hv.symm : e = d) ▸ hd

/-- Maps whose comparator finds only equal keys the same are told apart by lookups. -/
theorem ext_find (hc : ∀ a b, c.compare a b = .eq → a = b) {m n : SortedMap c V}
    (h : ∀ k, m.find k = n.find k) : m = n := by
  have hentries : m.entries = n.entries := by
    refine (c.on Prod.fst).eq_of_sorted m.sorted n.sorted ?_
    intro e
    rw [mem_entries_iff hc, mem_entries_iff hc, h]
  cases m
  cases n
  cases hentries
  rfl

/-- One change of a map. -/
inductive Change (K V : Type*)
  | insert (key : K) (value : V)
  | erase (key : K)

def apply (m : SortedMap c V) : Change K V → SortedMap c V
  | .insert k v => m.insert k v
  | .erase k => m.erase k

/-- The map that the changes make of the empty one, in their order. -/
def run (c : Comparator K) (changes : List (Change K V)) : SortedMap c V :=
  changes.foldl apply empty

end SortedMap
