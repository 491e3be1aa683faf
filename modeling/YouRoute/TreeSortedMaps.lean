import YouRoute.LlrbErasure
import Mathlib.Algebra.Ring.Nat
import Mathlib.Data.Nat.Log

/-!
# Sorted maps kept as trees

Over any sequence of insertions and erasures the tree stays valid, so its depth
is at most twice the logarithm of its size, and from left to right it holds what
a sorted list would hold after the same changes. Whether a key is there, and
which place it has, is then read off along one way down the tree.
-/

namespace YouRoute.TreeSortedMaps

open LlrbNodes LlrbNode LlrbTrees LlrbErasure

variable {K V : Type*} (c : Comparator K)

/-- The greatest number of entries on a way down. -/
def depth : LlrbNode K V → ℕ
  | .empty _ => 0
  | .node _ _ _ l r => (depth l ⊔ depth r) + 1

section depth

variable {k : Color} {h : ℕ} {t : LlrbNode K V}

/-- Red nodes at most double the black ones, and one more red node may be on top. -/
theorem depth_le (ht : Valid k h t) : depth t ≤ 2 * h + if k = .red then 1 else 0 := by
  induction ht with
  | empty => exact Nat.zero_le _
  | red hl hr hn ihl ihr =>
      simp only [reduceCtorEq, if_false, if_true, depth] at ihl ihr ⊢
      have hmax := max_le ihl ihr
      omega
  | @black k h n e l r hl hr hn ihl ihr =>
      simp only [reduceCtorEq, if_false, depth] at ihr ⊢
      have hl' : depth l ≤ 2 * h + 1 := by
        refine ihl.trans ?_
        split_ifs <;> omega
      have hmax := max_le hl' (ihr.trans (Nat.le_succ _))
      omega

theorem two_pow_le_size (ht : Valid k h t) : 2 ^ h ≤ t.size + 1 := by
  induction ht with
  | empty => exact le_rfl
  | red hl hr hn ihl ihr =>
      rw [size_node, hn]
      omega
  | black hl hr hn ihl ihr =>
      rw [size_node, hn, Nat.pow_succ]
      omega

theorem depth_le_log (ht : Valid .black h t) : depth t ≤ 2 * Nat.log 2 (t.size + 1) := by
  have hlog : h ≤ Nat.log 2 (t.size + 1) :=
    Nat.le_log_of_pow_le Nat.one_lt_two (two_pow_le_size ht)
  have hdepth : depth t ≤ 2 * h := depth_le ht
  omega

end depth

/-- A valid tree with a black root whose keys ascend from left to right. -/
structure WellFormed (t : LlrbNode K V) : Prop where
  valid : ∃ h, Valid .black h t
  sorted : t.toList.Pairwise fun a b => c.compare a.1 b.1 = .lt

def applyTree (t : LlrbNode K V) : SortedMap.Change K V → LlrbNode K V
  | .insert k v => t.insert c k v
  | .erase k => t.erase c k

def runTree (changes : List (SortedMap.Change K V)) : LlrbNode K V :=
  changes.foldl (applyTree c) (.empty .black)

section run

variable {c} {t : LlrbNode K V}

theorem WellFormed.empty : WellFormed c (.empty .black : LlrbNode K V) :=
  ⟨⟨0, .empty⟩, List.Pairwise.nil⟩

theorem WellFormed.insert (ht : WellFormed c t) (k : K) (v : V) :
    WellFormed c (t.insert c k v) := by
  obtain ⟨⟨h, hv⟩, hs⟩ := ht
  refine ⟨insert_valid c k v hv, ?_⟩
  rw [toList_insert c k v hv.measured hs]
  exact SortedList.insert_sorted c k v hs

theorem WellFormed.erase (ht : WellFormed c t) (k : K) : WellFormed c (t.erase c k) := by
  obtain ⟨⟨h, hv⟩, hs⟩ := ht
  obtain ⟨hvalid, hlist⟩ := erase_spec c k hv hs
  refine ⟨hvalid, ?_⟩
  rw [hlist]
  exact hs.filter _

theorem WellFormed.apply (ht : WellFormed c t) (change : SortedMap.Change K V) :
    WellFormed c (applyTree c t change) := by
  cases change with
  | insert k v => exact ht.insert k v
  | erase k => exact ht.erase k

theorem toList_apply {m : SortedMap c V} (ht : WellFormed c t) (hm : t.toList = m.entries)
    (change : SortedMap.Change K V) :
    (applyTree c t change).toList = (m.apply change).entries := by
  obtain ⟨⟨h, hv⟩, hs⟩ := ht
  cases change with
  | insert k v =>
      rw [applyTree, toList_insert c k v hv.measured hs, hm]
      rfl
  | erase k =>
      rw [applyTree, (erase_spec c k hv hs).2, hm]
      rfl

theorem run_spec (changes : List (SortedMap.Change K V)) {m : SortedMap c V}
    (ht : WellFormed c t) (hm : t.toList = m.entries) :
    WellFormed c (changes.foldl (applyTree c) t) ∧
      (changes.foldl (applyTree c) t).toList = (changes.foldl SortedMap.apply m).entries := by
  induction changes generalizing t m with
  | nil => exact ⟨ht, hm⟩
  | cons change changes ih => exact ih (ht.apply change) (toList_apply ht hm change)

theorem WellFormed.size_eq (ht : WellFormed c t) : t.size = t.toList.length := by
  obtain ⟨h, hv⟩ := ht.valid
  exact hv.measured.size_eq

theorem WellFormed.depth_le (ht : WellFormed c t) :
    depth t ≤ 2 * Nat.log 2 (t.toList.length + 1) := by
  obtain ⟨h, hv⟩ := ht.valid
  rw [← ht.size_eq]
  exact depth_le_log hv

variable (c)

theorem run_holds (changes : List (SortedMap.Change K V)) :
    WellFormed c (runTree c changes) ∧
      (runTree c changes).toList = (SortedMap.run c changes).entries :=
  run_spec changes .empty rfl

end run

def contains (key : K) : LlrbNode K V → Bool
  | .empty _ => false
  | .node _ n e l r =>
      if n = 0 then false
      else
        match c.compare key e.1 with
        | .eq => true
        | .lt => contains key l
        | .gt => contains key r

/-- The place of a key, where so many entries have been passed on the left. -/
def findIndex (key : K) : ℕ → LlrbNode K V → Option ℕ
  | _, .empty _ => none
  | pruned, .node _ n e l r =>
      if n = 0 then none
      else
        match c.compare key e.1 with
        | .eq => some (pruned + l.size)
        | .lt => findIndex key pruned l
        | .gt => findIndex key (pruned + (l.size + 1)) r

section lookup

variable {t : LlrbNode K V}

theorem contains_eq (key : K) (ht : Measured t)
    (hs : t.toList.Pairwise fun a b => c.compare a.1 b.1 = .lt) :
    contains c key t = (SortedList.find c key t.toList).isSome := by
  induction t with
  | empty k => rfl
  | node k n e l r ihl ihr =>
      obtain ⟨hsl, hsr, hle, her⟩ := (SortedList.sorted_append_cons c).mp hs
      rw [contains, if_neg ht.size_ne_zero, toList_node, SortedList.find_append,
        SortedList.find, Option.isSome_or]
      cases hc : c.compare key e.1 with
      | eq => simp
      | lt =>
          have hnone := SortedList.find_eq_none c (SortedList.ne_of_lt c her hc)
          simp [ihl ht.left hsl, hnone]
      | gt =>
          have hlt := c.gt_iff_lt.mp hc
          have hnone := SortedList.find_eq_none c (SortedList.ne_of_gt c hle hlt)
          simp [ihr ht.right hsr, hnone]

theorem findIndex_eq (key : K) (ht : Measured t)
    (hs : t.toList.Pairwise fun a b => c.compare a.1 b.1 = .lt) (pruned : ℕ) :
    findIndex c key pruned t = (SortedList.place c key t.toList).map (pruned + ·) := by
  induction t generalizing pruned with
  | empty k => rfl
  | node k n e l r ihl ihr =>
      obtain ⟨hsl, hsr, hle, her⟩ := (SortedList.sorted_append_cons c).mp hs
      have hl : l.size = l.toList.length := ht.left.size_eq
      rw [findIndex, if_neg ht.size_ne_zero, toList_node, SortedList.place_append]
      cases hc : c.compare key e.1 with
      | eq =>
          have hnone : SortedList.place c key l.toList = none := by
            refine SortedList.place_eq_none c ?_
            intro x hx heq
            have hlt := hle x hx
            rw [← c.compare_congr_left heq, hc] at hlt
            cases hlt
          rw [hnone, SortedList.place_cons_of_eq c hc, hl]
          simp
      | lt =>
          have hne : c.compare key e.1 ≠ .eq := by simp [hc]
          have hnone := SortedList.place_eq_none c (SortedList.ne_of_lt c her hc)
          dsimp only
          rw [ihl ht.left hsl, SortedList.place_cons_of_ne c hne, hnone]
          simp
      | gt =>
          have hne : c.compare key e.1 ≠ .eq := by simp [hc]
          have hnone :=
            SortedList.place_eq_none c (SortedList.ne_of_gt c hle (c.gt_iff_lt.mp hc))
          dsimp only
          rw [ihr ht.right hsr, hnone, SortedList.place_cons_of_ne c hne, hl]
          simp only [Option.none_or, Option.map_map]
          congr 1
          funext i
          simp only [Function.comp_apply]
          omega

end lookup

/-- Whatever is inserted and erased, the tree is balanced and holds the sorted entries. -/
theorem tree_holds_map (changes : List (SortedMap.Change K V)) :
    (∃ h, Valid .black h (runTree c changes)) ∧
      (runTree c changes).toList = (SortedMap.run c changes).entries ∧
        (runTree c changes).size = (SortedMap.run c changes).size ∧
          depth (runTree c changes) ≤ 2 * Nat.log 2 ((SortedMap.run c changes).size + 1) := by
  obtain ⟨ht, hlist⟩ := run_holds c changes
  have hsize := ht.size_eq
  have hdepth := ht.depth_le
  rw [hlist] at hsize hdepth
  exact ⟨ht.valid, hlist, hsize, hdepth⟩

end YouRoute.TreeSortedMaps
