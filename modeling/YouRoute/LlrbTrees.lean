import YouRoute.LlrbNodes

/-!
# The balance of a sorted map's tree

In a valid tree a red node has black children, only the left child of a black
node may be red, every way down to an empty node passes equally many black
nodes, and each node stores its true size. Insertion may leave a red node with a
red left child for its parent to repair. Erasure moves down only into nodes that
can lose an entry without getting shorter: red ones and those whose left child
is red. One further shape arises on the way, a black node that leans to the
right, and there the key that is sought never lies on the left.
-/

namespace YouRoute.LlrbTrees

open LlrbNodes LlrbNode

variable {K V : Type*}

/-- A tree whose nodes all store how many entries there are at them and beneath. -/
def Measured : LlrbNode K V → Prop
  | .empty _ => True
  | .node _ n _ l r => n = l.size + 1 + r.size ∧ Measured l ∧ Measured r

namespace Measured

variable {t : LlrbNode K V}

theorem left (ht : Measured t) : Measured t.left := by
  cases t with
  | empty k => exact ht
  | node k n e l r => exact ht.2.1

theorem right (ht : Measured t) : Measured t.right := by
  cases t with
  | empty k => exact ht
  | node k n e l r => exact ht.2.2

theorem size_ne_zero {k : Color} {n : ℕ} {e : K × V} {l r : LlrbNode K V}
    (ht : Measured (.node k n e l r)) : n ≠ 0 := by
  have hn : n = l.size + 1 + r.size := ht.1
  omega

theorem size_eq (ht : Measured t) : t.size = t.toList.length := by
  induction t with
  | empty k => rfl
  | node k n e l r ihl ihr =>
      have hn : n = l.size + 1 + r.size := ht.1
      have hl : l.size = l.toList.length := ihl ht.left
      have hr : r.size = r.toList.length := ihr ht.right
      rw [size_node, toList_node, List.length_append, List.length_cons]
      omega

theorem isEmpty_iff (ht : Measured t) : t.isEmpty = true ↔ t.toList = [] := by
  rw [isEmpty, beq_iff_eq, ht.size_eq, List.length_eq_zero_iff]

theorem toList_ne_nil (ht : Measured t) (hne : t.isEmpty = false) : t.toList ≠ [] := by
  intro h
  rw [ht.isEmpty_iff.mpr h] at hne
  cases hne

end Measured

/-- A balanced tree with the colour of its root and the black nodes on every way down. -/
inductive Valid : Color → ℕ → LlrbNode K V → Prop
  | empty : Valid .black 0 (.empty .black)
  | red {h n : ℕ} {e : K × V} {l r : LlrbNode K V} :
      Valid .black h l → Valid .black h r → n = l.size + 1 + r.size →
        Valid .red h (.node .red n e l r)
  | black {k : Color} {h n : ℕ} {e : K × V} {l r : LlrbNode K V} :
      Valid k h l → Valid .black h r → n = l.size + 1 + r.size →
        Valid .black (h + 1) (.node .black n e l r)

/-- A red node whose left child is red too. -/
inductive Leaning : ℕ → LlrbNode K V → Prop
  | node {h n : ℕ} {e : K × V} {l r : LlrbNode K V} :
      Valid .red h l → Valid .black h r → n = l.size + 1 + r.size →
        Leaning h (.node .red n e l r)

/-- A black node with the given entry whose right child alone is red. -/
inductive Tilted : ℕ → K × V → LlrbNode K V → Prop
  | node {h n : ℕ} {e : K × V} {l r : LlrbNode K V} :
      Valid .black h l → Valid .red h r → n = l.size + 1 + r.size →
        Tilted (h + 1) e (.node .black n e l r)

namespace Valid

variable {k j : Color} {h n : ℕ} {e : K × V} {t l r : LlrbNode K V}

theorem color_eq (ht : Valid k h t) : t.color = k := by
  cases ht <;> rfl

theorem red_eq_true (ht : Valid .red h t) : t.red = true := by
  rw [LlrbNode.red, ht.color_eq]
  rfl

theorem red_eq_false (ht : Valid .black h t) : t.red = false := by
  rw [LlrbNode.red, ht.color_eq]
  rfl

theorem left_red_eq_false (ht : Valid .red h t) : t.left.red = false := by
  cases ht with
  | red hl hr hn => exact hl.red_eq_false

theorem eq_red (ht : Valid k h t) (hred : t.red = true) : k = .red := by
  rw [LlrbNode.red, ht.color_eq] at hred
  exact eq_of_beq hred

theorem measured (ht : Valid k h t) : Measured t := by
  induction ht with
  | empty => exact trivial
  | red hl hr hn ihl ihr => exact ⟨hn, ihl, ihr⟩
  | black hl hr hn ihl ihr => exact ⟨hn, ihl, ihr⟩

theorem isEmpty_of_red (ht : Valid .red h t) : t.isEmpty = false := by
  cases ht with
  | red hl hr hn =>
      rw [isEmpty, size, hn]
      exact beq_false_of_ne (by omega)

theorem isEmpty_of_black (ht : Valid .black (h + 1) t) : t.isEmpty = false := by
  cases ht with
  | black hl hr hn =>
      rw [isEmpty, size, hn]
      exact beq_false_of_ne (by omega)

theorem eq_empty (ht : Valid .black 0 t) : t = .empty .black := by
  cases ht
  rfl

/-- A red node may be painted black, and then counts on the way down. -/
theorem blacken (ht : Valid .red h t) : Valid .black (h + 1) (t.setColor .black) := by
  cases ht with
  | red hl hr hn => exact .black hl hr hn

theorem redden (ht : Valid .black (h + 1) t) (hl : t.left.red = false) :
    Valid .red h (t.setColor .red) := by
  cases ht with
  | @black k _ _ _ _ _ hl' hr hn =>
      cases k with
      | black => exact .red hl' hr hn
      | red =>
          have hred : _ = true := hl'.red_eq_true
          rw [left, hred] at hl
          cases hl

end Valid

section fixUp

variable {k j : Color} {h n m : ℕ} {e f : K × V} {l r s : LlrbNode K V}

/-- A node without a red right child and without two red nodes on its left gets its size set. -/
theorem fixUp_eq (hr : r.red = false) (hl : l.red = true → l.left.red = false) :
    (LlrbNode.node k n e l r).fixUp = .node k (l.size + 1 + r.size) e l r := by
  cases hred : l.red with
  | false => simp [fixUp, hr, hred]
  | true => simp [fixUp, hr, hred, hl hred]

theorem fixUp_both (hl : l.red = true) (hll : l.left.red = false) (hr : r.red = true) :
    (LlrbNode.node k n e l r).fixUp =
      (LlrbNode.node k (l.size + 1 + r.size) e l r).flipColor := by
  simp [fixUp, hl, hr, hll]

theorem fixUp_right (hl : l.red = false) (hr : r.red = false) :
    (LlrbNode.node k n e l (.node .red m f s r)).fixUp =
      .node k (l.size + 1 + m) f (.node .red (l.size + 1 + s.size) e l s) r := by
  simp [fixUp, hl, hr]

theorem fixUp_left (hl : l.red = true) (hr : r.red = false) :
    (LlrbNode.node k n e (.node .red m f l s) r).fixUp =
      (LlrbNode.node k (m + 1 + r.size) f l
        (.node .red (s.size + 1 + r.size) e s r)).flipColor := by
  simp [fixUp, hl, hr]

theorem fixUp_red (hl : Valid .black h l) (hr : Valid .black h r) :
    Valid .red h (LlrbNode.node .red n e l r).fixUp := by
  rw [fixUp_eq hr.red_eq_false (by simp [hl.red_eq_false])]
  exact .red hl hr rfl

theorem fixUp_red_left (hl : Valid .red h l) (hr : Valid .black h r) :
    Leaning h (LlrbNode.node .red n e l r).fixUp := by
  rw [fixUp_eq hr.red_eq_false fun _ => hl.left_red_eq_false]
  exact .node hl hr rfl

theorem fixUp_red_right (hl : Valid .black h l) (hr : Valid .red h r) :
    Leaning h (LlrbNode.node .red n e l r).fixUp := by
  cases hr with
  | red hrl hrr hm =>
      rw [fixUp_right hl.red_eq_false hrr.red_eq_false]
      refine .node (.red hl hrl rfl) hrr ?_
      rw [hm, size_node]
      omega

/-- Above two balanced children a black node is repaired; two red ones make it red. -/
theorem fixUp_black (hl : Valid k h l) (hr : Valid j h r) :
    Valid (if k = .red ∧ j = .red then .red else .black) (h + 1)
      (LlrbNode.node .black n e l r).fixUp := by
  cases j with
  | black =>
      rw [if_neg (by simp), fixUp_eq hr.red_eq_false]
      · exact .black hl hr rfl
      · intro hred
        cases k with
        | black => exact absurd hred (by simp [hl.red_eq_false])
        | red => exact hl.left_red_eq_false
  | red =>
      cases k with
      | black =>
          cases hr with
          | red hrl hrr hm =>
              rw [if_neg (by simp), fixUp_right hl.red_eq_false hrr.red_eq_false]
              refine .black (.red hl hrl rfl) hrr ?_
              rw [hm, size_node]
              omega
      | red =>
          rw [if_pos ⟨rfl, rfl⟩, fixUp_both hl.red_eq_true hl.left_red_eq_false hr.red_eq_true]
          rw [flipColor_node, hl.color_eq, hr.color_eq]
          refine .red hl.blacken hr.blacken ?_
          rw [size_setColor, size_setColor]

theorem fixUp_leaning (hl : Leaning h l) (hr : Valid .black h r) :
    Valid .red (h + 1) (LlrbNode.node .black n e l r).fixUp := by
  cases hl with
  | node hll hlr hm =>
      rw [fixUp_left hll.red_eq_true hr.red_eq_false, flipColor_node, hll.color_eq]
      refine .red hll.blacken (.black hlr hr rfl) ?_
      rw [hm, size_setColor, size_setColor, size_node]
      omega

end fixUp

section insert

variable (c : Comparator K) {k : Color} {h : ℕ} {t : LlrbNode K V}

theorem innerInsert_valid (key : K) (value : V) (ht : Valid k h t) :
    (∃ j, Valid j h (t.innerInsert c key value)) ∨
      k = .red ∧ Leaning h (t.innerInsert c key value) := by
  induction ht with
  | empty => exact .inl ⟨.red, .red .empty .empty rfl⟩
  | @red h n e l r hl hr hn ihl ihr =>
      have hpos : n ≠ 0 := by omega
      rw [innerInsert, if_neg hpos]
      cases hc : c.compare e.1 key with
      | gt =>
          rcases ihl with ⟨j, hj⟩ | ⟨hred, -⟩
          · cases j with
            | black => exact .inl ⟨.red, fixUp_red hj hr⟩
            | red => exact .inr ⟨rfl, fixUp_red_left hj hr⟩
          · cases hred
      | lt =>
          rcases ihr with ⟨j, hj⟩ | ⟨hred, -⟩
          · cases j with
            | black => exact .inl ⟨.red, fixUp_red hl hj⟩
            | red => exact .inr ⟨rfl, fixUp_red_right hl hj⟩
          · cases hred
      | eq => exact .inl ⟨.red, .red hl hr hn⟩
  | @black k h n e l r hl hr hn ihl ihr =>
      have hpos : n ≠ 0 := by omega
      rw [innerInsert, if_neg hpos]
      cases hc : c.compare e.1 key with
      | gt =>
          rcases ihl with ⟨j, hj⟩ | ⟨-, hlean⟩
          · exact .inl ⟨_, fixUp_black hj hr⟩
          · exact .inl ⟨.red, fixUp_leaning hlean hr⟩
      | lt =>
          rcases ihr with ⟨j, hj⟩ | ⟨hred, -⟩
          · exact .inl ⟨_, fixUp_black hl hj⟩
          · cases hred
      | eq => exact .inl ⟨.black, .black hl hr hn⟩

theorem fixRootColor_valid (ht : Valid k h t) : ∃ i, Valid .black i t.fixRootColor := by
  cases k with
  | black =>
      rw [fixRootColor, ht.red_eq_false]
      exact ⟨h, ht⟩
  | red =>
      rw [fixRootColor, ht.red_eq_true]
      exact ⟨h + 1, ht.blacken⟩

theorem insert_valid (key : K) (value : V) (ht : Valid .black h t) :
    ∃ i, Valid .black i (t.insert c key value) := by
  rcases innerInsert_valid c key value ht with ⟨j, hj⟩ | ⟨hred, -⟩
  · exact fixRootColor_valid hj
  · cases hred

theorem toList_innerInsert (key : K) (value : V) (ht : Measured t)
    (hs : t.toList.Pairwise fun a b => c.compare a.1 b.1 = .lt) :
    (t.innerInsert c key value).toList = SortedList.insert c key value t.toList := by
  induction t with
  | empty k => rfl
  | node k n e l r ihl ihr =>
      obtain ⟨hsl, hsr, hle, -⟩ := (SortedList.sorted_append_cons c).mp hs
      rw [innerInsert, if_neg ht.size_ne_zero, toList_node]
      cases hc : c.compare e.1 key with
      | gt =>
          dsimp only
          rw [toList_fixUp, toList_node, ihl ht.left hsl]
          exact (SortedList.insert_append_left c (c.gt_iff_lt.mp hc) _ _).symm
      | lt =>
          have hlt : ∀ x ∈ l.toList, c.compare x.1 key = .lt :=
            fun x hx => Std.TransCmp.lt_trans (hle x hx) hc
          dsimp only
          rw [toList_fixUp, toList_node, ihr ht.right hsr, SortedList.insert_append_right c hlt]
          simp [SortedList.insert, c.gt_iff_lt.mpr hc]
      | eq =>
          have hlt : ∀ x ∈ l.toList, c.compare x.1 key = .lt :=
            fun x hx => (c.compare_congr_right hc x.1).symm.trans (hle x hx)
          rw [toList_node, SortedList.insert_append_right c hlt]
          simp [SortedList.insert, c.eq_comm.mp hc]

theorem toList_insert (key : K) (value : V) (ht : Measured t)
    (hs : t.toList.Pairwise fun a b => c.compare a.1 b.1 = .lt) :
    (t.insert c key value).toList = SortedList.insert c key value t.toList := by
  rw [LlrbNode.insert, toList_fixRootColor]
  exact toList_innerInsert c key value ht hs

end insert

end YouRoute.LlrbTrees
