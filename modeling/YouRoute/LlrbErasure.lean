import YouRoute.LlrbTrees

/-!
# Erasing from a sorted map's tree

Erasure goes down on one side and repairs on the way back. The node it enters
can spare an entry: it is red, or its left child is, or it is empty. Before it
goes further it moves a red node to the side that it will enter. What comes back
is no shorter, and black if it was black before. Going right it may have made a
black node that leans to the right; then the entry that it passed has become the
root of that node, and the key is not on its left.
-/

namespace YouRoute.LlrbErasure

open LlrbNodes LlrbNode LlrbTrees

variable {K V : Type*}

/-- A tree that can lose an entry without getting shorter, or an empty one. -/
def Spare (k : Color) (h : ℕ) (t : LlrbNode K V) : Prop :=
  Valid k h t ∧ (k = .black → t.left.red = true ∨ h = 0)

/-- A tree of the given height that is black if the one before it was. -/
def Shrunk (k : Color) (h : ℕ) (t : LlrbNode K V) : Prop :=
  ∃ j, Valid j h t ∧ (k = .black → j = .black)

/-- A node that is repaired whatever comes back for its left child. The entry stood in it
with the given ones on its left, and stands in it still or is on its left now. -/
inductive LeftOpen (k : Color) (h : ℕ) (xs : List (K × V)) (e : K × V) : LlrbNode K V → Prop
  | node {p j : Color} {i n : ℕ} {f : K × V} {l r : LlrbNode K V} :
      f = e ∧ l.toList = xs ∨ e ∈ l.toList → Spare j i l →
        (∀ s, Shrunk j i s → Shrunk k h (LlrbNode.node p n f s r).fixUp) →
          LeftOpen k h xs e (.node p n f l r)

/-- A node that is repaired whatever comes back for its right child. The entry stands in it
still, or it is on its right now, and then the child may lean to the right with it on top. -/
inductive RightOpen (k : Color) (h : ℕ) (e : K × V) : LlrbNode K V → Prop
  | here {p j : Color} {i n : ℕ} {l r : LlrbNode K V} :
      Spare j i r → (r.toList = [] → l.toList = [] ∧ h = 0) →
        (∀ f s, Shrunk j i s → Shrunk k h (LlrbNode.node p n f l s).fixUp) →
          RightOpen k h e (.node p n e l r)
  | below {p j : Color} {i n : ℕ} {f : K × V} {l r : LlrbNode K V} :
      e ∈ r.toList → Spare j i r ∨ j = .black ∧ Tilted i e r →
        (∀ s, Shrunk j i s → Shrunk k h (LlrbNode.node p n f l s).fixUp) →
          RightOpen k h e (.node p n f l r)

section step

variable {k j : Color} {h n : ℕ} {e d : K × V} {t l r : LlrbNode K V}

theorem spare_red (ht : Valid .red h t) : Spare .red h t :=
  ⟨ht, fun hk => by cases hk⟩

/-- A black node over children of which at most one was red stays black. -/
theorem shrunk_black (hl : Shrunk k h l) (hr : Shrunk j h r) (hkj : k = .black ∨ j = .black) :
    Shrunk .black (h + 1) (LlrbNode.node .black n e l r).fixUp := by
  obtain ⟨k', hl, hk⟩ := hl
  obtain ⟨j', hr, hj⟩ := hr
  refine ⟨_, fixUp_black hl hr, ?_⟩
  intro _
  refine if_neg ?_
  rintro ⟨rfl, rfl⟩
  rcases hkj with rfl | rfl
  · cases hk rfl
  · cases hj rfl

theorem shrunk_either (hl : Shrunk k h l) (hr : Shrunk j h r) :
    Shrunk .red (h + 1) (LlrbNode.node .black n e l r).fixUp := by
  obtain ⟨k', hl, -⟩ := hl
  obtain ⟨j', hr, -⟩ := hr
  exact ⟨_, fixUp_black hl hr, fun hk => by cases hk⟩

theorem shrunk_red (hl : Shrunk .black h l) (hr : Shrunk .black h r) :
    Shrunk .red h (LlrbNode.node .red n e l r).fixUp := by
  obtain ⟨k, hl, hk⟩ := hl
  obtain ⟨j, hr, hj⟩ := hr
  rw [hk rfl] at hl
  rw [hj rfl] at hr
  exact ⟨.red, fixUp_red hl hr, fun hk => by cases hk⟩

theorem shrunk_self (ht : Valid k h t) : Shrunk k h t := ⟨k, ht, id⟩

theorem openLeft_eq_self (hl : l.isEmpty = true ∨ l.red = true ∨ l.left.red = true) :
    (LlrbNode.node k n e l r).openLeft = .node k n e l r := by
  rcases hl with hl | hl | hl <;> simp [openLeft, hl]

/-- Both children of a red node are painted red, and the node black. -/
theorem openLeft_flip (hl : Valid .black (h + 1) l) (hll : l.left.red = false)
    (hr : Valid .black (h + 1) r) (hrl : r.left.red = false) :
    (LlrbNode.node .red n e l r).openLeft =
      .node .black n e (l.setColor .red) (r.setColor .red) := by
  have hrl' : (r.setColor .red).left.red = false := by
    cases hr with
    | black _ _ _ => exact hrl
  simp [openLeft, moveRedLeft, hl.isEmpty_of_black, hl.red_eq_false, hll, hl.color_eq,
    hr.color_eq, hrl']

/-- The red left child of the right one is moved up, and the node's entry down on the left. -/
theorem openLeft_rotate {m p : ℕ} {f g : K × V} {s u w : LlrbNode K V}
    (hl : Valid .black (h + 1) l) (hll : l.left.red = false) :
    (LlrbNode.node .red n e l (.node .black m f (.node .red p g s u) w)).openLeft =
      .node .red n g (.node .black (l.size + 1 + s.size) e (l.setColor .red) s)
        (.node .black (u.size + 1 + w.size) f u w) := by
  simp [openLeft, moveRedLeft, hl.isEmpty_of_black, hl.red_eq_false, hll, hl.color_eq]

theorem openRight_eq_self (hl : l.red = false)
    (hr : r.isEmpty = true ∨ r.red = true ∨ r.left.red = true) :
    (LlrbNode.node k n e l r).openRight = .node k n e l r := by
  rcases hr with hr | hr | hr <;> simp [openRight, hl, hr]

theorem openRight_lean {m : ℕ} {f : K × V} {s : LlrbNode K V} :
    (LlrbNode.node k n e (.node .red m f l s) r).openRight =
      .node k n f l (.node .red (s.size + 1 + r.size) e s r) := by
  simp [openRight]

theorem openRight_flip (hl : Valid .black (h + 1) l) (hll : l.left.red = false)
    (hr : Valid .black (h + 1) r) (hrl : r.left.red = false) :
    (LlrbNode.node .red n e l r).openRight =
      .node .black n e (l.setColor .red) (r.setColor .red) := by
  have hll' : (l.setColor .red).left.red = false := by
    cases hl with
    | black _ _ _ => exact hll
  simp [openRight, moveRedRight, hr.isEmpty_of_black, hr.red_eq_false, hl.red_eq_false, hrl,
    hl.color_eq, hr.color_eq, hll']

/-- The left child is moved up; the node's entry is left with a red node on its right. -/
theorem openRight_rotate {m : ℕ} {f : K × V} {s u : LlrbNode K V} (hs : Valid .red h s)
    (hr : Valid .black (h + 1) r) (hrl : r.left.red = false) :
    (LlrbNode.node .red n e (.node .black m f s u) r).openRight =
      .node .red n f (s.setColor .black)
        (.node .black (u.size + 1 + r.size) e u (r.setColor .red)) := by
  simp [openRight, moveRedRight, hr.isEmpty_of_black, hr.red_eq_false, hrl, hr.color_eq,
    hs.red_eq_true, hs.color_eq]

theorem openLeft_spec (ht : Spare k h (.node j n e l r)) :
    LeftOpen k h l.toList e (LlrbNode.node j n e l r).openLeft := by
  obtain ⟨hv, hspare⟩ := ht
  cases hv with
  | red hl hr hn =>
      cases h with
      | zero =>
          rw [openLeft_eq_self (.inl (by rw [hl.eq_empty]; rfl))]
          refine .node (.inl ⟨rfl, rfl⟩) ⟨hl, fun _ => .inr rfl⟩ ?_
          intro s hs
          exact shrunk_red hs (shrunk_self hr)
      | succ h =>
          cases hll : l.left.red with
          | true =>
              rw [openLeft_eq_self (.inr (.inr hll))]
              refine .node (.inl ⟨rfl, rfl⟩) ⟨hl, fun _ => .inl hll⟩ ?_
              intro s hs
              exact shrunk_red hs (shrunk_self hr)
          | false =>
              cases hrl : r.left.red with
              | false =>
                  rw [openLeft_flip hl hll hr hrl]
                  refine .node (.inl ⟨rfl, toList_setColor _ _⟩) (spare_red (hl.redden hll)) ?_
                  intro s hs
                  exact shrunk_either hs (shrunk_self (hr.redden hrl))
              | true =>
                  cases hr with
                  | black hrl' hrr hm =>
                      cases hrl'.eq_red hrl
                      cases hrl' with
                      | red hs hu hp =>
                          rw [openLeft_rotate hl hll]
                          have hl' := hl.redden hll
                          refine .node (j := .black) (i := h + 1) (.inr (by simp)) ⟨?_, ?_⟩ ?_
                          · exact .black hl' hs (by rw [size_setColor])
                          · intro _
                            exact .inl hl'.red_eq_true
                          · intro s hs
                            exact shrunk_red hs (shrunk_self (.black hu hrr rfl))
  | black hl hr hn =>
      have hred : l.red = true := (hspare rfl).resolve_right (Nat.succ_ne_zero _)
      cases hl.eq_red hred
      rw [openLeft_eq_self (.inr (.inl hred))]
      refine .node (.inl ⟨rfl, rfl⟩) (spare_red hl) ?_
      intro s hs
      exact shrunk_black hs (shrunk_self hr) (.inr rfl)

theorem openRight_spec (ht : Spare k h (.node j n e l r)) :
    RightOpen k h e (LlrbNode.node j n e l r).openRight := by
  obtain ⟨hv, hspare⟩ := ht
  cases hv with
  | red hl hr hn =>
      cases h with
      | zero =>
          rw [openRight_eq_self hl.red_eq_false (.inl (by rw [hr.eq_empty]; rfl))]
          refine .here ⟨hr, fun _ => .inr rfl⟩ ?_ ?_
          · intro _
            exact ⟨by rw [hl.eq_empty]; rfl, rfl⟩
          · intro f s hs
            exact shrunk_red (shrunk_self hl) hs
      | succ h =>
          have hne : r.toList ≠ [] := by
            rw [Ne, ← hr.measured.isEmpty_iff, hr.isEmpty_of_black]
            exact Bool.false_ne_true
          cases hrl : r.left.red with
          | true =>
              rw [openRight_eq_self hl.red_eq_false (.inr (.inr hrl))]
              refine .here ⟨hr, fun _ => .inl hrl⟩ (fun h => (hne h).elim) ?_
              intro f s hs
              exact shrunk_red (shrunk_self hl) hs
          | false =>
              cases hll : l.left.red with
              | false =>
                  rw [openRight_flip hl hll hr hrl]
                  refine .here (spare_red (hr.redden hrl)) ?_ ?_
                  · intro h
                    rw [toList_setColor] at h
                    exact (hne h).elim
                  · intro f s hs
                    exact shrunk_either (shrunk_self (hl.redden hll)) hs
              | true =>
                  cases hl with
                  | black hs hu hm =>
                      cases hs.eq_red hll
                      rw [openRight_rotate hs hr hrl]
                      refine .below (i := h + 1) (by simp) (.inr ⟨rfl, ?_⟩) ?_
                      · exact .node hu (hr.redden hrl) (by rw [size_setColor])
                      · intro s hs'
                        exact shrunk_red (shrunk_self hs.blacken) hs'
  | black hl hr hn =>
      have hred : l.red = true := (hspare rfl).resolve_right (Nat.succ_ne_zero _)
      cases hl.eq_red hred
      cases hl with
      | red hs hu hm =>
          rw [openRight_lean]
          refine .below (by simp) (.inl (spare_red (.red hu hr rfl))) ?_
          intro s hs'
          exact shrunk_black (shrunk_self hs) hs' (.inl rfl)

theorem openRight_tilted (ht : Tilted h e t) : RightOpen .black h e t.openRight := by
  cases ht with
  | node hl hr hn =>
      rw [openRight_eq_self hl.red_eq_false (.inr (.inl hr.red_eq_true))]
      refine .here (spare_red hr) ?_ ?_
      · intro h
        rw [← hr.measured.isEmpty_iff, hr.isEmpty_of_red] at h
        cases h
      · intro f s hs
        exact shrunk_black (shrunk_self hl) hs (.inl rfl)

end step

section removeMin

variable {k : Color} {h : ℕ} {t : LlrbNode K V}

/-- The entry of the left-most node comes first. -/
theorem min_cons_tail (d : K × V) (ht : Measured t) (hne : t.toList ≠ []) :
    t.min.entryOr d :: t.toList.tail = t.toList := by
  induction t with
  | empty k => exact (hne rfl).elim
  | node k n e l r ihl ihr =>
      have hl : Measured l := ht.left
      rw [LlrbNode.min]
      cases hempty : l.isEmpty with
      | true => simp [hl.isEmpty_iff.mp hempty]
      | false =>
          have hne' : l.toList ≠ [] := hl.toList_ne_nil hempty
          rw [if_neg Bool.false_ne_true, toList_node, List.tail_append_of_ne_nil hne',
            ← List.cons_append, ihl hl hne']

theorem removeMin_node {n : ℕ} {e : K × V} {l r : LlrbNode K V} (hl : l.isEmpty = false) :
    (LlrbNode.node k n e l r).removeMin =
      ((LlrbNode.node k n e l r).openLeft.setLeft
        (LlrbNode.node k n e l r).openLeft.left.removeMin).fixUp := by
  rw [removeMin, if_neg (by simp [hl]), openLeft]
  simp [hl]

/-- The right child of a node that lacks a left one is empty too. -/
theorem right_of_spare {n : ℕ} {e : K × V} {l r : LlrbNode K V}
    (ht : Spare k h (.node k n e l r)) (hl : l.isEmpty = true) : r.toList = [] ∧ h = 0 := by
  obtain ⟨hv, hspare⟩ := ht
  cases hv with
  | red hl' hr hn =>
      cases h with
      | zero =>
          rw [hr.eq_empty]
          exact ⟨rfl, rfl⟩
      | succ h =>
          rw [hl'.isEmpty_of_black] at hl
          cases hl
  | black hl' hr hn =>
      have hred : l.red = true := (hspare rfl).resolve_right (Nat.succ_ne_zero _)
      cases hl'.eq_red hred
      rw [hl'.isEmpty_of_red] at hl
      cases hl

/-- Without its least entry a tree that can spare one is no shorter. -/
theorem removeMin_spec {n : ℕ} (hn : t.toList.length = n) (ht : Spare k h t) :
    Shrunk k h t.removeMin ∧ t.removeMin.toList = t.toList.tail := by
  induction n using Nat.strongRecOn generalizing k h t with
  | ind n ih =>
      cases t with
      | empty p =>
          rw [removeMin]
          cases ht.1
          exact ⟨shrunk_self .empty, rfl⟩
      | node p m e l r =>
          cases ht.1.color_eq
          have hleft : l.isEmpty = true ↔ l.toList = [] := ht.1.measured.left.isEmpty_iff
          cases hl : l.isEmpty with
          | true =>
              obtain ⟨hr, rfl⟩ := right_of_spare ht hl
              rw [removeMin, if_pos hl, toList_node, hleft.mp hl, hr]
              exact ⟨⟨.black, .empty, fun _ => rfl⟩, rfl⟩
          | false =>
              have hne : l.toList ≠ [] := by
                rw [Ne, ← hleft, hl]
                exact Bool.false_ne_true
              have hopen := openLeft_spec ht
              have hlist := toList_openLeft (LlrbNode.node p m e l r)
              rw [removeMin_node hl]
              generalize (LlrbNode.node p m e l r).openLeft = u at hopen hlist ⊢
              cases hopen with
              | @node q j i w f s v hentry hs hput =>
                  have hlt : s.toList.length < n := by
                    rw [← hn, ← hlist]
                    exact length_toList_left_lt (t := .node q w f s v) (by simp)
                  have hne' : s.toList ≠ [] := by
                    rcases hentry with ⟨-, hsl⟩ | hmem
                    · rw [hsl]
                      exact hne
                    · exact List.ne_nil_of_mem hmem
                  obtain ⟨hshrunk, htail⟩ := ih _ hlt rfl hs
                  refine ⟨hput _ hshrunk, ?_⟩
                  rw [toList_fixUp, setLeft_node, left_node, toList_node, htail, ← hlist,
                    toList_node, List.tail_append_of_ne_nil hne']

end removeMin

section erase

variable (c : Comparator K) {k : Color} {h : ℕ} {t : LlrbNode K V}

/-- What erasure makes of a tree that it may enter. -/
def Erased (key : K) (k : Color) (h : ℕ) (t : LlrbNode K V) : Prop :=
  Shrunk k h (t.innerErase c key) ∧
    (t.innerErase c key).toList = SortedList.erase c key t.toList

theorem erased_left {key : K} {e : K × V} {xs : List (K × V)} {u : LlrbNode K V}
    (hopen : LeftOpen k h xs e u)
    (hs : u.toList.Pairwise fun a b => c.compare a.1 b.1 = .lt)
    (hkey : c.compare key e.1 = .lt)
    (ih : ∀ j i, Spare j i u.left → Erased c key j i u.left) :
    Shrunk k h (u.setLeft (u.left.innerErase c key)).fixUp ∧
      (u.setLeft (u.left.innerErase c key)).fixUp.toList =
        SortedList.erase c key u.toList := by
  cases hopen with
  | @node q j i w f s v hentry hspare hput =>
      obtain ⟨-, -, hsf, -⟩ := (SortedList.sorted_append_cons c).mp hs
      have hlt : c.compare key f.1 = .lt := by
        rcases hentry with ⟨rfl, -⟩ | hmem
        · exact hkey
        · exact Std.TransCmp.lt_trans hkey (hsf e hmem)
      obtain ⟨hshrunk, hlist⟩ := ih j i hspare
      refine ⟨hput _ hshrunk, ?_⟩
      rw [left_node] at hlist
      rw [toList_fixUp, left_node, setLeft_node, toList_node, hlist, toList_node]
      exact (SortedList.erase_append_left c hs hlt).symm

theorem erased_right {key : K} {e d : K × V} {u : LlrbNode K V}
    (hopen : RightOpen k h e u)
    (hs : u.toList.Pairwise fun a b => c.compare a.1 b.1 = .lt)
    (hkey : c.compare key e.1 ≠ .lt)
    (ih : ∀ j i, Spare j i u.right ∨ j = .black ∧ Tilted i e u.right →
      Erased c key j i u.right) :
    let t :=
      if c.compare key (u.entryOr d).1 = .eq then
        if u.right.isEmpty then .empty .black
        else ((u.setEntry (u.right.min.entryOr d)).setRight u.right.removeMin).fixUp
      else (u.setRight (u.right.innerErase c key)).fixUp
    Shrunk k h t ∧ t.toList = SortedList.erase c key u.toList := by
  intro t
  cases hopen with
  | @here q j i w s v hspare hempty hput =>
      by_cases heq : c.compare key e.1 = .eq
      · cases hv : v.isEmpty with
        | true =>
            obtain ⟨hs', rfl⟩ := hempty (hspare.1.measured.isEmpty_iff.mp hv)
            have ht : t = .empty .black := by simp [t, heq, hv]
            rw [ht, toList_node, SortedList.erase_append_same c hs heq, hs',
              hspare.1.measured.isEmpty_iff.mp hv]
            exact ⟨⟨.black, .empty, fun _ => rfl⟩, rfl⟩
        | false =>
            have ht : t = (LlrbNode.node q w (v.min.entryOr d) s v.removeMin).fixUp := by
              simp [t, heq, hv]
            obtain ⟨hshrunk, htail⟩ := removeMin_spec rfl hspare
            rw [ht, toList_fixUp, toList_node, toList_node,
              SortedList.erase_append_same c hs heq, htail,
              min_cons_tail d hspare.1.measured (hspare.1.measured.toList_ne_nil hv)]
            exact ⟨hput _ _ hshrunk, rfl⟩
      · have ht : t = (LlrbNode.node q w e s (v.innerErase c key)).fixUp := by simp [t, heq]
        have hgt : c.compare e.1 key = .lt := by
          cases hc : c.compare key e.1 with
          | lt => exact (hkey hc).elim
          | eq => exact (heq hc).elim
          | gt => exact c.gt_iff_lt.mp hc
        obtain ⟨hshrunk, hlist⟩ := ih j i (.inl hspare)
        rw [right_node] at hlist
        rw [ht, toList_fixUp, toList_node, toList_node, hlist]
        exact ⟨hput _ _ hshrunk, (SortedList.erase_append_right c hs hgt).symm⟩
  | @below q j i w f s v hmem hroomy hput =>
      obtain ⟨-, -, -, hfv⟩ := (SortedList.sorted_append_cons c).mp hs
      have hlt : c.compare f.1 key = .lt := by
        cases hc : c.compare key e.1 with
        | lt => exact (hkey hc).elim
        | eq => exact (c.compare_congr_right hc f.1).trans (hfv e hmem)
        | gt => exact Std.TransCmp.lt_trans (hfv e hmem) (c.gt_iff_lt.mp hc)
      have ht : t = (LlrbNode.node q w f s (v.innerErase c key)).fixUp := by
        simp [t, c.gt_iff_lt.mpr hlt]
      obtain ⟨hshrunk, hlist⟩ := ih j i hroomy
      rw [right_node] at hlist
      rw [ht, toList_fixUp, toList_node, toList_node, hlist]
      exact ⟨hput _ hshrunk, (SortedList.erase_append_right c hs hlt).symm⟩

theorem innerErase_spec {key : K} {n : ℕ} (hn : t.toList.length = n)
    (hs : t.toList.Pairwise fun a b => c.compare a.1 b.1 = .lt)
    (ht : Spare k h t ∨ k = .black ∧ ∃ e, Tilted h e t ∧ c.compare key e.1 ≠ .lt) :
    Erased c key k h t := by
  induction n using Nat.strongRecOn generalizing k h t with
  | ind n ih =>
      cases t with
      | empty p =>
          rcases ht with ht | ⟨-, e, ht, -⟩
          · rw [Erased, innerErase]
            cases ht.1
            exact ⟨shrunk_self .empty, rfl⟩
          · cases ht
      | node p m e l r =>
          have hm : m ≠ 0 := by
            rcases ht with ht | ⟨-, e, ht, -⟩
            · exact ht.1.measured.size_ne_zero
            · cases ht
              omega
          rw [Erased, innerErase, if_neg hm]
          by_cases hkey : c.compare key e.1 = .lt
          · have hspare : Spare k h (.node p m e l r) := by
              rcases ht with ht | ⟨-, f, ht, hf⟩
              · exact ht
              · cases ht
                exact (hf hkey).elim
            have hopen := openLeft_spec hspare
            have hlist := toList_openLeft (LlrbNode.node p m e l r)
            rw [if_pos hkey]
            generalize (LlrbNode.node p m e l r).openLeft = u at hopen hlist ⊢
            rw [← hlist] at hs hn ⊢
            have hne : u.toList ≠ [] := by simp [hlist]
            have hsl := hs.sublist (toList_left_sublist u)
            refine erased_left c hopen hs hkey fun j i hspare => ?_
            exact ih _ (hn ▸ length_toList_left_lt hne) rfl hsl (.inl hspare)
          · have hopen : RightOpen k h e (LlrbNode.node p m e l r).openRight := by
              rcases ht with ht | ⟨rfl, f, ht, -⟩
              · exact openRight_spec ht
              · cases ht with
                | node hl hr hm => exact openRight_tilted (.node hl hr hm)
            have hlist := toList_openRight (LlrbNode.node p m e l r)
            rw [if_neg hkey]
            generalize (LlrbNode.node p m e l r).openRight = u at hopen hlist ⊢
            rw [← hlist] at hs hn ⊢
            have hne : u.toList ≠ [] := by simp [hlist]
            have hsr := hs.sublist (toList_right_sublist u)
            refine erased_right c hopen hs hkey fun j i hroomy => ?_
            refine ih _ (hn ▸ length_toList_right_lt hne) rfl hsr ?_
            rcases hroomy with hspare | ⟨rfl, htilt⟩
            · exact .inl hspare
            · exact .inr ⟨rfl, e, htilt, hkey⟩

/-- Erasing a key from a valid black tree leaves a valid black tree without the key. -/
theorem erase_spec (key : K) (ht : Valid .black h t)
    (hs : t.toList.Pairwise fun a b => c.compare a.1 b.1 = .lt) :
    (∃ i, Valid .black i (t.erase c key)) ∧
      (t.erase c key).toList = SortedList.erase c key t.toList := by
  have hspec : ∀ {k : Color} {h : ℕ} {u : LlrbNode K V}, Spare k h u → Recolored u t →
      u.toList = t.toList → (∃ i, Valid .black i (t.erase c key)) ∧
        (t.erase c key).toList = SortedList.erase c key t.toList := by
    intro k h u hu hrec hlist
    obtain ⟨⟨j, hj, -⟩, herase⟩ := innerErase_spec c rfl (hlist ▸ hs) (.inl hu)
    have heq : t.erase c key = (u.innerErase c key).fixRootColor :=
      (hrec.innerErase c key).fixRootColor_eq.symm
    rw [heq, toList_fixRootColor, herase, hlist]
    exact ⟨fixRootColor_valid hj, rfl⟩
  cases h with
  | zero => exact hspec ⟨ht, fun _ => .inr rfl⟩ (.refl t) rfl
  | succ h =>
      cases hl : t.left.red with
      | true => exact hspec ⟨ht, fun _ => .inl hl⟩ (.refl t) rfl
      | false => exact hspec (spare_red (ht.redden hl)) (.setColor t) (toList_setColor _ _)

end erase

end YouRoute.LlrbErasure
