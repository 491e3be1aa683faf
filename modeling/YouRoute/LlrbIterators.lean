import YouRoute.TreeSortedMaps

/-!
# Iterating over a sorted map's tree

A tree has no links to the parents, so an iterator keeps a stack: the node that
it points to, and below it those nodes to whose left it still is. What remains
to be visited is read off the stack, node by node: the entry and what is on its
right. Each node on the stack is deeper down than the one below it, so the stack
is no longer than the tree is deep.
-/

namespace YouRoute.LlrbIterators

open LlrbNodes LlrbNode LlrbTrees TreeSortedMaps

variable {K V : Type*}

structure LlrbNodeIterator (K V : Type*) where
  stack : List (LlrbNode K V)

def accumulateLeft : LlrbNode K V → List (LlrbNode K V) → List (LlrbNode K V)
  | .empty _, stack => stack
  | .node k n e l r, stack =>
      if n = 0 then stack else accumulateLeft l (.node k n e l r :: stack)

namespace LlrbNodeIterator

def start (root : LlrbNode K V) : LlrbNodeIterator K V := ⟨accumulateLeft root []⟩

def finish : LlrbNodeIterator K V := ⟨[]⟩

def isEnd (it : LlrbNodeIterator K V) : Bool := it.stack.isEmpty

/-- The entry that is pointed to; reading at the end fails an assertion. -/
def get (it : LlrbNodeIterator K V) : Option (K × V) :=
  match it.stack with
  | .node _ _ e _ _ :: _ => some e
  | _ => none

/-- The iterator moved on; moving past the end fails an assertion. -/
def next (it : LlrbNodeIterator K V) : Option (LlrbNodeIterator K V) :=
  match it.stack with
  | [] => none
  | t :: stack => some ⟨accumulateLeft t.right stack⟩

def lowerBoundFrom (c : Comparator K) (key : K) :
    LlrbNode K V → List (LlrbNode K V) → List (LlrbNode K V)
  | .empty _, stack => stack
  | .node k n e l r, stack =>
      if n = 0 then stack
      else
        match c.compare key e.1 with
        | .eq => .node k n e l r :: stack
        | .lt => lowerBoundFrom c key l (.node k n e l r :: stack)
        | .gt => lowerBoundFrom c key r stack

def lowerBound (c : Comparator K) (root : LlrbNode K V) (key : K) : LlrbNodeIterator K V :=
  ⟨lowerBoundFrom c key root []⟩

/-- Iterators are compared by the keys that they point to. -/
def equal [DecidableEq K] (a b : LlrbNodeIterator K V) : Bool :=
  if a.isEnd then b.isEnd
  else if b.isEnd then false
  else a.get.map Prod.fst == b.get.map Prod.fst

/-- The entries that a loop from one iterator up to another visits. Nothing results where an
assertion fails or the loop has not come to its end in so many rounds. -/
def visit [DecidableEq K] : ℕ → LlrbNodeIterator K V → LlrbNodeIterator K V →
    Option (List (K × V))
  | 0, it, stop => if it.equal stop then some [] else none
  | fuel + 1, it, stop =>
      if it.equal stop then some []
      else
        it.get.bind fun e => it.next.bind fun it => (visit fuel it stop).map fun es => e :: es

end LlrbNodeIterator

open LlrbNodeIterator

/-- What an iterator that points to the node has before it there. -/
def rest : LlrbNode K V → List (K × V)
  | .empty _ => []
  | .node _ _ e _ r => e :: r.toList

def LlrbNodeIterator.remaining (it : LlrbNodeIterator K V) : List (K × V) :=
  it.stack.flatMap rest

/-- The nodes on a stack have ever greater depths, more than the first number and at most
the second. -/
inductive Sound : ℕ → ℕ → List (LlrbNode K V) → Prop
  | nil {m d : ℕ} : Sound m d []
  | cons {m d : ℕ} {t : LlrbNode K V} {stack : List (LlrbNode K V)} :
      Measured t → m < depth t → depth t ≤ d → Sound (depth t) d stack → Sound m d (t :: stack)

section stack

variable {m d n : ℕ} {k : Color} {e : K × V} {t l r : LlrbNode K V}
  {stack : List (LlrbNode K V)}

theorem Sound.mono {i : ℕ} (hs : Sound m d stack) (hi : i ≤ m) : Sound i d stack := by
  cases hs with
  | nil => exact .nil
  | cons ht hm hd hs => exact .cons ht (hi.trans_lt hm) hd hs

theorem Sound.length_le (hs : Sound m d stack) : stack.length ≤ d - m := by
  induction hs with
  | nil => exact Nat.zero_le _
  | cons ht hm hd hs ih =>
      rw [List.length_cons]
      omega

theorem depth_left_lt : depth l < depth (.node k n e l r) :=
  Nat.lt_succ_of_le (le_max_left _ _)

theorem depth_right_lt : depth r < depth (.node k n e l r) :=
  Nat.lt_succ_of_le (le_max_right _ _)

/-- The nodes down the left side go on top; what they have before them is the tree. -/
theorem accumulateLeft_spec (ht : Measured t) (hd : depth t ≤ d)
    (hs : Sound (depth t) d stack) :
    Sound 0 d (accumulateLeft t stack) ∧
      (accumulateLeft t stack).flatMap rest = t.toList ++ stack.flatMap rest := by
  induction t generalizing stack with
  | empty k => exact ⟨hs, rfl⟩
  | node k n e l r ihl ihr =>
      have hl : depth l < depth (.node k n e l r) := depth_left_lt
      obtain ⟨hsound, hrest⟩ := ihl ht.left (hl.le.trans hd) (.cons ht hl hd hs)
      rw [accumulateLeft, if_neg ht.size_ne_zero, hrest, List.flatMap_cons, toList_node,
        List.append_assoc]
      exact ⟨hsound, rfl⟩

/-- The search leaves before it the entries that do not come before the key. -/
theorem lowerBoundFrom_spec (c : Comparator K) (key : K) (ht : Measured t) (hd : depth t ≤ d)
    (hs : Sound (depth t) d stack)
    (hsort : t.toList.Pairwise fun a b => c.compare a.1 b.1 = .lt) :
    Sound 0 d (lowerBoundFrom c key t stack) ∧
      (lowerBoundFrom c key t stack).flatMap rest =
        SortedList.fromKey c key t.toList ++ stack.flatMap rest := by
  induction t generalizing stack with
  | empty k => exact ⟨hs, rfl⟩
  | node k n e l r ihl ihr =>
      obtain ⟨hsl, hsr, -, -⟩ := (SortedList.sorted_append_cons c).mp hsort
      rw [lowerBoundFrom, if_neg ht.size_ne_zero]
      cases hc : c.compare key e.1 with
      | eq =>
          have hpos : 0 < depth (.node k n e l r) := Nat.succ_pos _
          rw [toList_node, SortedList.fromKey_of_eq c hsort hc]
          exact ⟨.cons ht hpos hd hs, rfl⟩
      | lt =>
          have hl : depth l < depth (.node k n e l r) := depth_left_lt
          obtain ⟨hsound, hrest⟩ := ihl ht.left (hl.le.trans hd) (.cons ht hl hd hs) hsl
          dsimp only
          rw [hrest, toList_node, SortedList.fromKey_of_lt c hsort hc, List.flatMap_cons,
            List.append_assoc]
          exact ⟨hsound, rfl⟩
      | gt =>
          have hr : depth r < depth (.node k n e l r) := depth_right_lt
          obtain ⟨hsound, hrest⟩ := ihr ht.right (hr.le.trans hd) (hs.mono hr.le) hsr
          dsimp only
          rw [hrest, toList_node, SortedList.fromKey_append_cons c hsort (c.gt_iff_lt.mp hc)]
          exact ⟨hsound, rfl⟩

end stack

section iterator

variable {d : ℕ} {t : LlrbNode K V} {it it' : LlrbNodeIterator K V}

theorem start_spec (ht : Measured t) :
    Sound 0 (depth t) (start t).stack ∧ (start t).remaining = t.toList := by
  obtain ⟨hsound, hrest⟩ := accumulateLeft_spec ht le_rfl .nil
  refine ⟨hsound, ?_⟩
  rw [remaining, start, hrest, List.flatMap_nil, List.append_nil]

theorem lowerBound_spec (c : Comparator K) (key : K) (ht : Measured t)
    (hsort : t.toList.Pairwise fun a b => c.compare a.1 b.1 = .lt) :
    Sound 0 (depth t) (lowerBound c t key).stack ∧
      (lowerBound c t key).remaining = SortedList.fromKey c key t.toList := by
  obtain ⟨hsound, hrest⟩ := lowerBoundFrom_spec c key ht le_rfl .nil hsort
  refine ⟨hsound, ?_⟩
  rw [remaining, lowerBound, hrest, List.flatMap_nil, List.append_nil]

/-- An iterator is at the end, or it points to the first entry that remains and moves past it. -/
theorem remaining_cases (hs : Sound 0 d it.stack) :
    it.isEnd = true ∧ it.remaining = [] ∨
      it.isEnd = false ∧ ∃ e it', it.get = some e ∧ it.next = some it' ∧
        Sound 0 d it'.stack ∧ it.remaining = e :: it'.remaining := by
  obtain ⟨stack⟩ := it
  cases hs with
  | nil => exact .inl ⟨rfl, rfl⟩
  | @cons m d t stack ht hm hd hs =>
      cases t with
      | empty k => exact (Nat.lt_irrefl 0 hm).elim
      | node k n e l r =>
          have hr : depth r < depth (.node k n e l r) := depth_right_lt
          obtain ⟨hsound, hrest⟩ :=
            accumulateLeft_spec ht.right (hr.le.trans hd) (hs.mono hr.le)
          refine .inr ⟨rfl, e, ⟨accumulateLeft r stack⟩, rfl, rfl, hsound, ?_⟩
          exact congrArg (List.cons e) hrest.symm

variable [DecidableEq K] {c : Comparator K}

/-- Iterators are equal when what remains starts with the same key. -/
theorem equal_eq {stop : LlrbNodeIterator K V} (hit : Sound 0 d it.stack)
    (hstop : Sound 0 d stop.stack) :
    it.equal stop =
      (it.remaining.head?.map Prod.fst == stop.remaining.head?.map Prod.fst) := by
  rw [equal]
  rcases remaining_cases hit with ⟨hend, hnil⟩ | ⟨hend, e, _, hget, _, _, hcons⟩
  · rcases remaining_cases hstop with ⟨hend', hnil'⟩ | ⟨hend', f, _, hget', _, _, hcons'⟩
    · rw [hend, hend', hnil, hnil']
      rfl
    · rw [hend, hend', hnil, hcons']
      rfl
  · rcases remaining_cases hstop with ⟨hend', hnil'⟩ | ⟨hend', f, _, hget', _, _, hcons'⟩
    · rw [hend, hend', hcons, hnil']
      rfl
    · rw [hend, hend', hget, hget', hcons, hcons']
      rfl

/-- A loop from an iterator up to a later one visits the entries between them. -/
theorem visit_eq {stop : LlrbNodeIterator K V} {xs : List (K × V)} {fuel : ℕ}
    (hit : Sound 0 d it.stack) (hstop : Sound 0 d stop.stack)
    (hsort : it.remaining.Pairwise fun a b => c.compare a.1 b.1 = .lt)
    (hxs : it.remaining = xs ++ stop.remaining) (hfuel : xs.length ≤ fuel) :
    visit fuel it stop = some xs := by
  induction xs generalizing it fuel with
  | nil =>
      have hequal : it.equal stop = true := by
        rw [equal_eq hit hstop, hxs]
        exact beq_self_eq_true _
      cases fuel with
      | zero => rw [visit, if_pos hequal]
      | succ fuel => rw [visit, if_pos hequal]
  | cons x xs ih =>
      rcases remaining_cases hit with ⟨-, hnil⟩ | ⟨-, e, it', hget, hnext, hit', hcons⟩
      · rw [hnil] at hxs
        cases hxs
      · have hequal : it.equal stop ≠ true := by
          rw [equal_eq hit hstop, hxs, Ne, beq_iff_eq]
          rw [hxs] at hsort
          intro heq
          cases hstop' : stop.remaining with
          | nil =>
              rw [hstop'] at heq
              cases heq
          | cons y ys =>
              have hlt : c.compare x.1 y.1 = .lt :=
                (List.pairwise_append.mp hsort).2.2 x List.mem_cons_self y (by simp [hstop'])
              rw [hstop'] at heq
              injection heq with heq
              rw [heq] at hlt
              exact c.lt_irrefl hlt
        rw [hcons, List.cons_append] at hxs
        injection hxs with he hrest
        rw [hcons] at hsort
        cases fuel with
        | zero => cases hfuel
        | succ fuel =>
            rw [visit, if_neg hequal, hget, hnext, Option.bind_some, Option.bind_some,
              ih hit' (List.pairwise_cons.mp hsort).2 hrest (Nat.le_of_succ_le_succ hfuel), he]
            rfl

end iterator

/-- The iterator to the entry with a key, or the end. -/
def find (c : Comparator K) (root : LlrbNode K V) (key : K) : LlrbNodeIterator K V :=
  let found := lowerBound c root key
  match found.get with
  | some e => if c.compare key e.1 = .eq then found else finish
  | none => finish

theorem get_eq_head {d : ℕ} {it : LlrbNodeIterator K V} (hs : Sound 0 d it.stack) :
    it.get = it.remaining.head? := by
  rcases remaining_cases hs with ⟨hend, hnil⟩ | ⟨-, e, s, hget, -, -, hcons⟩
  · rw [hnil]
    obtain ⟨stack⟩ := it
    cases stack with
    | nil => rfl
    | cons t stack => cases hend
  · rw [hget, hcons]
    rfl

theorem find_get (c : Comparator K) {t : LlrbNode K V} (key : K) (ht : Measured t)
    (hs : t.toList.Pairwise fun a b => c.compare a.1 b.1 = .lt) :
    (find c t key).get.map Prod.snd = SortedList.find c key t.toList := by
  obtain ⟨hsound, hrest⟩ := lowerBound_spec c key ht hs
  have hget := get_eq_head hsound
  rw [hrest] at hget
  rw [SortedList.find_eq_fromKey c hs, ← hget, find]
  cases hfound : (lowerBound c t key).get with
  | none => rfl
  | some e =>
      dsimp only
      rw [Option.filter_some]
      by_cases hk : c.compare key e.1 = .eq
      · rw [if_pos hk, if_pos (by simp [hk]), hfound]
      · rw [if_neg hk, if_neg (by simp [hk])]
        rfl

section range

variable [DecidableEq K] (c : Comparator K)

/-- The keys that a loop over the map sees. -/
def keys (fuel : ℕ) (t : LlrbNode K V) : Option (List K) :=
  (visit fuel (start t) finish).map (List.map Prod.fst)

def keysFrom (fuel : ℕ) (t : LlrbNode K V) (key : K) : Option (List K) :=
  (visit fuel (lowerBound c t key) finish).map (List.map Prod.fst)

/-- A loop up to a key that is behind its start would run on, so there the range is empty. -/
def keysIn (fuel : ℕ) (t : LlrbNode K V) (startKey endKey : K) : Option (List K) :=
  (if c.compare startKey endKey ≠ .lt then visit fuel finish (finish : LlrbNodeIterator K V)
    else visit fuel (lowerBound c t startKey) (lowerBound c t endKey)).map (List.map Prod.fst)

variable {c} {t : LlrbNode K V} {fuel : ℕ}

theorem keys_eq (ht : WellFormed c t) (hfuel : t.size ≤ fuel) :
    keys fuel t = some (t.toList.map Prod.fst) := by
  obtain ⟨⟨h, hv⟩, hs⟩ := ht
  obtain ⟨hstart, hrest⟩ := start_spec hv.measured
  rw [hv.measured.size_eq] at hfuel
  have hvisit := visit_eq (c := c) hstart .nil (hrest ▸ hs)
    (hrest.trans (List.append_nil _).symm) hfuel
  rw [keys, finish, hvisit]
  rfl

theorem keysFrom_eq (ht : WellFormed c t) (hfuel : t.size ≤ fuel) (key : K) :
    keysFrom c fuel t key = some ((SortedList.fromKey c key t.toList).map Prod.fst) := by
  obtain ⟨⟨h, hv⟩, hs⟩ := ht
  obtain ⟨hlower, hrest⟩ := lowerBound_spec c key hv.measured hs
  rw [hv.measured.size_eq] at hfuel
  have hvisit := visit_eq (c := c) hlower .nil (hrest ▸ hs.filter _)
    (hrest.trans (List.append_nil _).symm) ((List.length_filter_le _ _).trans hfuel)
  rw [keysFrom, finish, hvisit]
  rfl

theorem keysIn_eq (ht : WellFormed c t) (hfuel : t.size ≤ fuel) (a b : K) :
    keysIn c fuel t a b = some ((SortedList.between c a b t.toList).map Prod.fst) := by
  obtain ⟨⟨h, hv⟩, hs⟩ := ht
  obtain ⟨hlower, hrest⟩ := lowerBound_spec c a hv.measured hs
  obtain ⟨hlower', hrest'⟩ := lowerBound_spec c b hv.measured hs
  rw [hv.measured.size_eq] at hfuel
  by_cases hab : c.compare a b = .lt
  · have hsplit := SortedList.fromKey_eq_between_append c hab hs
    rw [← hrest'] at hsplit
    have hvisit := visit_eq (c := c) hlower hlower' (hrest ▸ hs.filter _)
      (hrest.trans hsplit) ((List.length_filter_le _ _).trans hfuel)
    rw [keysIn, if_neg (not_not.mpr hab), hvisit]
    rfl
  · have hvisit : visit fuel finish (finish : LlrbNodeIterator K V) = some [] := by
      cases fuel <;> rfl
    rw [keysIn, if_pos hab, hvisit, SortedList.between_eq_nil c hab]
    rfl

variable (c)

/-- Loops over the map, over its end from a key on, and over the keys between two keys fail no
assertion, see just those keys, in order, and come to their end within as many rounds as there
are entries. -/
theorem loops_see_keys (changes : List (SortedMap.Change K V)) (extra : ℕ) (a b : K) :
    let t := runTree c changes
    let m := SortedMap.run c changes
    keys (t.size + extra) t = some m.keys ∧
      keysFrom c (t.size + extra) t a = some (m.keys.filter fun k => c.compare k a != .lt) ∧
        keysIn c (t.size + extra) t a b =
          some (m.keys.filter fun k => c.compare k a != .lt && c.compare k b == .lt) := by
  intro t m
  obtain ⟨ht, hlist⟩ : WellFormed c t ∧ t.toList = m.entries := run_holds c changes
  have hfuel : t.size ≤ t.size + extra := Nat.le_add_right _ _
  rw [keys_eq ht hfuel, keysFrom_eq ht hfuel, keysIn_eq ht hfuel, hlist]
  rw [SortedMap.keys, List.filter_map, List.filter_map]
  exact ⟨rfl, rfl, rfl⟩

end range

section reached

variable (c : Comparator K)

/-- The iterators that a program can hold on a tree. -/
inductive Reached (t : LlrbNode K V) : LlrbNodeIterator K V → Prop
  | start : Reached t (start t)
  | lowerBound (key : K) : Reached t (lowerBound c t key)
  | next {it it' : LlrbNodeIterator K V} : Reached t it → it.next = some it' → Reached t it'

variable {c}

theorem Reached.sound {t : LlrbNode K V} {it : LlrbNodeIterator K V} (ht : WellFormed c t)
    (hit : Reached c t it) : Sound 0 (depth t) it.stack := by
  obtain ⟨⟨h, hv⟩, hs⟩ := ht
  induction hit with
  | start => exact (start_spec hv.measured).1
  | lowerBound key => exact (lowerBound_spec c key hv.measured hs).1
  | @next it it' hit hnext ih =>
      rcases remaining_cases ih with ⟨hend, -⟩ | ⟨-, e, s, -, hnext', hs', -⟩
      · obtain ⟨stack⟩ := it
        cases stack with
        | nil => cases hnext
        | cons t stack => cases hend
      · rw [hnext] at hnext'
        injection hnext' with heq
        rw [heq]
        exact hs'

variable (c)

/-- However far an iterator has come, its stack is at most logarithmic in the map's size. -/
theorem stack_le_log (changes : List (SortedMap.Change K V)) {it : LlrbNodeIterator K V}
    (hit : Reached c (runTree c changes) it) :
    it.stack.length ≤ 2 * Nat.log 2 ((SortedMap.run c changes).size + 1) := by
  obtain ⟨ht, hlist⟩ := run_holds c changes
  have hlen := (hit.sound ht).length_le
  have hdepth := ht.depth_le
  rw [hlist] at hdepth
  exact hlen.trans hdepth

/-- The iterator to the first key from 2 on, moved on once. -/
theorem lowerBound_next_stack_le_log :
    let c := Comparator.ofLinearOrder ℕ
    let changes : List (SortedMap.Change ℕ ℕ) :=
      [.insert 4 40, .insert 2 20, .insert 6 60, .insert 1 10, .insert 3 30, .insert 5 50,
        .insert 7 70, .erase 6]
    ∃ it, (lowerBound c (runTree c changes) 2).next = some it ∧ it.get = some (3, 30) ∧
      it.stack.length ≤ 2 * Nat.log 2 ((SortedMap.run c changes).size + 1) := by
  intro c changes
  have hget : (lowerBound c (runTree c changes) 2).next.bind get = some (3, 30) := by
    decide +kernel
  obtain ⟨it, hnext, hentry⟩ := Option.bind_eq_some_iff.mp hget
  exact ⟨it, hnext, hentry, stack_le_log c changes (.next (.lowerBound 2) hnext)⟩

end reached

end YouRoute.LlrbIterators
