import YouRoute.SortedLists

/-!
# The nodes of a sorted map's tree

A large sorted map keeps its entries in a left-leaning red-black tree. A node
stores its colour and the number of entries at it and beneath it; an empty node
stores the number zero. Rotations, colour flips and the repairs built from them
keep the entries and their order. They never read the colour of the node they
are applied to, so two trees that differ only in the colour of the root are
repaired to trees that again differ there at most.
-/

namespace YouRoute.LlrbNodes

inductive Color
  | black
  | red
  deriving DecidableEq, Repr

def Color.opposite : Color → Color
  | .black => .red
  | .red => .black

@[simp] theorem Color.opposite_black : Color.black.opposite = .red := rfl

@[simp] theorem Color.opposite_red : Color.red.opposite = .black := rfl

inductive LlrbNode (K V : Type*)
  | empty (color : Color)
  | node (color : Color) (size : ℕ) (entry : K × V) (left right : LlrbNode K V)

namespace LlrbNode

variable {K V : Type*}

def color : LlrbNode K V → Color
  | empty k => k
  | node k _ _ _ _ => k

def size : LlrbNode K V → ℕ
  | empty _ => 0
  | node _ n _ _ _ => n

/-- Below an empty node there is the shared empty node, which is black. -/
def left : LlrbNode K V → LlrbNode K V
  | empty _ => empty .black
  | node _ _ _ l _ => l

def right : LlrbNode K V → LlrbNode K V
  | empty _ => empty .black
  | node _ _ _ _ r => r

def isEmpty (t : LlrbNode K V) : Bool := t.size == 0

def red (t : LlrbNode K V) : Bool := t.color == .red

def setColor (k : Color) : LlrbNode K V → LlrbNode K V
  | empty _ => empty k
  | node _ n e l r => node k n e l r

def setSize (n : ℕ) : LlrbNode K V → LlrbNode K V
  | empty k => empty k
  | node k _ e l r => node k n e l r

def setEntry (e : K × V) : LlrbNode K V → LlrbNode K V
  | empty k => empty k
  | node k n _ l r => node k n e l r

def setLeft : LlrbNode K V → LlrbNode K V → LlrbNode K V
  | empty k, _ => empty k
  | node k n e _ r, l => node k n e l r

def setRight : LlrbNode K V → LlrbNode K V → LlrbNode K V
  | empty k, _ => empty k
  | node k n e l _, r => node k n e l r

/-- The entry of a node; the reader says what stands in an empty one. -/
def entryOr (e : K × V) : LlrbNode K V → K × V
  | empty _ => e
  | node _ _ f _ _ => f

/-- The left-most node that has an entry. -/
def min : LlrbNode K V → LlrbNode K V
  | empty k => empty k
  | node k n e l r => if l.isEmpty then node k n e l r else l.min

def max : LlrbNode K V → LlrbNode K V
  | empty k => empty k
  | node k n e l r => if r.isEmpty then node k n e l r else r.max

/-- The right child takes the place of the node, which keeps its colour and its size. -/
def rotateLeft : LlrbNode K V → LlrbNode K V
  | node k n e l (node _ _ f rl rr) =>
      node k n f (node .red (l.size + 1 + rl.size) e l rl) rr
  | t => t

def rotateRight : LlrbNode K V → LlrbNode K V
  | node k n e (node _ _ f ll lr) r =>
      node k n f ll (node .red (lr.size + 1 + r.size) e lr r)
  | t => t

def flipColor : LlrbNode K V → LlrbNode K V
  | node k n e l r =>
      node k.opposite n e (l.setColor l.color.opposite) (r.setColor r.color.opposite)
  | t => t

def fixUp (t : LlrbNode K V) : LlrbNode K V :=
  let t := t.setSize (t.left.size + 1 + t.right.size)
  let t := if t.right.red && !t.left.red then t.rotateLeft else t
  let t := if t.left.red && t.left.left.red then t.rotateRight else t
  if t.left.red && t.right.red then t.flipColor else t

def fixRootColor (t : LlrbNode K V) : LlrbNode K V := if t.red then t.setColor .black else t

def moveRedLeft (t : LlrbNode K V) : LlrbNode K V :=
  let t := t.flipColor
  if t.right.left.red then (t.setRight t.right.rotateRight).rotateLeft.flipColor else t

def moveRedRight (t : LlrbNode K V) : LlrbNode K V :=
  let t := t.flipColor
  if t.left.left.red then t.rotateRight.flipColor else t

@[simp] theorem size_setColor (k : Color) (t : LlrbNode K V) : (t.setColor k).size = t.size := by
  cases t <;> rfl

section node

variable (k j : Color) (n m : ℕ) (e f : K × V) (l r s : LlrbNode K V)

@[simp] theorem color_node : (node k n e l r).color = k := rfl

@[simp] theorem size_node : (node k n e l r).size = n := rfl

@[simp] theorem left_node : (node k n e l r).left = l := rfl

@[simp] theorem right_node : (node k n e l r).right = r := rfl

@[simp] theorem red_node : (node k n e l r).red = (k == .red) := rfl

@[simp] theorem red_empty : (empty k : LlrbNode K V).red = (k == .red) := rfl

@[simp] theorem isEmpty_node : (node k n e l r).isEmpty = (n == 0) := rfl

@[simp] theorem isEmpty_empty : (empty k : LlrbNode K V).isEmpty = true := rfl

@[simp] theorem setColor_node : (node k n e l r).setColor j = node j n e l r := rfl

@[simp] theorem setSize_node : (node k n e l r).setSize m = node k m e l r := rfl

@[simp] theorem setEntry_node : (node k n e l r).setEntry f = node k n f l r := rfl

@[simp] theorem setLeft_node : (node k n e l r).setLeft s = node k n e s r := rfl

@[simp] theorem setRight_node : (node k n e l r).setRight s = node k n e l s := rfl

@[simp] theorem entryOr_node : (node k n e l r).entryOr f = e := rfl

@[simp] theorem rotateLeft_node :
    (node k n e l (node j m f s r)).rotateLeft =
      node k n f (node .red (l.size + 1 + s.size) e l s) r := rfl

@[simp] theorem rotateRight_node :
    (node k n e (node j m f l s) r).rotateRight =
      node k n f l (node .red (s.size + 1 + r.size) e s r) := rfl

@[simp] theorem flipColor_node :
    (node k n e l r).flipColor =
      node k.opposite n e (l.setColor l.color.opposite) (r.setColor r.color.opposite) := rfl

end node

/-- The entries of the tree from left to right. -/
def toList : LlrbNode K V → List (K × V)
  | empty _ => []
  | node _ _ e l r => l.toList ++ e :: r.toList

@[simp] theorem toList_empty (k : Color) : (empty k : LlrbNode K V).toList = [] := rfl

@[simp] theorem toList_node (k : Color) (n : ℕ) (e : K × V) (l r : LlrbNode K V) :
    (node k n e l r).toList = l.toList ++ e :: r.toList := rfl

@[simp] theorem toList_setColor (k : Color) (t : LlrbNode K V) :
    (t.setColor k).toList = t.toList := by
  cases t <;> rfl

@[simp] theorem toList_setSize (n : ℕ) (t : LlrbNode K V) :
    (t.setSize n).toList = t.toList := by
  cases t <;> rfl

@[simp] theorem toList_rotateLeft (t : LlrbNode K V) : t.rotateLeft.toList = t.toList := by
  unfold rotateLeft
  split
  · simp
  · rfl

@[simp] theorem toList_rotateRight (t : LlrbNode K V) : t.rotateRight.toList = t.toList := by
  unfold rotateRight
  split
  · simp
  · rfl

@[simp] theorem toList_flipColor (t : LlrbNode K V) : t.flipColor.toList = t.toList := by
  cases t with
  | empty k => rfl
  | node k n e l r => simp [flipColor]

theorem toList_setRight_rotateRight (t : LlrbNode K V) :
    (t.setRight t.right.rotateRight).toList = t.toList := by
  cases t with
  | empty k => rfl
  | node k n e l r => simp [setRight, right]

@[simp] theorem toList_fixUp (t : LlrbNode K V) : t.fixUp.toList = t.toList := by
  unfold fixUp
  dsimp only
  split_ifs <;> simp

@[simp] theorem toList_fixRootColor (t : LlrbNode K V) : t.fixRootColor.toList = t.toList := by
  unfold fixRootColor
  split_ifs <;> simp

@[simp] theorem toList_moveRedLeft (t : LlrbNode K V) : t.moveRedLeft.toList = t.toList := by
  unfold moveRedLeft
  dsimp only
  split_ifs
  · rw [toList_flipColor, toList_rotateLeft, toList_setRight_rotateRight, toList_flipColor]
  · rw [toList_flipColor]

@[simp] theorem toList_moveRedRight (t : LlrbNode K V) : t.moveRedRight.toList = t.toList := by
  unfold moveRedRight
  dsimp only
  split_ifs <;> simp

theorem toList_left_sublist (t : LlrbNode K V) : t.left.toList.Sublist t.toList := by
  cases t with
  | empty k => exact .slnil
  | node k n e l r => exact List.sublist_append_left _ _

theorem toList_right_sublist (t : LlrbNode K V) : t.right.toList.Sublist t.toList := by
  cases t with
  | empty k => exact .slnil
  | node k n e l r =>
      exact (List.sublist_cons_self e r.toList).trans (List.sublist_append_right _ _)

theorem length_toList_left_lt {t : LlrbNode K V} (h : t.toList ≠ []) :
    t.left.toList.length < t.toList.length := by
  cases t with
  | empty k => exact (h rfl).elim
  | node k n e l r =>
      simp only [left, toList_node, List.length_append, List.length_cons]
      omega

theorem length_toList_right_lt {t : LlrbNode K V} (h : t.toList ≠ []) :
    t.right.toList.length < t.toList.length := by
  cases t with
  | empty k => exact (h rfl).elim
  | node k n e l r =>
      simp only [right, toList_node, List.length_append, List.length_cons]
      omega

def removeMin : LlrbNode K V → LlrbNode K V
  | empty _ => empty .black
  | node k n e l r =>
      if l.isEmpty then empty .black
      else
        let t := node k n e l r
        let t := if !t.left.red && !t.left.left.red then t.moveRedLeft else t
        (t.setLeft (removeMin t.left)).fixUp
termination_by t => t.toList.length
decreasing_by
  have hlist : t.toList = (node k n e l r).toList := by
    dsimp only [t]
    split_ifs
    · exact toList_moveRedLeft _
    · rfl
  have hne : t.toList ≠ [] := by simp [hlist]
  exact hlist ▸ length_toList_left_lt hne

/-- The node before a key is erased on its left. -/
def openLeft (t : LlrbNode K V) : LlrbNode K V :=
  if !t.left.isEmpty && !t.left.red && !t.left.left.red then t.moveRedLeft else t

/-- The node before a key is erased at it or on its right. -/
def openRight (t : LlrbNode K V) : LlrbNode K V :=
  let t := if t.left.red then t.rotateRight else t
  if !t.right.isEmpty && !t.right.red && !t.right.left.red then t.moveRedRight else t

@[simp] theorem toList_openLeft (t : LlrbNode K V) : t.openLeft.toList = t.toList := by
  unfold openLeft
  split_ifs <;> simp

@[simp] theorem toList_openRight (t : LlrbNode K V) : t.openRight.toList = t.toList := by
  unfold openRight
  dsimp only
  split_ifs <;> simp

variable (c : Comparator K)

def innerInsert (key : K) (value : V) : LlrbNode K V → LlrbNode K V
  | empty _ => node .red 1 (key, value) (empty .black) (empty .black)
  | node k n e l r =>
      if n = 0 then node .red 1 (key, value) (empty .black) (empty .black)
      else
        match c.compare e.1 key with
        | .gt => (node k n e (innerInsert key value l) r).fixUp
        | .lt => (node k n e l (innerInsert key value r)).fixUp
        | .eq => node k n (e.1, value) l r

def insert (key : K) (value : V) (t : LlrbNode K V) : LlrbNode K V :=
  (t.innerInsert c key value).fixRootColor

def innerErase (key : K) : LlrbNode K V → LlrbNode K V
  | empty _ => empty .black
  | node k n e l r =>
      if n = 0 then empty .black
      else if c.compare key e.1 = .lt then
        let t := (node k n e l r).openLeft
        (t.setLeft (innerErase key t.left)).fixUp
      else
        let t := (node k n e l r).openRight
        if c.compare key (t.entryOr e).1 = .eq then
          if t.right.isEmpty then empty .black
          else ((t.setEntry (t.right.min.entryOr e)).setRight t.right.removeMin).fixUp
        else (t.setRight (innerErase key t.right)).fixUp
termination_by t => t.toList.length
decreasing_by
  · have hlist : t.toList = (node k n e l r).toList := toList_openLeft _
    have hne : t.toList ≠ [] := by simp [hlist]
    exact hlist ▸ length_toList_left_lt hne
  · have hlist : t.toList = (node k n e l r).toList := toList_openRight _
    have hne : t.toList ≠ [] := by simp [hlist]
    exact hlist ▸ length_toList_right_lt hne

def erase (key : K) (t : LlrbNode K V) : LlrbNode K V := (t.innerErase c key).fixRootColor

/-- Two trees that differ in the colour of the root at most. -/
inductive Recolored : LlrbNode K V → LlrbNode K V → Prop
  | empty (a b : Color) : Recolored (empty a) (empty b)
  | node (a b : Color) (n : ℕ) (e : K × V) (l r : LlrbNode K V) :
      Recolored (node a n e l r) (node b n e l r)

namespace Recolored

variable {t u : LlrbNode K V}

theorem refl (t : LlrbNode K V) : Recolored t t := by
  cases t <;> constructor

theorem setColor {k : Color} (t : LlrbNode K V) : Recolored (t.setColor k) t := by
  cases t <;> constructor

theorem left_eq (h : Recolored t u) : t.left = u.left := by
  cases h <;> rfl

theorem right_eq (h : Recolored t u) : t.right = u.right := by
  cases h <;> rfl

theorem entryOr_eq (h : Recolored t u) (e : K × V) : t.entryOr e = u.entryOr e := by
  cases h <;> rfl

theorem setSize (h : Recolored t u) (n : ℕ) : Recolored (t.setSize n) (u.setSize n) := by
  cases h <;> constructor

theorem setEntry (h : Recolored t u) (e : K × V) : Recolored (t.setEntry e) (u.setEntry e) := by
  cases h <;> constructor

theorem setLeft (h : Recolored t u) (l : LlrbNode K V) :
    Recolored (t.setLeft l) (u.setLeft l) := by
  cases h <;> constructor

theorem setRight (h : Recolored t u) (r : LlrbNode K V) :
    Recolored (t.setRight r) (u.setRight r) := by
  cases h <;> constructor

theorem rotateLeft (h : Recolored t u) : Recolored t.rotateLeft u.rotateLeft := by
  cases h with
  | empty a b => constructor
  | node a b n e l r => cases r <;> constructor

theorem rotateRight (h : Recolored t u) : Recolored t.rotateRight u.rotateRight := by
  cases h with
  | empty a b => constructor
  | node a b n e l r => cases l <;> constructor

theorem flipColor (h : Recolored t u) : Recolored t.flipColor u.flipColor := by
  cases h <;> constructor

/-- A repair that looks at the children only leaves alike trees alike. -/
theorem repair (look : LlrbNode K V → LlrbNode K V → Bool) {f : LlrbNode K V → LlrbNode K V}
    (hf : ∀ {t u : LlrbNode K V}, Recolored t u → Recolored (f t) (f u)) (h : Recolored t u) :
    Recolored (if look t.left t.right then f t else t)
      (if look u.left u.right then f u else u) := by
  rw [h.left_eq, h.right_eq]
  split_ifs
  · exact hf h
  · exact h

theorem fixUp (h : Recolored t u) : Recolored t.fixUp u.fixUp := by
  have hsize : Recolored (t.setSize (t.left.size + 1 + t.right.size))
      (u.setSize (u.left.size + 1 + u.right.size)) := by
    rw [h.left_eq, h.right_eq]
    exact h.setSize _
  have hleft := hsize.repair (fun l r => r.red && !l.red) Recolored.rotateLeft
  have hright := hleft.repair (fun l _ => l.red && l.left.red) Recolored.rotateRight
  exact hright.repair (fun l r => l.red && r.red) Recolored.flipColor

theorem moveRedLeft (h : Recolored t u) : Recolored t.moveRedLeft u.moveRedLeft := by
  refine h.flipColor.repair (fun _ r => r.left.red)
    (f := fun t => (t.setRight t.right.rotateRight).rotateLeft.flipColor) ?_
  intro t u h
  rw [h.right_eq]
  exact (h.setRight _).rotateLeft.flipColor

theorem moveRedRight (h : Recolored t u) : Recolored t.moveRedRight u.moveRedRight :=
  h.flipColor.repair (fun l _ => l.left.red) (fun h => h.rotateRight.flipColor)

theorem openLeft (h : Recolored t u) : Recolored t.openLeft u.openLeft :=
  h.repair (fun l _ => !l.isEmpty && !l.red && !l.left.red) Recolored.moveRedLeft

theorem openRight (h : Recolored t u) : Recolored t.openRight u.openRight := by
  have hrotate := h.repair (fun l _ => l.red) Recolored.rotateRight
  exact hrotate.repair (fun _ r => !r.isEmpty && !r.red && !r.left.red) Recolored.moveRedRight

/-- Erasing a key does not read the colour of the root. -/
theorem innerErase (h : Recolored t u) (key : K) :
    Recolored (t.innerErase c key) (u.innerErase c key) := by
  cases h with
  | empty a b =>
      rw [LlrbNode.innerErase, LlrbNode.innerErase]
      exact .empty _ _
  | node a b n e l r =>
      rw [LlrbNode.innerErase, LlrbNode.innerErase]
      have hnode : Recolored (LlrbNode.node a n e l r) (LlrbNode.node b n e l r) :=
        .node a b n e l r
      dsimp only
      rw [hnode.openLeft.left_eq, hnode.openRight.right_eq, hnode.openRight.entryOr_eq]
      split_ifs
      · exact .empty _ _
      · exact (hnode.openLeft.setLeft _).fixUp
      · exact .empty _ _
      · exact ((hnode.openRight.setEntry _).setRight _).fixUp
      · exact (hnode.openRight.setRight _).fixUp

theorem fixRootColor_eq (h : Recolored t u) : t.fixRootColor = u.fixRootColor := by
  cases h with
  | empty a b => cases a <;> cases b <;> rfl
  | node a b n e l r => cases a <;> cases b <;> rfl

end Recolored

end LlrbNode

end YouRoute.LlrbNodes
