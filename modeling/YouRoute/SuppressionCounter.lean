import YouRoute.GreedySuppression
import YouRoute.StepSystem
import Mathlib.Tactic.Ring

/-!
# The early exit of suppression

The nested loops taken one round at a time. A round of the inner loop may clear a
flag, but only at a position after those of the selected boxes, so the flags of
the selected boxes stay up. The counter is the number of flags that are up, hence
at least the number of selected boxes, and it cannot reach zero inside the inner
loop. The branch that leaves both loops there is dead.
-/

namespace YouRoute.SuppressionCounter
open StepSystem GreedySuppression

/-- The variables of the loops. `taken` is not one of the code's: it records the
sorted positions of the selected boxes. -/
structure LoopState (F : Type*) (n : ℕ) where
  selected : List (Prediction F)
  active : Vector Bool n
  numActive : ℤ
  taken : List (Fin n)

inductive LoopExit where
  | finished
  | limit
  | breakOuter
  deriving DecidableEq, Repr

/-- Where the loops stand, with what is left of their ranges. -/
inductive Config (F : Type*) (n : ℕ) where
  | outer (is : List (Fin n)) (s : LoopState F n)
  | inner (boxA : Prediction F) (is js : List (Fin n)) (s : LoopState F n)
  | done (exit : LoopExit) (s : LoopState F n)

def Config.state {F : Type*} {n : ℕ} : Config F n → LoopState F n
  | .outer _ s => s
  | .inner _ _ _ s => s
  | .done _ s => s

def Config.inInnerLoop {F : Type*} {n : ℕ} : Config F n → Prop
  | .inner _ _ _ _ => True
  | _ => False

namespace LoopState

variable {F : Type*} {n : ℕ}

/-- `selected.append(boxA)` -/
def take (s : LoopState F n) (i : Fin n) (boxA : Prediction F) : LoopState F n :=
  { s with selected := s.selected ++ [boxA], taken := s.taken ++ [i] }

/-- `active[j] = false` and `numActive -= 1` -/
def clear (s : LoopState F n) (j : Fin n) : LoopState F n :=
  { s with active := deactivate s.active j, numActive := s.numActive - 1 }

end LoopState

def start (F : Type*) (n : ℕ) : Config F n :=
  .outer (List.finRange n) ⟨[], Vector.replicate n true, n, []⟩

section Loops

variable {F : Type*} [Add F] [Sub F] [Mul F] [Div F] [Neg F] [Zero F] [Max F] [Min F] [LE F]
  [DecidableLE F] [LT F] [DecidableLT F] {n : ℕ} (box : Fin n → Prediction F) (limit : ℤ)
  (threshold : F)

/-- One round of the loop that is running. -/
def step : Config F n → Unit → Option (Config F n)
  | .outer [] s, _ => some (.done .finished s)
  | .outer (i :: is) s, _ =>
      if isActive s.active i then
        let boxA := box i
        let s := s.take i boxA
        if limit ≤ s.selected.length then some (.done .limit s)
        else some (.inner boxA is is s)
      else some (.outer is s)
  | .inner _ is [] s, _ => some (.outer is s)
  | .inner boxA is (j :: js) s, _ =>
      if isActive s.active j then
        let boxB := box j
        if threshold < IOU boxA.rect boxB.rect then
          let s := s.clear j
          if s.numActive ≤ 0 then some (.done .breakOuter s)
          else some (.inner boxA is js s)
        else some (.inner boxA is js s)
      else some (.inner boxA is js s)
  | .done _ _, _ => none

/-- The rounds, one rule for each way through the code. -/
inductive Round : Config F n → Config F n → Prop
  | finish (s : LoopState F n) : Round (.outer [] s) (.done .finished s)
  | pass (i : Fin n) (is : List (Fin n)) (s : LoopState F n) :
      ¬ isActive s.active i = true → Round (.outer (i :: is) s) (.outer is s)
  | full (i : Fin n) (is : List (Fin n)) (s : LoopState F n) :
      isActive s.active i = true → limit ≤ ((s.take i (box i)).selected.length : ℤ) →
      Round (.outer (i :: is) s) (.done .limit (s.take i (box i)))
  | take (i : Fin n) (is : List (Fin n)) (s : LoopState F n) :
      isActive s.active i = true → ¬ limit ≤ ((s.take i (box i)).selected.length : ℤ) →
      Round (.outer (i :: is) s) (.inner (box i) is is (s.take i (box i)))
  | next (boxA : Prediction F) (is : List (Fin n)) (s : LoopState F n) :
      Round (.inner boxA is [] s) (.outer is s)
  | keep (boxA : Prediction F) (is : List (Fin n)) (j : Fin n) (js : List (Fin n))
      (s : LoopState F n) :
      ¬ (isActive s.active j = true ∧ threshold < IOU boxA.rect (box j).rect) →
      Round (.inner boxA is (j :: js) s) (.inner boxA is js s)
  | leave (boxA : Prediction F) (is : List (Fin n)) (j : Fin n) (js : List (Fin n))
      (s : LoopState F n) :
      isActive s.active j = true → threshold < IOU boxA.rect (box j).rect →
      (s.clear j).numActive ≤ 0 →
      Round (.inner boxA is (j :: js) s) (.done .breakOuter (s.clear j))
  | clear (boxA : Prediction F) (is : List (Fin n)) (j : Fin n) (js : List (Fin n))
      (s : LoopState F n) :
      isActive s.active j = true → threshold < IOU boxA.rect (box j).rect →
      ¬ (s.clear j).numActive ≤ 0 →
      Round (.inner boxA is (j :: js) s) (.inner boxA is js (s.clear j))

theorem round_of_step {c d : Config F n} {u : Unit} (h : step box limit threshold c u = some d) :
    Round box limit threshold c d := by
  cases c with
  | outer is s =>
      cases is with
      | nil =>
          cases h
          exact Round.finish s
      | cons i is =>
          simp only [step] at h
          split_ifs at h with hup hfull
          · cases h
            exact Round.full i is s hup hfull
          · cases h
            exact Round.take i is s hup hfull
          · cases h
            exact Round.pass i is s hup
  | inner boxA is js s =>
      cases js with
      | nil =>
          cases h
          exact Round.next boxA is s
      | cons j js =>
          simp only [step] at h
          split_ifs at h with hup hover hnum
          · cases h
            exact Round.leave boxA is j js s hup hover hnum
          · cases h
            exact Round.clear boxA is j js s hup hover hnum
          · cases h
            exact Round.keep boxA is j js s fun hboth => hover hboth.2
          · cases h
            exact Round.keep boxA is j js s fun hboth => hup hboth.1
  | done exit s => cases h

end Loops

section Flags

variable {n : ℕ}

theorem toList_eq_map_isActive (active : Vector Bool n) :
    active.toList = (List.finRange n).map (isActive active) := by
  apply List.ext_getElem
  · simp
  · intro k hk hk'
    simp [isActive]

/-- Distinct positions with their flags up are no more than the flags that are up. -/
theorem length_le_count {active : Vector Bool n} {taken : List (Fin n)} (hnodup : taken.Nodup)
    (hup : ∀ t ∈ taken, isActive active t = true) : taken.length ≤ active.count true := by
  have hcount : active.count true = ((List.finRange n).filter (isActive active)).length := by
    rw [← Vector.count_toList, toList_eq_map_isActive, List.count_eq_countP, List.countP_map,
      List.countP_eq_length_filter]
    simp [Function.comp_def]
  have hsub : taken ⊆ (List.finRange n).filter (isActive active) := by
    intro t ht
    exact List.mem_filter.mpr ⟨List.mem_finRange t, hup t ht⟩
  rw [hcount]
  exact (hnodup.subperm hsub).length_le

end Flags

section Invariants

variable {F : Type*} {n : ℕ} {box : Fin n → Prediction F}

/-- What the loops keep, `pending` being what is left of the outer range. -/
structure Counted (box : Fin n → Prediction F) (s : LoopState F n) (pending : List (Fin n)) :
    Prop where
  numActive_eq : s.numActive = s.active.count true
  selected_eq : s.selected = s.taken.map box
  nodup : (s.taken ++ pending).Nodup
  up : ∀ t ∈ s.taken, isActive s.active t = true

theorem Counted.length_le {s : LoopState F n} {pending : List (Fin n)}
    (h : Counted box s pending) : (s.selected.length : ℤ) ≤ s.numActive := by
  have hle := length_le_count (List.nodup_append.mp h.nodup).1 h.up
  rw [h.numActive_eq, h.selected_eq, List.length_map]
  exact_mod_cast hle

theorem Counted.sublist {s : LoopState F n} {pending rest : List (Fin n)}
    (h : Counted box s pending) (hsub : rest.Sublist pending) : Counted box s rest :=
  ⟨h.numActive_eq, h.selected_eq, h.nodup.sublist (hsub.append_left s.taken), h.up⟩

theorem Counted.take {s : LoopState F n} {i : Fin n} {is : List (Fin n)}
    (h : Counted box s (i :: is)) (hup : isActive s.active i = true) :
    Counted box (s.take i (box i)) is := by
  refine ⟨h.numActive_eq, ?_, ?_, ?_⟩
  · simp only [LoopState.take, h.selected_eq, List.map_append, List.map_cons, List.map_nil]
  · simpa [LoopState.take] using h.nodup
  · intro t ht
    rcases List.mem_append.mp ht with ht | ht
    · exact h.up t ht
    · exact List.mem_singleton.mp ht ▸ hup

/-- A flag cleared ahead of the outer loop is none of the selected boxes'. -/
theorem Counted.clear {s : LoopState F n} {j : Fin n} {is : List (Fin n)}
    (h : Counted box s is) (hj : j ∈ is) (hup : isActive s.active j = true) :
    Counted box (s.clear j) is := by
  refine ⟨?_, h.selected_eq, h.nodup, ?_⟩
  · have hcount := count_deactivate hup
    have hnum := h.numActive_eq
    simp only [LoopState.clear]
    omega
  · intro t ht
    have hne : t ≠ j := (List.nodup_append.mp h.nodup).2.2 t ht j hj
    exact (isActive_deactivate s.active j t).mpr ⟨h.up t ht, hne⟩

/-- The counter stays above zero while there is a selected box. -/
theorem Counted.numActive_pos {s : LoopState F n} {is : List (Fin n)} (h : Counted box s is)
    (hne : s.selected ≠ []) : ¬ s.numActive ≤ 0 := by
  have hle := h.length_le
  have hpos := List.length_pos_iff_ne_nil.mpr hne
  omega

/-- What holds wherever the loops stand. -/
def Reached (box : Fin n → Prediction F) : Config F n → Prop
  | .outer is s => Counted box s is
  | .inner _ is js s => Counted box s is ∧ js ⊆ is ∧ s.selected ≠ []
  | .done exit s => Counted box s [] ∧ exit ≠ .breakOuter

theorem start_reached (box : Fin n → Prediction F) : Reached box (start F n) := by
  refine ⟨(count_replicate n).symm, rfl, List.nodup_finRange n, ?_⟩
  intro t ht
  cases ht

end Invariants

section Steps

variable {F : Type*} [Add F] [Sub F] [Mul F] [Div F] [Neg F] [Zero F] [Max F] [Min F] [LE F]
  [DecidableLE F] [LT F] [DecidableLT F] {n : ℕ} {box : Fin n → Prediction F} {limit : ℤ}
  {threshold : F}

omit [DecidableLT F] in
theorem Round.reached {c d : Config F n} (hround : Round box limit threshold c d)
    (h : Reached box c) : Reached box d := by
  cases hround with
  | finish s => exact ⟨h, by decide⟩
  | pass i is s hup => exact Counted.sublist h (List.sublist_cons_self i is)
  | full i is s hup hfull => exact ⟨(h.take hup).sublist (List.nil_sublist is), by decide⟩
  | take i is s hup hroom =>
      refine ⟨h.take hup, List.Subset.refl is, ?_⟩
      simp [LoopState.take]
  | next boxA is s => exact h.1
  | keep boxA is j js s hkeep => exact ⟨h.1, (List.cons_subset.mp h.2.1).2, h.2.2⟩
  | leave boxA is j js s hup hover hnum =>
      have hclear := h.1.clear (h.2.1 List.mem_cons_self) hup
      exact absurd hnum (hclear.numActive_pos h.2.2)
  | clear boxA is j js s hup hover hnum =>
      have hclear := h.1.clear (h.2.1 List.mem_cons_self) hup
      exact ⟨hclear, (List.cons_subset.mp h.2.1).2, h.2.2⟩

theorem reached_of_run {es : List Unit} {c : Config F n}
    (h : run (step box limit threshold) (start F n) es = some c) : Reached box c := by
  have hall : Throughout (step box limit threshold) (Reached box) (start F n) es :=
    throughout_of_step (fun _ _ _ hc hd => (round_of_step _ _ _ hd).reached hc)
      (start_reached box)
  exact hall.last h

end Steps

section Results

variable {F : Type*} [Add F] [Sub F] [Mul F] [Div F] [Neg F] [Zero F] [Max F] [Min F] [LE F]
  [DecidableLE F] [LT F] [DecidableLT F] {n : ℕ} (box : Fin n → Prediction F) (limit : ℤ)
  (threshold : F)

/-- What the code returns from where the loops stand. -/
def result : Config F n → List (Prediction F)
  | .outer is s => outerLoop box limit threshold is s.selected s.active s.numActive
  | .inner boxA is js s =>
      match innerLoop box threshold boxA js s.active s.numActive with
      | .finished active numActive =>
          outerLoop box limit threshold is s.selected active numActive
      | .breakOuter => s.selected
  | .done _ s => s.selected

variable {box limit threshold}

theorem outerLoop_take {i : Fin n} (is : List (Fin n)) (selected : List (Prediction F))
    (active : Vector Bool n) (numActive : ℤ) (hup : isActive active i = true)
    (hroom : ¬ limit ≤ ((selected ++ [box i]).length : ℤ)) :
    outerLoop box limit threshold (i :: is) selected active numActive =
      match innerLoop box threshold (box i) is active numActive with
      | .finished active numActive =>
          outerLoop box limit threshold is (selected ++ [box i]) active numActive
      | .breakOuter => selected ++ [box i] := by
  rw [outerLoop, if_pos hup]
  exact if_neg hroom

theorem Round.result_eq {c d : Config F n} (hround : Round box limit threshold c d) :
    result box limit threshold d = result box limit threshold c := by
  cases hround with
  | finish s => rfl
  | pass i is s hup => simp only [result, outerLoop, if_neg hup]
  | full i is s hup hfull =>
      simp only [LoopState.take] at hfull
      simp only [result, outerLoop, LoopState.take, if_pos hup, if_pos hfull]
  | take i is s hup hroom =>
      exact (outerLoop_take is s.selected s.active s.numActive hup hroom).symm
  | next boxA is s => rfl
  | keep boxA is j js s hkeep =>
      simp only [result, innerLoop]
      by_cases hup : isActive s.active j = true
      · have hover : ¬ threshold < IOU boxA.rect (box j).rect := fun hover => hkeep ⟨hup, hover⟩
        rw [if_pos hup, if_neg hover]
      · rw [if_neg hup]
  | leave boxA is j js s hup hover hnum =>
      simp only [LoopState.clear] at hnum
      simp only [result, innerLoop, LoopState.clear, if_pos hup, if_pos hover, if_pos hnum]
  | clear boxA is j js s hup hover hnum =>
      simp only [LoopState.clear] at hnum
      simp only [result, innerLoop, LoopState.clear, if_pos hup, if_pos hover, if_neg hnum]

/-- How many rounds may be left. -/
def rank : Config F n → ℕ
  | .outer is _ => (is.length + 1) ^ 2
  | .inner _ is js _ => js.length + 1 + (is.length + 1) ^ 2
  | .done _ _ => 0

omit [DecidableLT F] in
theorem Round.rank_lt {c d : Config F n} (hround : Round box limit threshold c d) :
    rank d < rank c := by
  have hsquare : ∀ m : ℕ, (m + 1 + 1) ^ 2 = (m + 1) ^ 2 + (2 * m + 3) := fun m => by ring
  have hpos : ∀ m : ℕ, 0 < (m + 1) ^ 2 := fun m => Nat.pow_pos m.succ_pos
  cases hround with
  | finish s => exact hpos 0
  | pass i is s hup =>
      simp only [rank, List.length_cons, hsquare]
      omega
  | full i is s hup hfull => exact hpos _
  | take i is s hup hroom =>
      simp only [rank, List.length_cons, hsquare]
      omega
  | next boxA is s =>
      simp only [rank, List.length_nil]
      omega
  | keep boxA is j js s hkeep =>
      simp only [rank, List.length_cons]
      omega
  | leave boxA is j js s hup hover hnum =>
      simp only [rank, List.length_cons]
      omega
  | clear boxA is j js s hup hover hnum =>
      simp only [rank, List.length_cons]
      omega

theorem done_of_stuck {c : Config F n} (h : step box limit threshold c () = none) :
    ∃ exit s, c = .done exit s := by
  cases c with
  | outer is s =>
      cases is with
      | nil => cases h
      | cons i is =>
          simp only [step] at h
          split_ifs at h
  | inner boxA is js s =>
      cases js with
      | nil => cases h
      | cons j js =>
          simp only [step] at h
          split_ifs at h
  | done exit s => exact ⟨exit, s, rfl⟩

/-- The rounds come to an end, with what the nested loops return. -/
theorem exists_run_done (box : Fin n → Prediction F) (limit : ℤ) (threshold : F) :
    ∃ es exit s, run (step box limit threshold) (start F n) es = some (.done exit s) ∧
      s.selected = outerLoop box limit threshold (List.finRange n) []
        (Vector.replicate n true) n := by
  obtain ⟨es, c, hrun, hstuck⟩ := exists_run_stuck
    (fun _ _ _ hd => (round_of_step box limit threshold hd).rank_lt) (start F n)
  have hall : Throughout (step box limit threshold)
      (fun c => result box limit threshold c = result box limit threshold (start F n))
      (start F n) es :=
    throughout_of_step (fun _ _ _ hc hd => (round_of_step _ _ _ hd).result_eq.trans hc) rfl
  have hresult := hall.last hrun
  obtain ⟨exit, s, rfl⟩ := done_of_stuck (hstuck ())
  exact ⟨es, exit, s, hrun, hresult⟩

end Results

section WithoutCounter

variable {F : Type*} [Add F] [Sub F] [Mul F] [Div F] [Neg F] [Zero F] [Max F] [Min F] [LE F]
  [DecidableLE F] [LT F] [DecidableLT F] {n : ℕ}

/-- The inner loop of the code without `numActive` and the branch on it. -/
def innerLoopWithoutCounter (box : Fin n → Prediction F) (threshold : F) (boxA : Prediction F) :
    List (Fin n) → Vector Bool n → Vector Bool n
  | [], active => active
  | j :: js, active =>
      if isActive active j then
        let boxB := box j
        if threshold < IOU boxA.rect boxB.rect then
          innerLoopWithoutCounter box threshold boxA js (deactivate active j)
        else innerLoopWithoutCounter box threshold boxA js active
      else innerLoopWithoutCounter box threshold boxA js active

def outerLoopWithoutCounter (box : Fin n → Prediction F) (limit : ℤ) (threshold : F) :
    List (Fin n) → List (Prediction F) → Vector Bool n → List (Prediction F)
  | [], selected, _ => selected
  | i :: is, selected, active =>
      if isActive active i then
        let boxA := box i
        let selected := selected ++ [boxA]
        if limit ≤ selected.length then selected
        else outerLoopWithoutCounter box limit threshold is selected
          (innerLoopWithoutCounter box threshold boxA is active)
      else outerLoopWithoutCounter box limit threshold is selected active

def nonMaxSuppressionWithoutCounter (boxes : List (Prediction F))
    (sortedIndices : SortedIndices boxes) (limit : ℤ) (threshold : F) : List (Prediction F) :=
  outerLoopWithoutCounter sortedIndices.box limit threshold (List.finRange boxes.length) []
    (Vector.replicate boxes.length true)

/-- While the flag of a position outside the range is up, the inner loop only
clears flags. -/
theorem innerLoop_eq (box : Fin n → Prediction F) (threshold : F) (i : Fin n)
    (js : List (Fin n)) (active : Vector Bool n) (hi : isActive active i = true) (hjs : i ∉ js) :
    innerLoop box threshold (box i) js active (active.count true) =
      .finished (innerLoopWithoutCounter box threshold (box i) js active)
        ((innerLoopWithoutCounter box threshold (box i) js active).count true) := by
  induction js generalizing active with
  | nil => rfl
  | cons k js ih =>
      have hne : i ≠ k := fun h => hjs (h ▸ List.mem_cons_self)
      have htail : i ∉ js := fun h => hjs (List.mem_cons_of_mem k h)
      by_cases hk : isActive active k = true
      · by_cases hover : threshold < IOU (box i).rect (box k).rect
        · have hi' : isActive (deactivate active k) i = true :=
            (isActive_deactivate active k i).mpr ⟨hi, hne⟩
          rw [innerLoop_clear box threshold i k js active hi hne hk hover,
            ih (deactivate active k) hi' htail]
          simp only [innerLoopWithoutCounter, if_pos hk, if_pos hover]
        · rw [innerLoop_keep box threshold i k js active _ fun h => hover h.2, ih active hi htail]
          simp only [innerLoopWithoutCounter, if_pos hk, if_neg hover]
      · rw [innerLoop_keep box threshold i k js active _ fun h => hk h.1, ih active hi htail]
        simp only [innerLoopWithoutCounter, if_neg hk]

theorem outerLoop_eq (box : Fin n → Prediction F) (limit : ℤ) (threshold : F)
    (is : List (Fin n)) (his : is.Nodup) (selected : List (Prediction F))
    (active : Vector Bool n) :
    outerLoop box limit threshold is selected active (active.count true) =
      outerLoopWithoutCounter box limit threshold is selected active := by
  induction is generalizing selected active with
  | nil => rfl
  | cons i is ih =>
      obtain ⟨hi, htail⟩ := List.nodup_cons.mp his
      rw [outerLoop, outerLoopWithoutCounter]
      by_cases hup : isActive active i = true
      · rw [if_pos hup, if_pos hup]
        simp only [innerLoop_eq box threshold i is active hup hi, ih htail]
      · rw [if_neg hup, if_neg hup]
        exact ih htail selected active

theorem outerLoop_start_eq (box : Fin n → Prediction F) (limit : ℤ) (threshold : F) :
    outerLoop box limit threshold (List.finRange n) [] (Vector.replicate n true) n =
      outerLoopWithoutCounter box limit threshold (List.finRange n) []
        (Vector.replicate n true) := by
  rw [← count_replicate n]
  exact outerLoop_eq box limit threshold _ (List.nodup_finRange n) [] _

end WithoutCounter

section Sound

variable {F : Type*} {n : ℕ}

/-- The counter is right, each selected box keeps its own flag, and the branch on
the counter is not the way the loops were left. -/
structure Sound (box : Fin n → Prediction F) (c : Config F n) : Prop where
  numActive_eq : c.state.numActive = c.state.active.count true
  selected_eq : c.state.selected = c.state.taken.map box
  taken_nodup : c.state.taken.Nodup
  up : ∀ t ∈ c.state.taken, isActive c.state.active t = true
  inner : c.inInnerLoop →
    1 ≤ c.state.selected.length ∧ (c.state.selected.length : ℤ) ≤ c.state.numActive
  not_left : ∀ s, c ≠ .done .breakOuter s

theorem Counted.sound {box : Fin n → Prediction F} {c : Config F n} {pending : List (Fin n)}
    (h : Counted box c.state pending) (hinner : c.inInnerLoop → c.state.selected ≠ [])
    (hleft : ∀ s, c ≠ .done .breakOuter s) : Sound box c where
  numActive_eq := h.numActive_eq
  selected_eq := h.selected_eq
  taken_nodup := (List.nodup_append.mp h.nodup).1
  up := h.up
  inner := fun hc => ⟨List.length_pos_iff_ne_nil.mpr (hinner hc), h.length_le⟩
  not_left := hleft

theorem Reached.sound {box : Fin n → Prediction F} {c : Config F n} (h : Reached box c) :
    Sound box c := by
  cases c with
  | outer is s => exact Counted.sound h False.elim (fun _ hs => by cases hs)
  | inner boxA is js s => exact h.1.sound (fun _ => h.2.2) (fun _ hs => by cases hs)
  | done exit s => exact h.1.sound False.elim (fun _ hs => h.2 (by cases hs; rfl))

end Sound

/-- At every round of the loops the counter is the number of flags that are up and
the flags of the selected boxes are up, whatever order of the boxes the sort gave;
so the counter never ends the search, and the code without it returns the same. -/
theorem early_exit_sound {F : Type*} [Add F] [Sub F] [Mul F] [Div F] [Neg F] [Zero F] [Max F]
    [Min F] [LE F] [DecidableLE F] [LT F] [DecidableLT F] (boxes : List (Prediction F))
    (order : Fin boxes.length → Fin boxes.length) (limit : ℤ) (threshold : F) :
    (∀ es c, run (step (fun i => boxes[order i]) limit threshold) (start F boxes.length) es =
      some c → Sound (fun i => boxes[order i]) c) ∧
    (∃ es exit s, run (step (fun i => boxes[order i]) limit threshold)
        (start F boxes.length) es = some (.done exit s) ∧
      s.selected = outerLoop (fun i => boxes[order i]) limit threshold
        (List.finRange boxes.length) [] (Vector.replicate boxes.length true) boxes.length) ∧
    outerLoop (fun i => boxes[order i]) limit threshold (List.finRange boxes.length) []
        (Vector.replicate boxes.length true) boxes.length =
      outerLoopWithoutCounter (fun i => boxes[order i]) limit threshold
        (List.finRange boxes.length) [] (Vector.replicate boxes.length true) ∧
    ∀ sortedIndices : SortedIndices boxes,
      nonMaxSuppression boxes sortedIndices limit threshold =
        nonMaxSuppressionWithoutCounter boxes sortedIndices limit threshold := by
  refine ⟨?_, ?_, ?_, ?_⟩
  · intro es c hrun
    exact (reached_of_run hrun).sound
  · exact exists_run_done (fun i => boxes[order i]) limit threshold
  · exact outerLoop_start_eq (fun i => boxes[order i]) limit threshold
  · intro sortedIndices
    exact outerLoop_start_eq sortedIndices.box limit threshold

end YouRoute.SuppressionCounter
