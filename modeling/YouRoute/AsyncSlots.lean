import Mathlib.Data.Nat.Notation
import Mathlib.Logic.Function.Basic

/-!
# Slots filled by asynchronous requests

A slot shows one value at a time and wants at most one. Requests for a slot are
in flight until they finish, in any order, and a request that finishes overwrites
what the slot shows. A slot that does not show what it wants is repaired only by a
request in flight, so the last request to finish has to be for the value wanted.
-/

namespace AsyncSlots

variable {ι κ : Type*}

structure State (ι κ : Type*) where
  wanted : ι → Option κ
  shown : ι → Option κ
  outstanding : List (ι × κ)

/-- `await` is a slot that will learn what it wants, `request` asks for what it
wants now, `issue` asks for something else, and `finish` ends the request at a
position. -/
inductive Event (ι κ : Type*) where
  | await (i : ι)
  | request (i : ι) (k : κ)
  | issue (i : ι) (k : κ)
  | finish (n : ℕ)

def step [DecidableEq ι] (s : State ι κ) : Event ι κ → Option (State ι κ)
  | .await i => some { s with wanted := Function.update s.wanted i none }
  | .request i k => some { s with
      wanted := Function.update s.wanted i (some k)
      outstanding := s.outstanding ++ [(i, k)] }
  | .issue i k => some { s with outstanding := s.outstanding ++ [(i, k)] }
  | .finish n => s.outstanding[n]?.map fun request => { s with
      shown := Function.update s.shown request.1 (some request.2)
      outstanding := s.outstanding.eraseIdx n }

/-- What a slot wants it shows or will show. -/
def Covered (s : State ι κ) : Prop :=
  ∀ i k, s.wanted i = some k → s.shown i = some k ∨ (i, k) ∈ s.outstanding

/-- When nothing is in flight, each slot shows what it wants. -/
def Settled (s : State ι κ) : Prop :=
  s.outstanding = [] → ∀ i k, s.wanted i = some k → s.shown i = some k

/-- The condition on one step: a request finishes with the value that its slot
wants, or while one for that value is still in flight. -/
def Fits (s : State ι κ) : Event ι κ → Prop
  | .finish n => ∀ i k, s.outstanding[n]? = some (i, k) → ∀ w, s.wanted i = some w →
      w = k ∨ (i, w) ∈ s.outstanding.eraseIdx n
  | _ => True

theorem Covered.settled {s : State ι κ} (h : Covered s) : Settled s := by
  intro hnone i k hwanted
  rcases h i k hwanted with hshown | hflight
  · exact hshown
  · rw [hnone] at hflight
    simp at hflight

theorem step_covered [DecidableEq ι] {s t : State ι κ} {e : Event ι κ} (hs : Covered s)
    (h : step s e = some t) (hfits : Fits s e) : Covered t := by
  cases e with
  | await i =>
      cases h
      intro j k hwanted
      by_cases hj : j = i
      · subst hj
        simp at hwanted
      · simp only [Function.update_of_ne hj] at hwanted
        exact hs j k hwanted
  | request i k =>
      cases h
      intro j w hwanted
      by_cases hj : j = i
      · subst hj
        obtain rfl : k = w := by simpa using hwanted
        exact Or.inr (by simp)
      · simp only [Function.update_of_ne hj] at hwanted
        exact (hs j w hwanted).imp_right (List.mem_append_left _)
  | issue i k =>
      cases h
      intro j w hwanted
      exact (hs j w hwanted).imp_right (List.mem_append_left _)
  | finish n =>
      obtain ⟨⟨i, k⟩, hn, rfl⟩ := Option.map_eq_some_iff.mp h
      intro j w hwanted
      by_cases hj : j = i
      · subst hj
        rcases hfits j k hn w hwanted with rfl | hflight
        · exact Or.inl (Function.update_self ..)
        · exact Or.inr hflight
      · simp only [Function.update_of_ne hj]
        rcases hs j w hwanted with hshown | hflight
        · exact Or.inl hshown
        · refine Or.inr ?_
          obtain ⟨m, hm⟩ := List.getElem?_of_mem hflight
          have hne : m ≠ n := by
            intro hmn
            rw [hmn, hn] at hm
            exact hj (congrArg Prod.fst (Option.some.inj hm)).symm
          exact List.mem_eraseIdx_iff_getElem?.mpr ⟨m, hne, hm⟩

end AsyncSlots
