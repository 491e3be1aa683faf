import Mathlib.Data.List.Infix

/-!
# Runs of a partial step function

A system is a step function from a state and an event to the next state, or to
nothing where the event is not possible. A run takes a list of events one by
one. Two properties of a run are compared here: that every state it reaches is
good, and that every step it takes meets a condition on the state before it.
When the condition is exactly what one step needs, the two are equivalent.
-/

namespace StepSystem

variable {σ τ ε : Type*}

/-- Take the events in order; a run stops existing at the first impossible one. -/
def run (step : σ → ε → Option σ) (s : σ) (es : List ε) : Option σ := es.foldlM step s

@[simp] theorem run_nil (step : σ → ε → Option σ) (s : σ) : run step s [] = some s := rfl

@[simp] theorem run_cons (step : σ → ε → Option σ) (s : σ) (e : ε) (es : List ε) :
    run step s (e :: es) = (step s e).bind fun t => run step t es := rfl

theorem run_append (step : σ → ε → Option σ) (s : σ) (es fs : List ε) :
    run step s (es ++ fs) = (run step s es).bind fun t => run step t fs := by
  simp [run, List.foldlM_append]

theorem run_cons_eq_some {step : σ → ε → Option σ} {s u : σ} {e : ε} {es : List ε} :
    run step s (e :: es) = some u ↔ ∃ t, step s e = some t ∧ run step t es = some u := by
  simp [Option.bind_eq_some_iff]

theorem run_snoc_eq_some {step : σ → ε → Option σ} {s u : σ} {es : List ε} {e : ε} :
    run step s (es ++ [e]) = some u ↔ ∃ t, run step s es = some t ∧ step t e = some u := by
  rw [run_append, Option.bind_eq_some_iff]
  simp only [run_cons, run_nil, Option.bind_fun_some]

/-- Every state the run reaches is good, the first and the last included. -/
def Throughout (step : σ → ε → Option σ) (P : σ → Prop) (s : σ) (es : List ε) : Prop :=
  ∀ pre t, pre <+: es → run step s pre = some t → P t

/-- Every step the run takes meets a condition on the state before it. -/
def EachStep (step : σ → ε → Option σ) (C : σ → ε → Prop) (s : σ) (es : List ε) : Prop :=
  ∀ pre e t u, pre ++ [e] <+: es → run step s pre = some t → step t e = some u → C t e

theorem throughout_nil {step : σ → ε → Option σ} {P : σ → Prop} {s : σ} :
    Throughout step P s [] ↔ P s := by
  simp only [Throughout, List.prefix_nil]
  constructor
  · intro h
    exact h [] s rfl rfl
  · rintro hs _ t rfl ht
    exact Option.some.inj ht ▸ hs

theorem throughout_cons {step : σ → ε → Option σ} {P : σ → Prop} {s : σ} {e : ε} {es : List ε} :
    Throughout step P s (e :: es) ↔
      P s ∧ ∀ t, step s e = some t → Throughout step P t es := by
  constructor
  · intro h
    refine ⟨h [] s List.nil_prefix rfl, ?_⟩
    intro t ht pre u hpre hu
    exact h (e :: pre) u (by simpa using hpre) (run_cons_eq_some.mpr ⟨t, ht, hu⟩)
  · rintro ⟨hs, h⟩ pre u hpre hu
    cases pre with
    | nil => exact Option.some.inj hu ▸ hs
    | cons d pre =>
        obtain ⟨rfl, hpres⟩ := List.cons_prefix_cons.mp hpre
        obtain ⟨t, ht, hu⟩ := run_cons_eq_some.mp hu
        exact h t ht pre u hpres hu

theorem eachStep_nil {step : σ → ε → Option σ} {C : σ → ε → Prop} {s : σ} :
    EachStep step C s [] := by
  intro pre e t u hpre
  simp at hpre

theorem eachStep_cons {step : σ → ε → Option σ} {C : σ → ε → Prop} {s : σ} {e : ε}
    {es : List ε} :
    EachStep step C s (e :: es) ↔
      ∀ t, step s e = some t → C s e ∧ EachStep step C t es := by
  constructor
  · intro h t ht
    refine ⟨h [] e s t (by simp) rfl ht, ?_⟩
    intro pre d u v hpre hu hv
    exact h (e :: pre) d u v (by simpa using hpre) (run_cons_eq_some.mpr ⟨t, ht, hu⟩) hv
  · intro h pre d u v hpre hu hv
    cases pre with
    | nil =>
        obtain ⟨rfl, -⟩ := List.cons_prefix_cons.mp hpre
        cases hu
        exact (h v hv).1
    | cons c pre =>
        obtain ⟨rfl, hpres⟩ := List.cons_prefix_cons.mp hpre
        obtain ⟨t, ht, hu⟩ := run_cons_eq_some.mp hu
        exact (h t ht).2 pre d u v hpres hu hv

/-- The guarded form of an invariant: each step only has to keep it where the
condition is met. -/
theorem throughout_of_eachStep {step : σ → ε → Option σ} {P : σ → Prop} {C : σ → ε → Prop}
    (hstep : ∀ s e t, P s → step s e = some t → C s e → P t) {s : σ} {es : List ε}
    (hs : P s) (h : EachStep step C s es) : Throughout step P s es := by
  induction es generalizing s with
  | nil => exact throughout_nil.mpr hs
  | cons e es ih =>
      rw [eachStep_cons] at h
      exact throughout_cons.mpr
        ⟨hs, fun t ht => ih (hstep s e t hs ht (h t ht).1) (h t ht).2⟩

theorem throughout_of_step {step : σ → ε → Option σ} {P : σ → Prop}
    (hstep : ∀ s e t, P s → step s e = some t → P t) {s : σ} {es : List ε} (hs : P s) :
    Throughout step P s es := by
  have hall : EachStep step (fun _ _ => True) s es := fun _ _ _ _ _ _ _ => trivial
  exact throughout_of_eachStep (fun s e t hP ht _ => hstep s e t hP ht) hs hall

theorem Throughout.last {step : σ → ε → Option σ} {P : σ → Prop} {s t : σ} {es : List ε}
    (h : Throughout step P s es) (ht : run step s es = some t) : P t :=
  h es t (List.prefix_refl es) ht

/-- A system whose every step makes it smaller runs until no step is possible. -/
theorem exists_run_stuck {step : σ → ε → Option σ} {size : σ → ℕ}
    (hstep : ∀ s e t, step s e = some t → size t < size s) (s : σ) :
    ∃ es t, run step s es = some t ∧ ∀ e, step t e = none := by
  induction hm : size s using Nat.strong_induction_on generalizing s with
  | _ m ih =>
      by_cases hstuck : ∀ e, step s e = none
      · exact ⟨[], s, rfl, hstuck⟩
      · obtain ⟨e, he⟩ := not_forall.mp hstuck
        obtain ⟨t, ht⟩ := Option.ne_none_iff_exists'.mp he
        have hlt : size t < m := hm ▸ hstep s e t ht
        obtain ⟨es, u, hu, hend⟩ := ih (size t) hlt t rfl
        exact ⟨e :: es, u, run_cons_eq_some.mpr ⟨t, ht, hu⟩, hend⟩

/-- A system whose steps are steps of another one, or no steps of it at all, keeps
the invariants of that one. -/
theorem throughout_of_refines {δ : Type*} {step : σ → ε → Option σ} {spec : τ → δ → Option τ}
    {abs : σ → τ} {I : τ → Prop} {C : σ → ε → Prop} {D : τ → δ → Prop}
    (hrefines : ∀ s e t, step s e = some t → C s e →
      abs t = abs s ∨ ∃ d, spec (abs s) d = some (abs t) ∧ D (abs s) d)
    (hspec : ∀ a d b, I a → spec a d = some b → D a d → I b) {s : σ} {es : List ε}
    (hs : I (abs s)) (h : EachStep step C s es) : Throughout step (fun t => I (abs t)) s es := by
  refine throughout_of_eachStep ?_ hs h
  intro s e t hI ht hC
  rcases hrefines s e t ht hC with hsame | ⟨d, hd, hD⟩
  · rw [hsame]
    exact hI
  · exact hspec _ d _ hI hd hD

/-- Where the condition is exactly what one step needs, it is exactly what a
whole run needs. -/
theorem throughout_iff_eachStep {step : σ → ε → Option σ} {P : σ → Prop} {C : σ → ε → Prop}
    (hstep : ∀ s e t, P s → step s e = some t → (P t ↔ C s e)) {s : σ} {es : List ε}
    (hs : P s) : Throughout step P s es ↔ EachStep step C s es := by
  refine ⟨?_, throughout_of_eachStep (fun s e t hs ht => (hstep s e t hs ht).mpr) hs⟩
  induction es generalizing s with
  | nil => exact fun _ => eachStep_nil
  | cons e es ih =>
      rw [throughout_cons, eachStep_cons]
      rintro ⟨-, h⟩ t ht
      have hP : P t := h t ht [] t List.nil_prefix rfl
      exact ⟨(hstep s e t hs ht).mp hP, ih hP (h t ht)⟩

theorem run_map {δ : Type*} (step : σ → ε → Option σ) (f : δ → ε) (s : σ) (ds : List δ) :
    run step s (ds.map f) = run (fun s d => step s (f d)) s ds := by
  induction ds generalizing s with
  | nil => rfl
  | cons d ds ih => simp only [List.map_cons, run_cons, ih]

/-- The run exists, and each of its events leaves a state that suits it. -/
def AfterEach (step : σ → ε → Option σ) (P : σ → ε → Prop) (s : σ) (es : List ε) : Prop :=
  ∀ pre e, pre ++ [e] <+: es → ∃ t, run step s (pre ++ [e]) = some t ∧ P t e

theorem afterEach_congr {step : σ → ε → Option σ} {P Q : σ → ε → Prop} {s : σ} {es : List ε}
    (h : ∀ pre e t, run step s (pre ++ [e]) = some t → (P t e ↔ Q t e)) :
    AfterEach step P s es ↔ AfterEach step Q s es := by
  constructor
  · intro hP pre e hpre
    obtain ⟨t, ht, hPt⟩ := hP pre e hpre
    exact ⟨t, ht, (h pre e t ht).mp hPt⟩
  · intro hQ pre e hpre
    obtain ⟨t, ht, hQt⟩ := hQ pre e hpre
    exact ⟨t, ht, (h pre e t ht).mpr hQt⟩

theorem afterEach_map {δ : Type*} {step : σ → ε → Option σ} {P : σ → ε → Prop} {f : δ → ε}
    {s : σ} {ds : List δ} :
    AfterEach step P s (ds.map f) ↔
      AfterEach (fun s d => step s (f d)) (fun t d => P t (f d)) s ds := by
  constructor
  · intro h pre d hpre
    rw [← run_map, List.map_append]
    exact h (pre.map f) (f d) (by simpa using List.IsPrefix.map f hpre)
  · intro h pre e hpre
    obtain ⟨ds', hds, heq⟩ := List.prefix_map_iff.mp hpre
    obtain ⟨pre', last, rfl, hpre', hlast⟩ := List.map_eq_append_iff.mp heq.symm
    obtain ⟨d, rfl, rfl⟩ := List.map_eq_singleton_iff.mp hlast
    subst hpre'
    obtain ⟨t, ht, hPt⟩ := h pre' d hds
    exact ⟨t, by rw [heq, run_map]; exact ht, hPt⟩

/-- A system that can follow each step of another one can follow its runs. -/
theorem exists_run_of_simulation {step : σ → ε → Option σ} {spec : τ → ε → Option τ}
    {R : σ → τ → Prop}
    (hstep : ∀ s a b e, R s a → spec a e = some b → ∃ t, step s e = some t ∧ R t b) {s : σ}
    {a b : τ} {es : List ε} (hs : R s a) (hb : run spec a es = some b) :
    ∃ t, run step s es = some t ∧ R t b := by
  induction es generalizing s a with
  | nil => exact ⟨s, rfl, Option.some.inj hb ▸ hs⟩
  | cons e es ih =>
      obtain ⟨c, hc, hrest⟩ := run_cons_eq_some.mp hb
      obtain ⟨t, ht, hR⟩ := hstep s a c e hs hc
      obtain ⟨u, hu, hend⟩ := ih hR hrest
      exact ⟨u, run_cons_eq_some.mpr ⟨t, ht, hu⟩, hend⟩

/-- Of two systems that go together, one takes a step where the other does. -/
theorem exists_left_of_rel {R : σ → τ → Prop} {a : Option σ} {t : τ}
    (h : Option.Rel R a (some t)) : ∃ s, a = some s ∧ R s t := by
  cases h with
  | some h => exact ⟨_, rfl, h⟩

theorem exists_right_of_rel {R : σ → τ → Prop} {s : σ} {b : Option τ}
    (h : Option.Rel R (some s) b) : ∃ t, b = some t ∧ R s t := by
  cases h with
  | some h => exact ⟨_, rfl, h⟩

/-- Two systems run side by side on the same events. -/
def both (step : σ → ε → Option σ) (spec : τ → ε → Option τ) (s : σ × τ) (e : ε) :
    Option (σ × τ) :=
  (step s.1 e).bind fun t => (spec s.2 e).map fun u => (t, u)

theorem both_eq_some {step : σ → ε → Option σ} {spec : τ → ε → Option τ} {s t : σ × τ} {e : ε} :
    both step spec s e = some t ↔ step s.1 e = some t.1 ∧ spec s.2 e = some t.2 := by
  obtain ⟨t₁, t₂⟩ := t
  simp only [both, Option.bind_eq_some_iff, Option.map_eq_some_iff, Prod.mk.injEq]
  constructor
  · rintro ⟨a, ha, b, hb, rfl, rfl⟩
    exact ⟨ha, hb⟩
  · rintro ⟨ha, hb⟩
    exact ⟨t₁, ha, t₂, hb, rfl, rfl⟩

end StepSystem
