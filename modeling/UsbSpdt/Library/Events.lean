/-!
# Event-driven systems

A system is a partial step function on states and events. A run is the fold of its step over a
list of events; the rules below carry an invariant through a run, possibly only through the runs
whose steps all meet a condition on the state before the step.
-/

namespace Events

variable {σ ε : Type}

/-- The state after a run, or `none` when an event is not possible where it stands. -/
def run (step : σ → ε → Option σ) : σ → List ε → Option σ
  | s, [] => some s
  | s, e :: es => (step s e).bind fun s' => run step s' es

def Guarded (step : σ → ε → Option σ) (G : σ → ε → Prop) : σ → List ε → Prop
  | _, [] => True
  | s, e :: es => G s e ∧ ∀ s', step s e = some s' → Guarded step G s' es

@[simp] theorem run_nil (step : σ → ε → Option σ) (s : σ) : run step s [] = some s := rfl

@[simp] theorem run_cons (step : σ → ε → Option σ) (s : σ) (e : ε) (es : List ε) :
    run step s (e :: es) = (step s e).bind fun s' => run step s' es := rfl

theorem run_append (step : σ → ε → Option σ) (s : σ) (es fs : List ε) :
    run step s (es ++ fs) = (run step s es).bind fun s' => run step s' fs := by
  induction es generalizing s with
  | nil => rfl
  | cons e es ih =>
    simp only [List.cons_append, run_cons]
    cases h : step s e with
    | none => rfl
    | some s' => simp only [Option.bind_some, ih]

theorem run_cons_some {step : σ → ε → Option σ} {s t : σ} {e : ε} {es : List ε}
    (h : run step s (e :: es) = some t) : ∃ s', step s e = some s' ∧ run step s' es = some t := by
  simpa only [run_cons, Option.bind_eq_some_iff] using h

theorem guarded_of_forall {step : σ → ε → Option σ} {G : σ → ε → Prop} (hG : ∀ s e, G s e) (s : σ)
    (es : List ε) : Guarded step G s es := by
  induction es generalizing s with
  | nil => trivial
  | cons e es ih => exact ⟨hG s e, fun s' _ => ih s'⟩

/-- A run is guarded when each of its events meets the condition where the run has come to. -/
theorem guarded_iff {step : σ → ε → Option σ} {G : σ → ε → Prop} {s : σ} {es : List ε} :
    Guarded step G s es ↔
      ∀ done e rest t, es = done ++ e :: rest → run step s done = some t → G t e := by
  induction es generalizing s with
  | nil => exact iff_of_true trivial fun done e rest t h => by simp at h
  | cons e es ih =>
    constructor
    · rintro ⟨hG, hrest⟩ done e' rest t heq hr
      cases done with
      | nil =>
        obtain ⟨rfl, -⟩ := List.cons.inj heq
        cases hr
        exact hG
      | cons d done =>
        obtain ⟨rfl, htail⟩ := List.cons.inj heq
        obtain ⟨s', hs, hr'⟩ := run_cons_some hr
        exact ih.mp (hrest s' hs) done e' rest t htail hr'
    · intro h
      refine ⟨h [] e es s rfl rfl, fun s' hs => ih.mpr fun done e' rest t heq hr => ?_⟩
      exact h (e :: done) e' rest t (by rw [heq]; rfl) (by rw [run_cons, hs]; exact hr)

theorem Guarded.of_append {step : σ → ε → Option σ} {G : σ → ε → Prop} {s : σ} {es fs : List ε}
    (h : Guarded step G s (es ++ fs)) : Guarded step G s es := by
  rw [guarded_iff] at h ⊢
  intro done e rest t heq hr
  exact h done e (rest ++ fs) t (by rw [heq, List.append_assoc, List.cons_append]) hr

/-- What is left of a guarded run is guarded from where the run has come to. -/
theorem Guarded.after {step : σ → ε → Option σ} {G : σ → ε → Prop} {s t : σ} {es fs : List ε}
    (h : Guarded step G s (es ++ fs)) (hr : run step s es = some t) : Guarded step G t fs := by
  rw [guarded_iff] at h ⊢
  intro done e rest u heq hu
  refine h (es ++ done) e rest u (by rw [heq, List.append_assoc]) ?_
  rw [run_append, hr]
  exact hu

/-- A condition that can be computed, checked along one run. -/
def holdsAlong (step : σ → ε → Option σ) (check : σ → ε → Bool) : σ → List ε → Bool
  | _, [] => true
  | s, e :: es => check s e &&
    match step s e with
    | some s' => holdsAlong step check s' es
    | none => true

theorem guarded_of_holdsAlong {step : σ → ε → Option σ} {check : σ → ε → Bool} {G : σ → ε → Prop}
    (hG : ∀ s e, check s e = true → G s e) {s : σ} {es : List ε}
    (h : holdsAlong step check s es = true) : Guarded step G s es := by
  induction es generalizing s with
  | nil => trivial
  | cons e es ih =>
    rw [holdsAlong, Bool.and_eq_true] at h
    refine ⟨hG s e h.1, fun s' hs => ih ?_⟩
    have hrest := h.2
    rw [hs] at hrest
    exact hrest

/-- An invariant that every guarded step keeps holds at the end of every guarded run. -/
theorem guarded_invariant {step : σ → ε → Option σ} {G : σ → ε → Prop} {Inv : σ → Prop}
    (hstep : ∀ s e s', Inv s → G s e → step s e = some s' → Inv s')
    {s t : σ} {es : List ε} (hs : Inv s) (hg : Guarded step G s es) (hr : run step s es = some t) :
    Inv t := by
  induction es generalizing s with
  | nil =>
    have hst : s = t := by simpa only [run_nil, Option.some.injEq] using hr
    exact hst ▸ hs
  | cons e es ih =>
    obtain ⟨s', hse, hr'⟩ := run_cons_some hr
    exact ih (hstep s e s' hs hg.1 hse) (hg.2 s' hse) hr'

theorem invariant {step : σ → ε → Option σ} {Inv : σ → Prop}
    (hstep : ∀ s e s', Inv s → step s e = some s' → Inv s')
    {s t : σ} {es : List ε} (hs : Inv s) (hr : run step s es = some t) : Inv t := by
  have hg : Guarded step (fun _ _ => True) s es := guarded_of_forall (fun _ _ => trivial) s es
  exact guarded_invariant (fun s e s' hi _ hse => hstep s e s' hi hse) hs hg hr

/-- An invariant that also speaks of the events so far. -/
theorem history_invariant {step : σ → ε → Option σ} {Inv : List ε → σ → Prop}
    (hstep : ∀ es s e s', Inv es s → step s e = some s' → Inv (es ++ [e]) s')
    {s t : σ} {es : List ε} (hs : Inv [] s) (hr : run step s es = some t) : Inv es t := by
  have hfrom (past : List ε) {s : σ} {es : List ε} (hs : Inv past s) (hr : run step s es = some t) :
      Inv (past ++ es) t := by
    induction es generalizing past s with
    | nil =>
      have hst : s = t := by simpa only [run_nil, Option.some.injEq] using hr
      rw [List.append_nil]
      exact hst ▸ hs
    | cons e es ih =>
      obtain ⟨s', hse, hr'⟩ := run_cons_some hr
      have hnext := ih (past ++ [e]) (hstep past s e s' hs hse) hr'
      rwa [List.append_assoc] at hnext
  exact hfrom [] hs hr

/-- Where a system can go, so can another one that simulates it. -/
theorem run_simulates {τ : Type} {step : σ → ε → Option σ} {step' : τ → ε → Option τ}
    {R : σ → τ → Prop}
    (hstep : ∀ s t e t', R s t → step' t e = some t' → ∃ s', step s e = some s' ∧ R s' t')
    {s : σ} {t t' : τ} (h : R s t) {es : List ε} (hr : run step' t es = some t') :
    ∃ s', run step s es = some s' ∧ R s' t' := by
  induction es generalizing s t with
  | nil =>
    obtain rfl : t = t' := by simpa only [run_nil, Option.some.injEq] using hr
    exact ⟨s, rfl, h⟩
  | cons e es ih =>
    obtain ⟨t₁, ht, hrest⟩ := run_cons_some hr
    obtain ⟨s₁, hs, h₁⟩ := hstep s t e t₁ h ht
    obtain ⟨s', hs', h'⟩ := ih h₁ hrest
    exact ⟨s', by rw [run_cons, hs, Option.bind_some, hs'], h'⟩

/-! ### Losses -/

/-- What is lost is lost for good: a run has kept all that it was given exactly when every event
fitted. -/
theorem lossless_iff {α : Type} {step : σ → ε → Option σ} {Fits : σ → ε → Prop}
    {kept : σ → List α} {given : ε → List α}
    (hfit : ∀ s e s', step s e = some s' → Fits s e → kept s' = kept s ++ given e)
    (hlost : ∀ s e s', step s e = some s' → ¬ Fits s e →
      (kept s').length < (kept s).length + (given e).length)
    {s t : σ} {es : List ε} (hr : run step s es = some t) :
    (kept t).length ≤ (kept s).length + (es.flatMap given).length ∧
      (kept t = kept s ++ es.flatMap given ↔ Guarded step Fits s es) := by
  induction es generalizing s with
  | nil =>
    obtain rfl : s = t := by simpa only [run_nil, Option.some.injEq] using hr
    simp [Guarded]
  | cons e es ih =>
    obtain ⟨s', hs, hr'⟩ := run_cons_some hr
    obtain ⟨hle, hiff⟩ := ih hr'
    have hguard : Guarded step Fits s (e :: es) ↔ Fits s e ∧ Guarded step Fits s' es := by
      simp only [Guarded, hs, Option.some.injEq, forall_eq']
    rw [hguard, List.flatMap_cons, List.length_append]
    by_cases hfits : Fits s e
    · have hkept := hfit s e s' hs hfits
      rw [hkept] at hle hiff
      rw [List.length_append] at hle
      rw [← List.append_assoc, hiff]
      exact ⟨by omega, by simp [hfits]⟩
    · have hlen := hlost s e s' hs hfits
      refine ⟨by omega, fun hkept => ?_, fun hg => absurd hg.1 hfits⟩
      have hlength := congrArg List.length hkept
      rw [List.length_append, List.length_append] at hlength
      omega

end Events
