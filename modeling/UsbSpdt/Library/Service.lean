/-!
# Services

A service answers each operation on its state with a result. Two services are compared through a
relation between their states: what one operation keeps, a whole sequence of operations keeps, and
the results are the same.
-/

namespace Service

variable {σ τ ω ρ : Type}

/-- The results of a sequence of operations and the state they leave. -/
def run (step : σ → ω → ρ × σ) : σ → List ω → List ρ × σ
  | s, [] => ([], s)
  | s, o :: os => ((step s o).1 :: (run step (step s o).2 os).1, (run step (step s o).2 os).2)

@[simp] theorem run_nil (step : σ → ω → ρ × σ) (s : σ) : run step s [] = ([], s) := rfl

@[simp] theorem run_cons (step : σ → ω → ρ × σ) (s : σ) (o : ω) (os : List ω) :
    run step s (o :: os) =
      ((step s o).1 :: (run step (step s o).2 os).1, (run step (step s o).2 os).2) := rfl

theorem run_append (step : σ → ω → ρ × σ) (s : σ) (os ps : List ω) :
    run step s (os ++ ps) = ((run step s os).1 ++ (run step (run step s os).2 ps).1,
      (run step (run step s os).2 ps).2) := by
  induction os generalizing s with
  | nil => rfl
  | cons o os ih => simp only [List.cons_append, run_cons, ih]

/-- Operations that are taken for others. -/
theorem run_map {ο : Type} (step : σ → ω → ρ × σ) (f : ο → ω) (s : σ) (os : List ο) :
    run (fun s o => step s (f o)) s os = run step s (os.map f) := by
  induction os generalizing s with
  | nil => rfl
  | cons o os ih => simp only [List.map_cons, run_cons, ih]

variable {step : σ → ω → ρ × σ} {step' : τ → ω → ρ × τ} {R : σ → τ → Prop}

theorem run_simulates
    (hstep : ∀ s t o, R s t → (step s o).1 = (step' t o).1 ∧ R (step s o).2 (step' t o).2)
    {s : σ} {t : τ} (h : R s t) (os : List ω) :
    (run step s os).1 = (run step' t os).1 ∧ R (run step s os).2 (run step' t os).2 := by
  induction os generalizing s t with
  | nil => exact ⟨rfl, h⟩
  | cons o os ih =>
    obtain ⟨hresult, hnext⟩ := hstep s t o h
    obtain ⟨hresults, hend⟩ := ih hnext
    constructor
    · simp only [run_cons, hresult, hresults]
    · exact hend

/-- What an operation establishes and the others keep holds after any sequence that contains it. -/
theorem run_establishes {P : σ → Prop} {o : ω} (hest : ∀ s, P (step s o).2) {os : List ω}
    (hmem : o ∈ os) (hkeep : ∀ s, ∀ o' ∈ os, o' ≠ o → P s → P (step s o').2) (s : σ) :
    P (run step s os).2 := by
  have hafter {os : List ω} (hkeep : ∀ s, ∀ o' ∈ os, o' ≠ o → P s → P (step s o').2) {s : σ}
      (hs : P s) : P (run step s os).2 := by
    induction os generalizing s with
    | nil => exact hs
    | cons o' os ih =>
      apply ih fun s o'' ho'' => hkeep s o'' (List.mem_cons_of_mem o' ho'')
      by_cases heq : o' = o
      · rw [heq]
        exact hest s
      · exact hkeep s o' List.mem_cons_self heq hs
  induction os generalizing s with
  | nil => cases hmem
  | cons o' os ih =>
    have hkeep' : ∀ s, ∀ o'' ∈ os, o'' ≠ o → P s → P (step s o'').2 :=
      fun s o'' ho'' => hkeep s o'' (List.mem_cons_of_mem o' ho'')
    rcases List.mem_cons.mp hmem with rfl | hmem
    · exact hafter hkeep' (hest s)
    · exact ih hmem hkeep' (step s o').2

/-! ### Operations that may be impossible -/

/-- The results and the state that is left, or `none` when an operation is not possible. -/
def tryRun (step : σ → ω → Option (ρ × σ)) : σ → List ω → Option (List ρ × σ)
  | s, [] => some ([], s)
  | s, o :: os => (step s o).bind fun r => (tryRun step r.2 os).map fun rs => (r.1 :: rs.1, rs.2)

theorem tryRun_cons_some {step : σ → ω → Option (ρ × σ)} {s t : σ} {o : ω} {os : List ω}
    {rs : List ρ} (h : tryRun step s (o :: os) = some (rs, t)) :
    ∃ r s' rs', step s o = some (r, s') ∧ tryRun step s' os = some (rs', t) ∧ rs = r :: rs' := by
  rw [tryRun, Option.bind_eq_some_iff] at h
  obtain ⟨⟨r, s'⟩, hstep, hrest⟩ := h
  obtain ⟨⟨rs', t'⟩, hrun, heq⟩ := Option.map_eq_some_iff.mp hrest
  obtain ⟨rfl, rfl⟩ := Prod.mk.inj heq
  exact ⟨r, s', rs', hstep, hrun, rfl⟩

/-- Seen through a view of its states, a service is another one: operation by operation, and so for
all of them together. -/
theorem tryRun_view {step : σ → ω → Option (ρ × σ)} {step' : τ → ω → Option (ρ × τ)}
    {view : σ → τ} {I : σ → Prop}
    (hstep : ∀ s o, I s → (step s o).map (Prod.map id view) = step' (view s) o)
    (hinv : ∀ s o r s', I s → step s o = some (r, s') → I s') {s : σ} (h : I s) (os : List ω) :
    (tryRun step s os).map (Prod.map id view) = tryRun step' (view s) os := by
  induction os generalizing s with
  | nil => rfl
  | cons o os ih =>
    rw [tryRun, tryRun, ← hstep s o h]
    cases ho : step s o with
    | none => rfl
    | some r =>
      obtain ⟨x, s'⟩ := r
      change (Option.map _ (tryRun step s' os)).map (Prod.map id view) =
        Option.map _ (tryRun step' (view s') os)
      rw [← ih (hinv s o x s' h ho), Option.map_map, Option.map_map]
      rfl

/-- Where a service has results, so has another one that simulates it. -/
theorem tryRun_simulates {step : σ → ω → Option (ρ × σ)} {step' : τ → ω → Option (ρ × τ)}
    {R : σ → τ → Prop}
    (hstep : ∀ s t o r t', R s t → step' t o = some (r, t') →
      ∃ s', step s o = some (r, s') ∧ R s' t') {s : σ} {t : τ} (h : R s t) {os : List ω}
    {rs : List ρ} {t' : τ} (hrun : tryRun step' t os = some (rs, t')) :
    ∃ s', tryRun step s os = some (rs, s') ∧ R s' t' := by
  induction os generalizing s t rs with
  | nil =>
    obtain ⟨rfl, rfl⟩ := Prod.mk.inj (Option.some.inj hrun)
    exact ⟨s, rfl, h⟩
  | cons o os ih =>
    obtain ⟨r, t₁, rs', ho, hrest, rfl⟩ := tryRun_cons_some hrun
    obtain ⟨s₁, hs, h₁⟩ := hstep s t o r t₁ h ho
    obtain ⟨s', hs', h'⟩ := ih h₁ hrest
    exact ⟨s', by rw [tryRun, hs, Option.bind_some, hs', Option.map_some], h'⟩

end Service
