import Mathlib.Data.Fintype.Basic
import UsbSpdt.Library.Throughout

/-!
# Several tasks on one processor

Tasks that share a state and are switched only where they block. An operation of a task is a lead,
whose steps are all rely steps, and a critical part. `exclusive_invariant` is the rule for runs in
which no task enters its critical part while another is blocked inside its own: what a critical
part does alone from a rest state it then does in every such run.
-/

/-- Tasks over a shared state, each with the operation that it has taken up last. -/
structure Tasks (ι σ ω : Type) where
  state : σ
  prog : ι → Program σ Unit
  op : ι → Option ω

inductive TaskEvent (ι ω : Type) where
  | call (i : ι) (o : ω)
  | task (i : ι)
  | tick
  | react

namespace Tasks

open Program

variable {ι σ ω : Type}

def start (s : σ) : Tasks ι σ ω := ⟨s, fun _ => .done (), fun _ => none⟩

/-- No task keeps the processor. -/
def Ready (sys : Tasks ι σ ω) : Prop := ∀ i, (sys.prog i).running = false

instance [Fintype ι] (sys : Tasks ι σ ω) : Decidable sys.Ready :=
  inferInstanceAs (Decidable (∀ i, (sys.prog i).running = false))

/-- At most one task keeps the processor. -/
def OneRuns (sys : Tasks ι σ ω) : Prop :=
  ∀ i j, (sys.prog i).running = true → (sys.prog j).running = true → i = j

theorem Ready.oneRuns {sys : Tasks ι σ ω} (h : sys.Ready) : sys.OneRuns := by
  intro i j hi
  rw [h i] at hi
  cases hi

theorem oneRuns_of_others {sys : Tasks ι σ ω} {i : ι}
    (h : ∀ j, j ≠ i → (sys.prog j).running = false) : sys.OneRuns := by
  intro j k hj hk
  have hall (l : ι) (hl : (sys.prog l).running = true) : l = i := by
    by_contra hne
    rw [h l hne] at hl
    cases hl
  rw [hall j hj, hall k hk]

section Step

variable [DecidableEq ι] [Fintype ι]

def goOn (sys : Tasks ι σ ω) (i : ι) (s : σ) (p : Program σ Unit) : Tasks ι σ ω :=
  { sys with state := s, prog := Function.update sys.prog i p }

/-- One step: an idle task takes up an operation, a task moves, time passes, or the surroundings
react. A blocked task goes on when its time is over, or later. -/
def step (E : Surroundings σ) (body : ι → ω → Program σ Unit) (sys : Tasks ι σ ω) :
    TaskEvent ι ω → Option (Tasks ι σ ω)
  | .call i o =>
    if sys.Ready ∧ (sys.prog i).idle = true then
      some { sys.goOn i sys.state (body i o) with op := Function.update sys.op i (some o) }
    else none
  | .task i =>
    match sys.prog i with
    | .done _ => none
    | .act f next => some (sys.goOn i (f sys.state) next)
    | .look next => some (sys.goOn i sys.state (next sys.state))
    | .wait n next => if sys.Ready ∧ n = 0 then some (sys.goOn i sys.state next) else none
  | .tick =>
    if sys.Ready then (E.tick sys.state).map fun s =>
      { sys with state := s, prog := fun i => (sys.prog i).elapse }
    else none
  | .react => if sys.Ready then (E.react sys.state).map ({ sys with state := · }) else none

/-- The same under a scheduler that takes the processor away: whatever happens next may fall between
any two statements of a task. -/
def preempt (E : Surroundings σ) (body : ι → ω → Program σ Unit) (sys : Tasks ι σ ω) :
    TaskEvent ι ω → Option (Tasks ι σ ω)
  | .call i o =>
    if (sys.prog i).idle = true then
      some { sys.goOn i sys.state (body i o) with op := Function.update sys.op i (some o) }
    else none
  | .task i =>
    match sys.prog i with
    | .done _ => none
    | .act f next => some (sys.goOn i (f sys.state) next)
    | .look next => some (sys.goOn i sys.state (next sys.state))
    | .wait n next => if n = 0 then some (sys.goOn i sys.state next) else none
  | .tick => (E.tick sys.state).map fun s =>
      { sys with state := s, prog := fun i => (sys.prog i).elapse }
  | .react => (E.react sys.state).map ({ sys with state := · })

end Step

/-- The operations that the task takes up, in order. -/
def issued [DecidableEq ι] (i : ι) (es : List (TaskEvent ι ω)) : List ω :=
  es.filterMap fun
    | .call j o => if j = i then some o else none
    | _ => none

/-- The operations of the task among those that have been noted. -/
def notedBy [DecidableEq ι] (i : ι) (notes : List (ι × ω)) : List ω :=
  (notes.filter fun x => x.1 = i).map Prod.snd

section Notes

variable [DecidableEq ι]

theorem issued_call_self (i : ι) (o : ω) (es : List (TaskEvent ι ω)) :
    issued i (es ++ [.call i o]) = issued i es ++ [o] := by
  simp [issued]

theorem issued_call_ne {i j : ι} {o : ω} (h : j ≠ i) (es : List (TaskEvent ι ω)) :
    issued i (es ++ [.call j o]) = issued i es := by
  simp [issued, h]

theorem issued_other {i : ι} {e : TaskEvent ι ω} (h : ∀ j o, e ≠ .call j o)
    (es : List (TaskEvent ι ω)) : issued i (es ++ [e]) = issued i es := by
  cases e with
  | call j o => exact absurd rfl (h j o)
  | task j => simp [issued]
  | tick => simp [issued]
  | react => simp [issued]

theorem notedBy_cons_self (x : ι × ω) (notes : List (ι × ω)) :
    notedBy x.1 (x :: notes) = x.2 :: notedBy x.1 notes := by
  simp [notedBy]

theorem notedBy_cons_ne {i : ι} {x : ι × ω} (h : x.1 ≠ i) (notes : List (ι × ω)) :
    notedBy i (x :: notes) = notedBy i notes := by
  simp [notedBy, h]

theorem nil_of_notedBy {notes : List (ι × ω)} (h : ∀ i, notedBy i notes = []) : notes = [] := by
  cases notes with
  | nil => rfl
  | cons x notes =>
    have hx := h x.1
    rw [notedBy_cons_self] at hx
    cases hx

theorem notedBy_concat (i : ι) (notes : List (ι × ω)) (x : ι × ω) :
    notedBy i (notes ++ [x]) = notedBy i notes ++ if x.1 = i then [x.2] else [] := by
  by_cases hx : x.1 = i
  · simp [notedBy, hx]
  · simp [notedBy, hx]

/-- Of each task the operations taken up so far are noted, but for one in progress. -/
def InOrder (notes : σ → List (ι × ω)) (es : List (TaskEvent ι ω)) (sys : Tasks ι σ ω) : Prop :=
  ∀ i, (sys.prog i).idle = true ∧ notedBy i (notes sys.state) = issued i es ∨
    ∃ o, NotesLast notes (i, o) (sys.prog i) ∧ notedBy i (notes sys.state) ++ [o] = issued i es

theorem InOrder.of_idle {notes : σ → List (ι × ω)} {es : List (TaskEvent ι ω)}
    {sys : Tasks ι σ ω} (h : InOrder notes es sys) {i : ι} (hidle : (sys.prog i).idle = true) :
    notedBy i (notes sys.state) = issued i es := by
  rcases h i with ⟨-, hnoted⟩ | ⟨o, hlast, -⟩
  · exact hnoted
  · rw [hlast.not_idle] at hidle
    cases hidle

end Notes

section Inversion

variable [DecidableEq ι]

@[simp] theorem goOn_state (sys : Tasks ι σ ω) (i : ι) (s : σ) (p : Program σ Unit) :
    (sys.goOn i s p).state = s := rfl

@[simp] theorem goOn_op (sys : Tasks ι σ ω) (i : ι) (s : σ) (p : Program σ Unit) :
    (sys.goOn i s p).op = sys.op := rfl

@[simp] theorem goOn_prog_self (sys : Tasks ι σ ω) (i : ι) (s : σ) (p : Program σ Unit) :
    (sys.goOn i s p).prog i = p := Function.update_self ..

theorem goOn_prog_ne (sys : Tasks ι σ ω) {i j : ι} (s : σ) (p : Program σ Unit) (h : j ≠ i) :
    (sys.goOn i s p).prog j = sys.prog j := Function.update_of_ne h ..

theorem oneRuns_goOn {sys : Tasks ι σ ω} {i : ι}
    (h : ∀ j, j ≠ i → (sys.prog j).running = false) (s : σ) (p : Program σ Unit) :
    (sys.goOn i s p).OneRuns := by
  apply oneRuns_of_others
  intro j hj
  rw [goOn_prog_ne sys s p hj]
  exact h j hj

variable [Fintype ι] {E : Surroundings σ} {body : ι → ω → Program σ Unit}

/-- A scheduler that does not preempt does what one that does may do as well. -/
theorem preempt_of_step {sys sys' : Tasks ι σ ω} {e : TaskEvent ι ω}
    (h : step E body sys e = some sys') : preempt E body sys e = some sys' := by
  cases e with
  | call i o =>
    obtain ⟨⟨-, hidle⟩, heq⟩ := Option.ite_none_right_eq_some.mp h
    exact (if_pos hidle).trans heq
  | task i =>
    rw [step] at h
    rw [preempt]
    split at h
    case h_1 => cases h
    case h_2 f next hp => exact h
    case h_3 next hp => exact h
    case h_4 n next hp =>
      obtain ⟨⟨-, hn⟩, heq⟩ := Option.ite_none_right_eq_some.mp h
      exact (if_pos hn).trans heq
  | tick => exact (Option.ite_none_right_eq_some.mp h).2
  | react => exact (Option.ite_none_right_eq_some.mp h).2

omit [Fintype ι] in
theorem preempt_task {sys sys' : Tasks ι σ ω} {i : ι}
    (h : preempt E body sys (.task i) = some sys') :
    ∃ p s, Moves (sys.prog i) sys.state p s ∧ sys' = sys.goOn i s p := by
  rw [preempt] at h
  split at h
  case h_1 => cases h
  case h_2 f next hp =>
    cases h
    exact ⟨next, f sys.state, hp ▸ .act f next sys.state, rfl⟩
  case h_3 next hp =>
    cases h
    exact ⟨next sys.state, sys.state, hp ▸ .look next sys.state, rfl⟩
  case h_4 n next hp =>
    obtain ⟨rfl, rfl⟩ := by
      simpa only [Option.ite_none_right_eq_some, Option.some.injEq] using h
    exact ⟨next, sys.state, hp ▸ .wait next sys.state, rfl⟩

omit [Fintype ι] in
theorem preempt_call {sys sys' : Tasks ι σ ω} {i : ι} {o : ω}
    (h : preempt E body sys (.call i o) = some sys') : (sys.prog i).idle = true ∧
      sys' = { sys.goOn i sys.state (body i o) with op := Function.update sys.op i (some o) } := by
  obtain ⟨hidle, rfl⟩ := by
    simpa only [preempt, Option.ite_none_right_eq_some, Option.some.injEq] using h
  exact ⟨hidle, rfl⟩

omit [Fintype ι] in
theorem preempt_tick {sys sys' : Tasks ι σ ω} (h : preempt E body sys .tick = some sys') :
    ∃ s, E.tick sys.state = some s ∧
      sys' = { sys with state := s, prog := fun i => (sys.prog i).elapse } := by
  obtain ⟨s, hs, rfl⟩ := Option.map_eq_some_iff.mp h
  exact ⟨s, hs, rfl⟩

omit [Fintype ι] in
theorem preempt_react {sys sys' : Tasks ι σ ω} (h : preempt E body sys .react = some sys') :
    ∃ s, E.react sys.state = some s ∧ sys' = { sys with state := s } := by
  obtain ⟨s, hs, rfl⟩ := Option.map_eq_some_iff.mp h
  exact ⟨s, hs, rfl⟩

theorem step_task {sys sys' : Tasks ι σ ω} {i : ι} (h : step E body sys (.task i) = some sys') :
    ∃ p s, Moves (sys.prog i) sys.state p s ∧ sys' = sys.goOn i s p ∧
      ((sys.prog i).running = true ∨ sys.Ready) := by
  obtain ⟨p, s, hmoves, rfl⟩ := preempt_task (preempt_of_step h)
  refine ⟨p, s, hmoves, rfl, ?_⟩
  rw [step] at h
  split at h
  case h_1 => cases h
  case h_2 f next hp => exact Or.inl (by rw [hp]; rfl)
  case h_3 next hp => exact Or.inl (by rw [hp]; rfl)
  case h_4 n next hp => exact Or.inr (Option.ite_none_right_eq_some.mp h).1.1

theorem step_call {sys sys' : Tasks ι σ ω} {i : ι} {o : ω}
    (h : step E body sys (.call i o) = some sys') :
    sys.Ready ∧ (sys.prog i).idle = true ∧
      sys' = { sys.goOn i sys.state (body i o) with op := Function.update sys.op i (some o) } :=
  ⟨(Option.ite_none_right_eq_some.mp h).1.1, preempt_call (preempt_of_step h)⟩

theorem step_tick {sys sys' : Tasks ι σ ω} (h : step E body sys .tick = some sys') :
    sys.Ready ∧ ∃ s, E.tick sys.state = some s ∧
      sys' = { sys with state := s, prog := fun i => (sys.prog i).elapse } :=
  ⟨(Option.ite_none_right_eq_some.mp h).1, preempt_tick (preempt_of_step h)⟩

theorem step_react {sys sys' : Tasks ι σ ω} (h : step E body sys .react = some sys') :
    sys.Ready ∧ ∃ s, E.react sys.state = some s ∧ sys' = { sys with state := s } :=
  ⟨(Option.ite_none_right_eq_some.mp h).1, preempt_react (preempt_of_step h)⟩

theorem others_blocked {sys sys' : Tasks ι σ ω} {i : ι} (h : sys.OneRuns)
    (hs : step E body sys (.task i) = some sys') : ∀ j, j ≠ i → (sys.prog j).running = false := by
  intro j hj
  obtain ⟨p, s, -, -, hi⟩ := step_task hs
  rcases hi with hi | hready
  · by_contra hrun
    exact hj (h j i (by simpa using hrun) hi)
  · exact hready j

theorem oneRuns_step {sys sys' : Tasks ι σ ω} (e : TaskEvent ι ω) (h : sys.OneRuns)
    (hs : step E body sys e = some sys') : sys'.OneRuns := by
  cases e with
  | call i o =>
    obtain ⟨hready, -, rfl⟩ := step_call hs
    exact oneRuns_goOn (fun j _ => hready j) sys.state (body i o)
  | task i =>
    have hothers := others_blocked h hs
    obtain ⟨p, s, -, rfl, -⟩ := step_task hs
    exact oneRuns_goOn hothers s p
  | tick =>
    obtain ⟨hready, s, -, rfl⟩ := step_tick hs
    apply Ready.oneRuns
    intro j
    rw [running_elapse]
    exact hready j
  | react =>
    obtain ⟨hready, s, -, rfl⟩ := step_react hs
    exact Ready.oneRuns hready

/-! ### An invariant that every task keeps -/

section Shared

variable {I : σ → Prop} (htick : ∀ s t, I s → E.tick s = some t → I t)
  (hreact : ∀ s t, I s → E.react s = some t → I t)
  (hbody : ∀ i o s, I s → Keeps I (body i o) s)

include htick hreact hbody

theorem keeps_step {sys sys' : Tasks ι σ ω} {e : TaskEvent ι ω} (hone : sys.OneRuns)
    (hI : I sys.state) (hkeeps : ∀ i, Keeps I (sys.prog i) sys.state)
    (hs : step E body sys e = some sys') :
    I sys'.state ∧ ∀ i, Keeps I (sys'.prog i) sys'.state := by
  cases e with
  | call i o =>
    obtain ⟨-, -, rfl⟩ := step_call hs
    refine ⟨hI, (Function.forall_update_iff sys.prog fun _ p => Keeps I p sys.state).mpr ?_⟩
    exact ⟨hbody i o sys.state hI, fun j _ => hkeeps j⟩
  | task i =>
    have hblocked := others_blocked hone hs
    obtain ⟨p, s, hmove, rfl, -⟩ := step_task hs
    have hmoved := (hkeeps i).move hmove
    refine ⟨hmoved.now, (Function.forall_update_iff sys.prog fun _ p => Keeps I p s).mpr ?_⟩
    exact ⟨hmoved, fun j hj => (hkeeps j).beside hmoved.now (hblocked j hj)⟩
  | tick =>
    obtain ⟨hready, s, hs', rfl⟩ := step_tick hs
    have hI' := htick _ _ hI hs'
    exact ⟨hI', fun j => ((hkeeps j).beside hI' (hready j)).elapse⟩
  | react =>
    obtain ⟨hready, s, hs', rfl⟩ := step_react hs
    have hI' := hreact _ _ hI hs'
    exact ⟨hI', fun j => (hkeeps j).beside hI' (hready j)⟩

/-- When every operation keeps `I` from every state with `I`, and so do the surroundings, it holds
at every moment of every run. -/
theorem shared_invariant {s₀ : σ} (h₀ : I s₀) {es : List (TaskEvent ι ω)} {sys : Tasks ι σ ω}
    (hr : Events.run (step E body) (start s₀) es = some sys) : I sys.state := by
  have hstart : (start s₀ : Tasks ι σ ω).OneRuns ∧ I s₀ ∧ ∀ i : ι,
      Keeps I ((start s₀ : Tasks ι σ ω).prog i) s₀ :=
    ⟨Ready.oneRuns fun _ => rfl, h₀, fun _ => h₀⟩
  have hstep (sys : Tasks ι σ ω) (e : TaskEvent ι ω) (sys' : Tasks ι σ ω)
      (h : sys.OneRuns ∧ I sys.state ∧ ∀ i, Keeps I (sys.prog i) sys.state)
      (hs : step E body sys e = some sys') :
      sys'.OneRuns ∧ I sys'.state ∧ ∀ i, Keeps I (sys'.prog i) sys'.state :=
    ⟨oneRuns_step e h.1 hs, keeps_step htick hreact hbody h.1 h.2.1 h.2.2 hs⟩
  exact (Events.invariant hstep hstart hr).2.1

end Shared

/-! ### Operations that are noted when they end -/

variable {notes : σ → List (ι × ω)} {es : List (TaskEvent ι ω)}

theorem inOrder_call {sys sys' : Tasks ι σ ω} {j : ι} {o : ω}
    (hbody : ∀ i o, NotesLast notes (i, o) (body i o)) (h : InOrder notes es sys)
    (hs : step E body sys (.call j o) = some sys') : InOrder notes (es ++ [.call j o]) sys' := by
  obtain ⟨-, hidle, rfl⟩ := step_call hs
  intro i
  by_cases hij : j = i
  · subst hij
    refine Or.inr ⟨o, ?_, ?_⟩
    · rw [goOn_prog_self]
      exact hbody j o
    · rw [issued_call_self, ← h.of_idle hidle]
      rfl
  · rw [issued_call_ne hij, goOn_prog_ne sys _ _ (Ne.symm hij)]
    exact h i

theorem inOrder_task {sys sys' : Tasks ι σ ω} {j : ι} (h : InOrder notes es sys)
    (hs : step E body sys (.task j) = some sys') : InOrder notes (es ++ [.task j]) sys' := by
  obtain ⟨p, s, hmove, rfl, -⟩ := step_task hs
  rcases h j with ⟨hidle, -⟩ | ⟨o, hlast, hnoted⟩
  · rw [hmove.not_idle] at hidle
    cases hidle
  intro i
  rw [issued_other (by exact nofun)]
  by_cases hij : i = j
  · subst hij
    rw [goOn_prog_self, goOn_state]
    rcases hlast.move hmove with ⟨hsame, hlast'⟩ | ⟨hnote, hidle⟩
    · rw [hsame]
      exact Or.inr ⟨o, hlast', hnoted⟩
    · rw [hnote, notedBy_concat, if_pos rfl]
      exact Or.inl ⟨hidle, hnoted⟩
  · have hsame : notedBy i (notes s) = notedBy i (notes sys.state) := by
      rcases hlast.move hmove with ⟨hsame, -⟩ | ⟨hnote, -⟩
      · rw [hsame]
      · rw [hnote, notedBy_concat, if_neg (Ne.symm hij), List.append_nil]
    rw [goOn_prog_ne sys s p hij, goOn_state, hsame]
    exact h i

/-- In every run each task's operations are noted in the order in which it took them up. -/
theorem noted_in_order (htick : ∀ s t, E.tick s = some t → notes t = notes s)
    (hreact : ∀ s t, E.react s = some t → notes t = notes s)
    (hbody : ∀ i o, NotesLast notes (i, o) (body i o))
    {s₀ : σ} (h₀ : notes s₀ = []) {sys : Tasks ι σ ω}
    (hr : Events.run (step E body) (start s₀) es = some sys) : InOrder notes es sys := by
  have hstart : InOrder notes [] (start s₀ : Tasks ι σ ω) := by
    intro i
    refine Or.inl ⟨rfl, ?_⟩
    change notedBy i (notes s₀) = []
    rw [h₀]
    rfl
  refine Events.history_invariant ?_ hstart hr
  intro es sys e sys' h hs
  cases e with
  | call i o => exact inOrder_call hbody h hs
  | task i => exact inOrder_task h hs
  | tick =>
    obtain ⟨-, s, hs', rfl⟩ := step_tick hs
    intro i
    rw [issued_other (by exact nofun), htick _ _ hs']
    rcases h i with ⟨hidle, hnoted⟩ | ⟨o, hlast, hnoted⟩
    · exact Or.inl ⟨(idle_elapse _).trans hidle, hnoted⟩
    · exact Or.inr ⟨o, hlast.elapse, hnoted⟩
  | react =>
    obtain ⟨-, s, hs', rfl⟩ := step_react hs
    intro i
    rw [issued_other (by exact nofun), hreact _ _ hs']
    exact h i

end Inversion

/-! ### Critical parts that do not overlap -/

/-- What is known of the operations of every task: the surroundings and the leads do only rely
steps, which keep the rest states, and from a rest state a critical part does `Φ` throughout and
ends at rest. A task blocked inside its critical part is `Inside` it. -/
structure Discipline (E : Surroundings σ) (R : Nat → σ → σ → Prop) (J : σ → Prop)
    (body crit : ι → ω → Program σ Unit) (Φ : ι → ω → Program σ Unit → σ → Prop)
    (Inside : Program σ Unit → Prop) : Prop where
  rely : Rely R
  tick : ∀ s t, E.tick s = some t → R 1 s t
  react : ∀ s t, E.react s = some t → R 0 s t
  rest : ∀ s t, J s → R 0 s t → J t
  lead : ∀ i o, InLead (R 0) (crit i o) (body i o)
  begins : ∀ i o, (crit i o).elapse = crit i o
  crit : ∀ i o s, J s → Throughout R (Φ i o) (fun _ => J) (crit i o) s
  inside : ∀ i o p s, Φ i o p s → p.running = false → p.idle = false → Inside p

/-- No task begins its critical part while another is blocked inside its own. -/
def EntersAlone (crit : ι → ω → Program σ Unit) (Inside : Program σ Unit → Prop)
    (sys : Tasks ι σ ω) : TaskEvent ι ω → Prop
  | .task i => (∃ o, sys.op i = some o ∧ sys.prog i = crit i o) →
      ∀ j, j ≠ i → ¬ Inside (sys.prog j)
  | _ => True

/-- The task that moves goes on after a wait, or all others are idle. -/
def alone [DecidableEq ι] [Fintype ι] (sys : Tasks ι σ ω) : TaskEvent ι ω → Bool
  | .task i => !((sys.prog i).running || (sys.prog i).idle) ||
      decide (∀ j, j ≠ i → (sys.prog j).idle = true)
  | _ => true

theorem entersAlone_of_alone [DecidableEq ι] [Fintype ι] {crit : ι → ω → Program σ Unit}
    {Inside : Program σ Unit → Prop}
    (hcrit : ∀ i o, (crit i o).running = true ∨ (crit i o).idle = true)
    (hinside : ∀ p, p.idle = true → ¬ Inside p) (sys : Tasks ι σ ω) (e : TaskEvent ι ω)
    (h : sys.alone e = true) : EntersAlone crit Inside sys e := by
  cases e with
  | call i o => trivial
  | task i =>
    rintro ⟨o, -, hp⟩ j hj
    have hentry : ((sys.prog i).running || (sys.prog i).idle) = true := by
      rw [hp, Bool.or_eq_true]
      exact hcrit i o
    simp only [alone, hentry, Bool.not_true, Bool.false_or, decide_eq_true_eq] at h
    exact hinside _ (h j hj)
  | tick => trivial
  | react => trivial

/-- The task is idle or in the lead of its operation. -/
def Outside (R : Nat → σ → σ → Prop) (crit : ι → ω → Program σ Unit) (sys : Tasks ι σ ω)
    (i : ι) : Prop :=
  (sys.prog i).idle = true ∨ ∃ o, sys.op i = some o ∧ InLead (R 0) (crit i o) (sys.prog i)

/-- Either the state is at rest and all tasks are outside their critical parts, or exactly one is
inside and keeps its promise. -/
def Apart (R : Nat → σ → σ → Prop) (J : σ → Prop) (crit : ι → ω → Program σ Unit)
    (Φ : ι → ω → Program σ Unit → σ → Prop) (sys : Tasks ι σ ω) : Prop :=
  (∀ i, Outside R crit sys i) ∧ J sys.state ∨
    ∃ i o, sys.op i = some o ∧ (sys.prog i).idle = false ∧
      Throughout R (Φ i o) (fun _ => J) (sys.prog i) sys.state ∧
        ∀ j, j ≠ i → Outside R crit sys j

section Exclusive

variable {E : Surroundings σ} {R : Nat → σ → σ → Prop} {J : σ → Prop}
  {body crit : ι → ω → Program σ Unit} {Φ : ι → ω → Program σ Unit → σ → Prop}
  {Inside : Program σ Unit → Prop}

theorem Apart.of_throughout {sys : Tasks ι σ ω} {i : ι} {o : ω} (hop : sys.op i = some o)
    (h : Throughout R (Φ i o) (fun _ => J) (sys.prog i) sys.state)
    (hothers : ∀ j, j ≠ i → Outside R crit sys j) : Apart R J crit Φ sys := by
  cases hidle : (sys.prog i).idle with
  | false => exact Or.inr ⟨i, o, hop, hidle, h, hothers⟩
  | true =>
    have hrest : J sys.state := h.at_end hidle
    refine Or.inl ⟨?_, hrest⟩
    intro j
    by_cases hj : j = i
    · exact Or.inl (hj ▸ hidle)
    · exact hothers j hj

theorem Outside.elapse {sys : Tasks ι σ ω} {i : ι} {s : σ}
    (hd : Discipline E R J body crit Φ Inside) (h : Outside R crit sys i) :
    Outside R crit { sys with state := s, prog := fun i => (sys.prog i).elapse } i := by
  rcases h with hidle | ⟨o, hop, hlead⟩
  · exact Or.inl ((idle_elapse _).trans hidle)
  · exact Or.inr ⟨o, hop, hlead.elapse (hd.begins i o)⟩

/-- At every moment a busy task is in its lead or keeps the promise of its critical part. -/
theorem Apart.busy {sys : Tasks ι σ ω} {i : ι} {o : ω} (hR : Rely R) (h : Apart R J crit Φ sys)
    (hop : sys.op i = some o) (hbusy : (sys.prog i).idle = false) :
    InLead (R 0) (crit i o) (sys.prog i) ∨ Φ i o (sys.prog i) sys.state := by
  have houtside (hout : Outside R crit sys i) : InLead (R 0) (crit i o) (sys.prog i) := by
    rcases hout with hidle | ⟨o', hop', hlead⟩
    · rw [hidle] at hbusy
      cases hbusy
    · obtain rfl : o = o' := Option.some.inj (hop.symm.trans hop')
      exact hlead
  rcases h with ⟨hout, -⟩ | ⟨k, l, hopk, hbusyk, hk, hout⟩
  · exact Or.inl (houtside (hout i))
  · by_cases hik : i = k
    · subst hik
      obtain rfl : o = l := Option.some.inj (hop.symm.trans hopk)
      exact Or.inr (hk.now hR hbusyk)
    · exact Or.inl (houtside (hout i hik))

variable [DecidableEq ι]

theorem Outside.goOn_ne {sys : Tasks ι σ ω} {i j : ι} {s : σ} {p : Program σ Unit}
    (h : Outside R crit sys j) (hj : j ≠ i) : Outside R crit (sys.goOn i s p) j := by
  rw [Outside, goOn_prog_ne sys s p hj]
  exact h

theorem apart_call [Fintype ι] {sys sys' : Tasks ι σ ω} {i : ι} {o : ω}
    (hd : Discipline E R J body crit Φ Inside) (h : Apart R J crit Φ sys)
    (hs : step E body sys (.call i o) = some sys') : Apart R J crit Φ sys' := by
  obtain ⟨-, hidle, rfl⟩ := step_call hs
  have hself : Outside R crit { sys.goOn i sys.state (body i o) with
      op := Function.update sys.op i (some o) } i := by
    refine Or.inr ⟨o, Function.update_self .., ?_⟩
    rw [goOn_prog_self]
    exact hd.lead i o
  have hother (j : ι) (hj : j ≠ i) (hout : Outside R crit sys j) :
      Outside R crit { sys.goOn i sys.state (body i o) with
        op := Function.update sys.op i (some o) } j := by
    simp only [Outside, goOn_prog_ne sys _ _ hj, Function.update_of_ne hj]
    exact hout
  rcases h with ⟨hout, hrest⟩ | ⟨k, l, hop, hbusy, hk, hout⟩
  · refine Or.inl ⟨?_, hrest⟩
    intro j
    by_cases hj : j = i
    · exact hj ▸ hself
    · exact hother j hj (hout j)
  · have hki : k ≠ i := by
      rintro rfl
      rw [hidle] at hbusy
      cases hbusy
    refine Or.inr ⟨k, l, ?_, ?_, ?_, ?_⟩
    · exact (Function.update_of_ne hki ..).trans hop
    · rw [goOn_prog_ne sys _ _ hki]
      exact hbusy
    · rw [goOn_prog_ne sys _ _ hki]
      exact hk
    · intro j hj
      by_cases hji : j = i
      · exact hji ▸ hself
      · exact hother j hji (hout j hj)

/-- A task outside its critical part either enters it now or goes on in its lead. -/
theorem Outside.move {sys : Tasks ι σ ω} {i : ι} {p : Program σ Unit} {s : σ}
    (hd : Discipline E R J body crit Φ Inside) (h : Outside R crit sys i)
    (hmove : Moves (sys.prog i) sys.state p s) :
    (∃ o, sys.op i = some o ∧ sys.prog i = crit i o) ∨
      Outside R crit (sys.goOn i s p) i ∧ R 0 sys.state s := by
  rcases h with hidle | ⟨o, hop, hlead⟩
  · rw [hmove.not_idle] at hidle
    cases hidle
  · rcases hlead.move hd.rely.refl hmove with hentry | ⟨hlead', hR⟩
    · exact Or.inl ⟨o, hop, hentry⟩
    · refine Or.inr ⟨Or.inr ⟨o, hop, ?_⟩, hR⟩
      rw [goOn_prog_self]
      exact hlead'

theorem apart_goOn {sys : Tasks ι σ ω} {i : ι} {o : ω} {p : Program σ Unit} {s : σ}
    (hd : Discipline E R J body crit Φ Inside) (hop : sys.op i = some o)
    (h : Throughout R (Φ i o) (fun _ => J) (sys.prog i) sys.state)
    (hmove : Moves (sys.prog i) sys.state p s)
    (hothers : ∀ j, j ≠ i → Outside R crit sys j) : Apart R J crit Φ (sys.goOn i s p) := by
  have hnext : Throughout R (Φ i o) (fun _ => J) ((sys.goOn i s p).prog i) s := by
    rw [goOn_prog_self]
    exact h.move hd.rely hmove
  exact Apart.of_throughout hop hnext fun j hj => (hothers j hj).goOn_ne hj

theorem apart_task [Fintype ι] {sys sys' : Tasks ι σ ω} {i : ι}
    (hd : Discipline E R J body crit Φ Inside) (hone : sys.OneRuns) (h : Apart R J crit Φ sys)
    (hg : EntersAlone crit Inside sys (.task i))
    (hs : step E body sys (.task i) = some sys') : Apart R J crit Φ sys' := by
  have hblocked := others_blocked hone hs
  obtain ⟨p, s, hmove, rfl, -⟩ := step_task hs
  rcases h with ⟨hout, hrest⟩ | ⟨k, l, hopk, hbusy, hk, hout⟩
  · rcases (hout i).move hd hmove with ⟨o, hop, hentry⟩ | ⟨hself, hR⟩
    · have hcrit : Throughout R (Φ i o) (fun _ => J) (sys.prog i) sys.state := by
        rw [hentry]
        exact hd.crit i o sys.state hrest
      exact apart_goOn hd hop hcrit hmove fun j _ => hout j
    · refine Or.inl ⟨?_, hd.rest _ _ hrest hR⟩
      intro j
      by_cases hj : j = i
      · exact hj ▸ hself
      · exact (hout j).goOn_ne hj
  · by_cases hik : i = k
    · subst hik
      exact apart_goOn hd hopk hk hmove hout
    · have hki : k ≠ i := fun hki => hik hki.symm
      have hkblocked := hblocked k hki
      rcases (hout i hik).move hd hmove with hentry | ⟨hself, hR⟩
      · have hin : Inside (sys.prog k) :=
          hd.inside k l _ _ (hk.now hd.rely hbusy) hkblocked hbusy
        exact absurd hin (hg hentry k hki)
      · refine Or.inr ⟨k, l, hopk, ?_, ?_, ?_⟩
        · rw [goOn_prog_ne sys s p hki]
          exact hbusy
        · rw [goOn_prog_ne sys s p hki]
          exact hk.beside hd.rely hR hkblocked hbusy
        · intro j hj
          by_cases hji : j = i
          · exact hji ▸ hself
          · exact (hout j hj).goOn_ne hji

theorem apart_tick [Fintype ι] {sys sys' : Tasks ι σ ω}
    (hd : Discipline E R J body crit Φ Inside) (h : Apart R J crit Φ sys)
    (hs : step E body sys .tick = some sys') : Apart R J crit Φ sys' := by
  obtain ⟨hready, s, htick, rfl⟩ := step_tick hs
  have hR : R 1 sys.state s := hd.tick _ _ htick
  rcases h with ⟨hout, hrest⟩ | ⟨k, l, hop, hbusy, hk, hout⟩
  · refine Or.inl ⟨fun i => (hout i).elapse hd, ?_⟩
    exact hd.rest _ _ hrest (hd.rely.mono (Nat.zero_le 1) hR)
  · refine Or.inr ⟨k, l, hop, ?_, ?_, fun j hj => (hout j hj).elapse hd⟩
    · rw [idle_elapse]
      exact hbusy
    · exact hk.elapse hd.rely hR (hready k) hbusy

theorem apart_react [Fintype ι] {sys sys' : Tasks ι σ ω}
    (hd : Discipline E R J body crit Φ Inside) (h : Apart R J crit Φ sys)
    (hs : step E body sys .react = some sys') : Apart R J crit Φ sys' := by
  obtain ⟨hready, s, hreact, rfl⟩ := step_react hs
  have hR : R 0 sys.state s := hd.react _ _ hreact
  rcases h with ⟨hout, hrest⟩ | ⟨k, l, hop, hbusy, hk, hout⟩
  · exact Or.inl ⟨hout, hd.rest _ _ hrest hR⟩
  · exact Or.inr ⟨k, l, hop, hbusy, hk.beside hd.rely hR (hready k) hbusy, hout⟩

/-- In every run whose critical parts are entered alone, no two of them overlap. -/
theorem exclusive_invariant [Fintype ι] (hd : Discipline E R J body crit Φ Inside) {s₀ : σ}
    (h₀ : J s₀) {es : List (TaskEvent ι ω)} {sys : Tasks ι σ ω}
    (hg : Events.Guarded (step E body) (EntersAlone crit Inside) (start s₀) es)
    (hr : Events.run (step E body) (start s₀) es = some sys) : Apart R J crit Φ sys := by
  have hstart : (start s₀ : Tasks ι σ ω).OneRuns ∧ Apart R J crit Φ (start s₀) :=
    ⟨Ready.oneRuns fun _ => rfl, Or.inl ⟨fun _ => Or.inl rfl, h₀⟩⟩
  have hstep (sys : Tasks ι σ ω) (e : TaskEvent ι ω) (sys' : Tasks ι σ ω)
      (h : sys.OneRuns ∧ Apart R J crit Φ sys) (he : EntersAlone crit Inside sys e)
      (hs : step E body sys e = some sys') : sys'.OneRuns ∧ Apart R J crit Φ sys' := by
    refine ⟨oneRuns_step e h.1 hs, ?_⟩
    cases e with
    | call i o => exact apart_call hd h.2 hs
    | task i => exact apart_task hd h.1 h.2 he hs
    | tick => exact apart_tick hd h.2 hs
    | react => exact apart_react hd h.2 hs
  exact (Events.guarded_invariant hstep hstart hg hr).2

end Exclusive

end Tasks
