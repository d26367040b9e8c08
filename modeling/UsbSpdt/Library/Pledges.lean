import UsbSpdt.Library.Tasks

/-!
# Pledges

A property that a program may break as long as it has an action ahead of it, on every path and
whatever the others do, that restores it. When all tasks are such programs, the property holds in
every state in which no task has such an action ahead of it, even if they preempt each other.
-/

namespace Program

variable {σ α β : Type}

/-- Every path has an action ahead that establishes `P`, whatever the state is then. -/
def Owes (P : σ → Prop) : Program σ α → Prop
  | .done _ => False
  | .act f next => (∀ s, P (f s)) ∨ Owes P next
  | .look next => ∀ s, Owes P (next s)
  | .wait _ next => Owes P next

/-- Every action keeps `P`, or comes with the pledge to establish it. -/
def Pledged (P : σ → Prop) : Program σ α → Prop
  | .done _ => True
  | .act f next => ((∀ s, P s → P (f s)) ∨ Owes P next) ∧ Pledged P next
  | .look next => ∀ s, Pledged P (next s)
  | .wait _ next => Pledged P next

variable {P : σ → Prop}

theorem Owes.bind_left {p : Program σ α} {f : α → Program σ β} (h : Owes P p) :
    Owes P (p >>= f) := by
  change Owes P (p.bind f)
  induction p with
  | done a => exact h.elim
  | act g next ih => exact h.imp id ih
  | look next ih => exact fun s => ih s (h s)
  | wait n next ih => exact ih h

theorem owes_bind {p : Program σ α} {f : α → Program σ β} (h : ∀ a, Owes P (f a)) :
    Owes P (p >>= f) := by
  change Owes P (p.bind f)
  induction p with
  | done a => exact h a
  | act g next ih => exact Or.inr ih
  | look next ih => exact fun s => ih s
  | wait n next ih => exact ih

theorem pledged_bind {p : Program σ α} {f : α → Program σ β} (hp : Pledged P p)
    (hf : ∀ a, Pledged P (f a)) : Pledged P (p >>= f) := by
  change Pledged P (p.bind f)
  induction p with
  | done a => exact hf a
  | act g next ih => exact ⟨hp.1.imp id Owes.bind_left, ih hp.2⟩
  | look next ih => exact fun s => ih s (hp s)
  | wait n next ih => exact ih hp

/-- Actions that keep `P` need no pledge. -/
theorem Acts.pledged {p : Program σ α} (h : Acts (fun s t => P s → P t) p) : Pledged P p := by
  induction p with
  | done a => trivial
  | act f next ih => exact ⟨Or.inl h.1, ih h.2⟩
  | look next ih => exact fun s => ih s (h s)
  | wait n next ih => exact ih h

theorem Owes.elapse {p : Program σ α} (h : Owes P p) : Owes P p.elapse := by
  cases p with
  | done a => exact h
  | act f next => exact h
  | look next => exact h
  | wait n next => exact h

theorem Pledged.elapse {p : Program σ α} (h : Pledged P p) : Pledged P p.elapse := by
  cases p with
  | done a => exact h
  | act f next => exact h
  | look next => exact h
  | wait n next => exact h

/-- A program that moves stays pledged and holds to what it owes. -/
theorem Pledged.move {p p' : Program σ α} {s s' : σ} (h : Pledged P p) (hm : Moves p s p' s') :
    Pledged P p' ∧ (P s ∨ Owes P p → P s' ∨ Owes P p') := by
  cases hm with
  | act f next =>
    refine ⟨h.2, fun hs => ?_⟩
    obtain hP | hest | howes := hs
    · exact h.1.imp (fun hkeep => hkeep s hP) id
    · exact Or.inl (hest s)
    · exact Or.inr howes
  | look next => exact ⟨h s, Or.imp id fun howes => howes s⟩
  | wait next => exact ⟨h, id⟩

end Program

namespace Tasks

open Program

variable {ι σ ω : Type}

/-- Every task is pledged, and one owes `P` if it does not hold. -/
structure Solvent (P : σ → Prop) (sys : Tasks ι σ ω) : Prop where
  pledged : ∀ i, Pledged P (sys.prog i)
  owed : P sys.state ∨ ∃ i, Owes P (sys.prog i)

/-- Nobody owes anything when all tasks are idle. -/
theorem Solvent.of_idle {P : σ → Prop} {sys : Tasks ι σ ω} (h : Solvent P sys)
    (hidle : ∀ i, (sys.prog i).idle = true) : P sys.state := by
  obtain hP | ⟨i, howes⟩ := h.owed
  · exact hP
  · have hi := hidle i
    cases hp : sys.prog i with
    | done u =>
      rw [hp] at howes
      exact howes.elim
    | _ =>
      rw [hp] at hi
      cases hi

variable [DecidableEq ι] [Fintype ι] {E : Surroundings σ} {body : ι → ω → Program σ Unit}
  {P : σ → Prop}

theorem solvent_step (htick : ∀ s t, P s → E.tick s = some t → P t)
    (hreact : ∀ s t, P s → E.react s = some t → P t) (hbody : ∀ i o, Pledged P (body i o))
    {sys sys' : Tasks ι σ ω} {e : TaskEvent ι ω} (h : Solvent P sys)
    (hs : preempt E body sys e = some sys') : Solvent P sys' := by
  cases e with
  | call i o =>
    obtain ⟨hidle, rfl⟩ := preempt_call hs
    refine ⟨(Function.forall_update_iff sys.prog fun _ p => Pledged P p).mpr
      ⟨hbody i o, fun j _ => h.pledged j⟩, h.owed.imp id ?_⟩
    rintro ⟨j, howes⟩
    have hne : j ≠ i := by
      rintro rfl
      cases hp : sys.prog j with
      | done u =>
        rw [hp] at howes
        exact howes
      | _ =>
        rw [hp] at hidle
        cases hidle
    exact ⟨j, (goOn_prog_ne sys sys.state (body i o) hne).symm ▸ howes⟩
  | task i =>
    obtain ⟨p, s, hmove, rfl⟩ := preempt_task hs
    obtain ⟨hpledged, howed⟩ := (h.pledged i).move hmove
    refine ⟨(Function.forall_update_iff sys.prog fun _ p => Pledged P p).mpr
      ⟨hpledged, fun j _ => h.pledged j⟩, ?_⟩
    by_cases hothers : ∃ j, j ≠ i ∧ Owes P (sys.prog j)
    · obtain ⟨j, hne, howes⟩ := hothers
      exact Or.inr ⟨j, (goOn_prog_ne sys s p hne).symm ▸ howes⟩
    · have hown : P sys.state ∨ Owes P (sys.prog i) := by
        refine h.owed.imp id fun ⟨j, howes⟩ => ?_
        by_cases hj : j = i
        · exact hj ▸ howes
        · exact absurd ⟨j, hj, howes⟩ hothers
      exact (howed hown).imp id fun howes => ⟨i, (goOn_prog_self sys i s p).symm ▸ howes⟩
  | tick =>
    obtain ⟨s, hs', rfl⟩ := preempt_tick hs
    exact ⟨fun i => (h.pledged i).elapse,
      h.owed.imp (fun hP => htick _ _ hP hs') fun ⟨i, howes⟩ => ⟨i, howes.elapse⟩⟩
  | react =>
    obtain ⟨s, hs', rfl⟩ := preempt_react hs
    exact ⟨h.pledged, h.owed.imp (fun hP => hreact _ _ hP hs') id⟩

/-- When every operation is pledged to `P` and the surroundings keep it, every run stays solvent. -/
theorem pledged_invariant (htick : ∀ s t, P s → E.tick s = some t → P t)
    (hreact : ∀ s t, P s → E.react s = some t → P t) (hbody : ∀ i o, Pledged P (body i o))
    {s₀ : σ} (h₀ : P s₀) {es : List (TaskEvent ι ω)} {sys : Tasks ι σ ω}
    (hr : Events.run (preempt E body) (start s₀) es = some sys) : Solvent P sys := by
  have hstart : Solvent P (start s₀ : Tasks ι σ ω) := ⟨fun _ => trivial, Or.inl h₀⟩
  exact Events.invariant (fun _ _ _ h hs => solvent_step htick hreact hbody h hs) hstart hr

end Tasks
