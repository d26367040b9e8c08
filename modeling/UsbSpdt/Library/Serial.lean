import UsbSpdt.Library.Tasks

/-!
# Operations in a serial order

An operation does its work in one piece, waits, and notes what it has got. A task that only waits
need not be waited for: when none begins before the state is free, the operations are those of a
serial order, the one in which their work has come to its end.
-/

namespace Program

variable {σ α β : Type} {p : Program σ α} {f : α → Program σ β}

theorem Moves.of_bind {q : Program σ β} {s s' : σ} (h : Moves (p.bind f) s q s')
    (hidle : p.idle = false) : ∃ p', Moves p s p' s' ∧ q = p'.bind f := by
  cases p with
  | done a => cases hidle
  | act g next =>
    cases h
    exact ⟨next, .act g next s, rfl⟩
  | look next =>
    cases h
    exact ⟨next s, .look next s, rfl⟩
  | wait n next =>
    cases h
    exact ⟨next, .wait next s, rfl⟩

theorem stand_bind (hidle : p.idle = false) : (p.bind f).idle = false ∧
    (p.bind f).running = p.running ∧ (p.bind f).elapse = p.elapse.bind f := by
  cases p with
  | done a => cases hidle
  | act g next => exact ⟨rfl, rfl, rfl⟩
  | look next => exact ⟨rfl, rfl, rfl⟩
  | wait n next => exact ⟨rfl, rfl, rfl⟩

theorem Acts.move {S : σ → σ → Prop} {p' : Program σ α} {s s' : σ} (h : Acts S p)
    (hm : Moves p s p' s') : Acts S p' ∧ (S s s' ∨ s' = s) := by
  cases hm with
  | act g next => exact ⟨h.2, Or.inl (h.1 s)⟩
  | look next => exact ⟨h s, Or.inr rfl⟩
  | wait next => exact ⟨h, Or.inr rfl⟩

theorem Acts.elapse {S : σ → σ → Prop} (h : Acts S p) : Acts S p.elapse := by
  cases p <;> exact h

theorem InLead.not_idle {S : σ → σ → Prop} {c : Program σ α} (h : InLead S c p)
    (hc : c.idle = false) : p.idle = false := by
  obtain ⟨q, -, rfl⟩ := h
  cases q with
  | done a => exact hc
  | act g next => rfl
  | look next => rfl
  | wait n next => rfl

/-- What only waits before its last step leaves the state alone until then. -/
theorem InLead.move_last {g : σ → σ} {p p' : Program σ Unit} {s s' : σ}
    (h : InLead (fun s t => t = s) (modify g) p) (hm : Moves p s p' s') :
    p'.idle = true ∧ s' = g s ∨ InLead (fun s t => t = s) (modify g) p' ∧ s' = s := by
  rcases InLead.move (S := fun s t => t = s) (fun _ => rfl) h hm with rfl | hlead
  · cases hm
    exact Or.inl ⟨rfl, rfl⟩
  · exact Or.inr hlead

theorem throughout_bind {R : Nat → σ → σ → Prop} {P Q : σ → Prop} {p : Program σ Unit}
    {f : Unit → Program σ Unit} {s : σ}
    (hp : Throughout R (fun _ _ => True) (fun _ => P) p s)
    (hf : ∀ t, P t → Throughout R (fun _ _ => True) (fun _ => Q) (f ()) t) :
    Throughout R (fun _ _ => True) (fun _ => Q) (p.bind f) s := by
  induction p generalizing s with
  | done a => exact hf s hp
  | act g next ih => exact ⟨trivial, ih hp.2⟩
  | look next ih => exact ⟨trivial, ih s hp.2⟩
  | wait n next ih => exact ⟨fun _ _ _ => trivial, fun t ht => ih (hp.2 t ht)⟩

end Program

namespace Tasks

open Program

variable {ι σ ω ρ : Type}

/-- No operation begins while another task is in progress and the state is not free. -/
def BeginsFree (Free : σ → Prop) (sys : Tasks ι σ ω) : TaskEvent ι ω → Prop
  | .call i _ => ∀ j, j ≠ i → (sys.prog j).idle = false → Free sys.state
  | _ => True

instance [DecidableEq ι] [Fintype ι] (Free : σ → Prop) [DecidablePred Free] (sys : Tasks ι σ ω)
    (e : TaskEvent ι ω) : Decidable (sys.BeginsFree Free e) :=
  match e with
  | .call i _ =>
    inferInstanceAs (Decidable (∀ j, j ≠ i → (sys.prog j).idle = false → Free sys.state))
  | .task _ | .tick | .react => inferInstanceAs (Decidable True)

/-- Operations that can be put in an order. `J l` holds of what the operations in `l` come to, one
after another, and nobody works in a `Free` state. Begun there, work leads on from it, and until it
is done the state is not free whenever the task is blocked; behind the wait it is free again. -/
structure Serial (ι σ ω ρ : Type) where
  surroundings : Surroundings σ
  work : ι → ω → Program σ ρ
  pause : ω → Program σ Unit
  note : ι × ω × ρ → σ → σ
  notes : σ → List (ι × ω × ρ)
  R : Nat → σ → σ → Prop
  J : List (ι × ω × ρ) → σ → Prop
  Free : σ → Prop
  rely : Rely R
  tick : ∀ s t, surroundings.tick s = some t → R 1 s t ∧ notes t = notes s
  react : ∀ s t, surroundings.react s = some t → R 0 s t ∧ notes t = notes s
  rest : ∀ l s t, J l s → R 0 s t → J l t
  free : ∀ s t, Free s → R 0 s t → Free t
  noted : ∀ x s, R 0 s (note x s) ∧ notes (note x s) = notes s ++ [x]
  begins : ∀ i o, (work i o).idle = false
  works : ∀ i o l s, J l s → Free s → Throughout R (fun p t => p.running = false → ¬ Free t)
    (fun r t => J (l ++ [(i, o, r)]) t ∧ Throughout R (fun _ _ => True) (fun _ => Free) (pause o) t)
    (work i o) s
  quiet : ∀ i o, Acts (fun s t => notes t = notes s) (work i o)
  pauses : ∀ o, Acts (fun s t => t = s) (pause o)

/-- An operation: its work, a wait, and the note of what it has got. -/
def Serial.body (d : Serial ι σ ω ρ) (i : ι) (o : ω) : Program σ Unit :=
  d.work i o >>= fun r => d.pause o >>= fun _ => modify (d.note (i, o, r))

variable [DecidableEq ι]

/-- The entries of one task. -/
def entries (i : ι) (l : List (ι × ω × ρ)) : List (ι × ω × ρ) := l.filter fun x => x.1 = i

theorem entries_concat_self (x : ι × ω × ρ) (l : List (ι × ω × ρ)) :
    entries x.1 (l ++ [x]) = entries x.1 l ++ [x] := by
  simp [entries]

theorem entries_concat_ne {i : ι} {x : ι × ω × ρ} (h : x.1 ≠ i) (l : List (ι × ω × ρ)) :
    entries i (l ++ [x]) = entries i l := by
  simp [entries, h]

/-- The task is idle, or its work is in the list and the note of it all that it has left to do. -/
inductive Parked (note : ι × ω × ρ → σ → σ) (l : List (ι × ω × ρ)) (i : ι) (p : Program σ Unit)
    (noted : List (ι × ω × ρ)) : Prop
  | idle (hidle : p.idle = true) (hnoted : entries i noted = entries i l)
  | leaving (o : ω) (r : ρ) (hlead : InLead (fun s t => t = s) (modify (note (i, o, r))) p)
      (hnoted : entries i noted ++ [(i, o, r)] = entries i l)

section Parked

variable {note : ι × ω × ρ → σ → σ} {l : List (ι × ω × ρ)} {i : ι} {p : Program σ Unit}
  {noted : List (ι × ω × ρ)}

/-- Only its own entries matter to a task. -/
theorem Parked.congr (h : Parked note l i p noted) {l' noted' : List (ι × ω × ρ)}
    (hl : entries i l' = entries i l) (hnoted : entries i noted' = entries i noted) :
    Parked note l' i p noted' := by
  cases h with
  | idle hidle h => exact .idle hidle (hnoted.trans (h.trans hl.symm))
  | leaving o r hlead h => exact .leaving o r hlead (by rw [hnoted, h, hl])

theorem Parked.elapse (h : Parked note l i p noted) : Parked note l i p.elapse noted := by
  cases h with
  | idle hidle h => exact .idle ((idle_elapse p).trans hidle) h
  | leaving o r hlead h => exact .leaving o r (hlead.elapse rfl) h

theorem Parked.of_idle (h : Parked note l i p noted) (hidle : p.idle = true) :
    entries i noted = entries i l := by
  cases h with
  | idle hidle h => exact h
  | leaving o r hlead h =>
    rw [hlead.not_idle rfl] at hidle
    cases hidle

/-- A parked task goes on to its note, or makes it. -/
theorem Parked.move {d : Serial ι σ ω ρ} {s s' : σ} {p' : Program σ Unit}
    (h : Parked d.note l i p (d.notes s)) (hm : Moves p s p' s') :
    Parked d.note l i p' (d.notes s') ∧ d.R 0 s s' ∧
      ∀ j, j ≠ i → entries j (d.notes s') = entries j (d.notes s) := by
  cases h with
  | idle hidle h =>
    rw [hm.not_idle] at hidle
    cases hidle
  | leaving o r hlead h =>
    rcases hlead.move_last hm with ⟨hidle, rfl⟩ | ⟨hlead', rfl⟩
    · obtain ⟨hR, hnotes⟩ := d.noted (i, o, r) s
      refine ⟨.idle hidle ?_, hR, fun j hj => ?_⟩
      · rw [hnotes, entries_concat_self (i, o, r)]
        exact h
      · rw [hnotes, entries_concat_ne (Ne.symm hj)]
    · exact ⟨.leaving o r hlead' h, d.rely.refl _, fun _ _ => rfl⟩

end Parked

/-! ### The order -/

namespace Serial

variable (d : Serial ι σ ω ρ)

/-- The task waits behind its work, the last in the list, for the state to be free. -/
structure Pausing (l : List (ι × ω × ρ)) (i : ι) (p : Program σ Unit) (s : σ) : Prop where
  rest : d.J l s
  wait : Throughout d.R (fun _ _ => True) (fun _ => d.Free) p s
  last : ∃ o r, InLead (fun s t => t = s) (modify (d.note (i, o, r))) p ∧
    entries i (d.notes s) ++ [(i, o, r)] = entries i l

/-- The task is at work on an operation that comes behind the list. -/
structure Working (l : List (ι × ω × ρ)) (i : ι) (o : ω) (p : Program σ ρ) (s : σ) : Prop where
  quiet : Acts (fun s t => d.notes t = d.notes s) p
  work : Throughout d.R (fun p t => p.running = false → ¬ d.Free t)
    (fun r t => d.J (l ++ [(i, o, r)]) t ∧
      Throughout d.R (fun _ _ => True) (fun _ => d.Free) (d.pause o) t) p s
  noted : entries i (d.notes s) = entries i l

/-- What is left of an operation besides its work. -/
def tail (i : ι) (o : ω) (r : ρ) : Program σ Unit :=
  d.pause o >>= fun _ => modify (d.note (i, o, r))

/-- Where a system stands: all tasks are parked in a free state, or all but one are. -/
inductive Ordered (sys : Tasks ι σ ω) : Prop
  | free (l : List (ι × ω × ρ)) (hJ : d.J l sys.state) (hfree : d.Free sys.state)
      (hparked : ∀ i, Parked d.note l i (sys.prog i) (d.notes sys.state))
  | pausing (l : List (ι × ω × ρ)) (i : ι) (hself : d.Pausing l i (sys.prog i) sys.state)
      (hparked : ∀ j, j ≠ i → Parked d.note l j (sys.prog j) (d.notes sys.state))
  | working (l : List (ι × ω × ρ)) (i : ι) (o : ω) (p : Program σ ρ)
      (hprog : sys.prog i = p.bind (d.tail i o)) (hbusy : p.idle = false)
      (hself : d.Working l i o p sys.state)
      (hparked : ∀ j, j ≠ i → Parked d.note l j (sys.prog j) (d.notes sys.state))

variable {d} {sys : Tasks ι σ ω} {l : List (ι × ω × ρ)} {i k : ι} {o : ω}

theorem Pausing.not_idle {p : Program σ Unit} {s : σ} (h : d.Pausing l i p s) : p.idle = false := by
  obtain ⟨o, r, hlead, -⟩ := h.last
  exact hlead.not_idle rfl

theorem Pausing.parked {p : Program σ Unit} {s : σ} (h : d.Pausing l i p s) :
    Parked d.note l i p (d.notes s) := by
  obtain ⟨o, r, hlead, hnoted⟩ := h.last
  exact .leaving o r hlead hnoted

theorem Pausing.beside {p : Program σ Unit} {s t : σ} (h : d.Pausing l i p s) (hR : d.R 0 s t)
    (hblocked : p.running = false) (hnotes : entries i (d.notes t) = entries i (d.notes s)) :
    d.Pausing l i p t := by
  obtain ⟨o, r, hlead, hnoted⟩ := h.last
  exact ⟨d.rest _ _ _ h.rest hR, h.wait.beside d.rely hR hblocked h.not_idle, o, r, hlead,
    by rw [hnotes]; exact hnoted⟩

theorem Pausing.elapse {p : Program σ Unit} {s t : σ} (h : d.Pausing l i p s) (hR : d.R 1 s t)
    (hblocked : p.running = false) (hnotes : d.notes t = d.notes s) :
    d.Pausing l i p.elapse t := by
  obtain ⟨o, r, hlead, hnoted⟩ := h.last
  exact ⟨d.rest _ _ _ h.rest (d.rely.mono (Nat.zero_le 1) hR),
    h.wait.elapse d.rely hR hblocked h.not_idle, o, r, hlead.elapse rfl,
    by rw [hnotes]; exact hnoted⟩

theorem Working.beside {p : Program σ ρ} {s t : σ} (h : d.Working l i o p s) (hR : d.R 0 s t)
    (hblocked : p.running = false) (hbusy : p.idle = false)
    (hnotes : entries i (d.notes t) = entries i (d.notes s)) : d.Working l i o p t :=
  ⟨h.quiet, h.work.beside d.rely hR hblocked hbusy, hnotes.trans h.noted⟩

theorem Working.elapse {p : Program σ ρ} {s t : σ} (h : d.Working l i o p s) (hR : d.R 1 s t)
    (hblocked : p.running = false) (hbusy : p.idle = false) (hnotes : d.notes t = d.notes s) :
    d.Working l i o p.elapse t :=
  ⟨h.quiet.elapse, h.work.elapse d.rely hR hblocked hbusy, by rw [hnotes]; exact h.noted⟩

theorem parked_goOn {note : ι × ω × ρ → σ → σ} {notes : σ → List (ι × ω × ρ)} {j : ι} {s : σ}
    {p : Program σ Unit} (h : Parked note l j (sys.prog j) (notes sys.state)) (hj : j ≠ i)
    (hnotes : entries j (notes s) = entries j (notes sys.state)) :
    Parked note l j ((sys.goOn i s p).prog j) (notes s) := by
  rw [goOn_prog_ne sys s p hj]
  exact h.congr rfl hnotes

namespace Ordered

/-- A task whose work is as promised is at work, or has come to the end of it. -/
theorem of_work {p : Program σ ρ} (hprog : sys.prog i = p.bind (d.tail i o))
    (h : d.Working l i o p sys.state)
    (hparked : ∀ j, j ≠ i → Parked d.note l j (sys.prog j) (d.notes sys.state)) :
    d.Ordered sys := by
  cases p with
  | done r =>
    obtain ⟨hJ, hpause⟩ := h.work
    refine .pausing (l ++ [(i, o, r)]) i ⟨hJ, ?_, o, r, ⟨d.pause o, d.pauses o, hprog⟩, ?_⟩ ?_
    · rw [hprog]
      exact throughout_bind hpause fun t ht => ⟨trivial, d.free _ _ ht (d.noted _ t).1⟩
    · rw [h.noted, entries_concat_self (i, o, r)]
    · intro j hj
      exact (hparked j hj).congr (entries_concat_ne (Ne.symm hj) l) rfl
  | act f next => exact .working l i o _ hprog rfl h hparked
  | look next => exact .working l i o _ hprog rfl h hparked
  | wait n next => exact .working l i o _ hprog rfl h hparked

/-- A task begins in a free state. -/
theorem of_free (hJ : d.J l sys.state) (hfree : d.Free sys.state) (hidle : (sys.prog i).idle = true)
    (hparked : ∀ j, Parked d.note l j (sys.prog j) (d.notes sys.state)) :
    d.Ordered { sys.goOn i sys.state (d.body i o) with op := Function.update sys.op i (some o) } :=
  .working l i o (d.work i o) (goOn_prog_self sys i sys.state _) (d.begins i o)
    ⟨d.quiet i o, d.works i o l _ hJ hfree, (hparked i).of_idle hidle⟩ fun j hj =>
      parked_goOn (hparked j) hj rfl

/-- A parked task moves. -/
theorem parked_step {j : ι} {s : σ} {p : Program σ Unit}
    (hi : Parked d.note l i (sys.prog i) (d.notes sys.state))
    (hm : Moves (sys.prog i) sys.state p s)
    (h : Parked d.note l j (sys.prog j) (d.notes sys.state)) :
    Parked d.note l j ((sys.goOn i s p).prog j) (d.notes s) := by
  obtain ⟨hself, -, hothers⟩ := hi.move hm
  by_cases hj : j = i
  · subst hj
    rw [goOn_prog_self]
    exact hself
  · exact parked_goOn h hj (hothers j hj)

theorem goOn_pausing {s : σ} {p : Program σ Unit} (hself : d.Pausing l i (sys.prog i) sys.state)
    (hparked : ∀ j, j ≠ i → Parked d.note l j (sys.prog j) (d.notes sys.state))
    (hm : Moves (sys.prog i) sys.state p s) : d.Ordered (sys.goOn i s p) := by
  have hwait := hself.wait.move d.rely hm
  have hall (j : ι) : Parked d.note l j ((sys.goOn i s p).prog j) (d.notes s) := by
    by_cases hj : j = i
    · exact parked_step hself.parked hm (hj ▸ hself.parked)
    · exact parked_step hself.parked hm (hparked j hj)
  obtain ⟨o, r, hlead, hnoted⟩ := hself.last
  rcases hlead.move_last hm with ⟨hidle, rfl⟩ | ⟨hlead', rfl⟩
  · have hR := (d.noted (i, o, r) sys.state).1
    exact .free l (d.rest _ _ _ hself.rest hR) (hwait.at_end hidle) hall
  · refine .pausing l i ?_ fun j _ => hall j
    rw [goOn_prog_self]
    exact ⟨hself.rest, hwait, o, r, hlead', hnoted⟩

theorem goOn_working {s : σ} {p : Program σ ρ} {q : Program σ Unit}
    (hprog : sys.prog i = p.bind (d.tail i o)) (hbusy : p.idle = false)
    (hself : d.Working l i o p sys.state)
    (hparked : ∀ j, j ≠ i → Parked d.note l j (sys.prog j) (d.notes sys.state))
    (hm : Moves (sys.prog i) sys.state q s) : d.Ordered (sys.goOn i s q) := by
  rw [hprog] at hm
  obtain ⟨p', hm', rfl⟩ := hm.of_bind hbusy
  obtain ⟨hquiet, hsame⟩ := hself.quiet.move hm'
  have hnotes : d.notes s = d.notes sys.state := by
    rcases hsame with hsame | rfl
    · exact hsame
    · rfl
  refine of_work (goOn_prog_self ..) ⟨hquiet, hself.work.move d.rely hm', ?_⟩ fun j hj =>
    parked_goOn (hparked j hj) hj (congrArg _ hnotes)
  rw [goOn_state, hnotes]
  exact hself.noted

variable [Fintype ι] {sys' : Tasks ι σ ω}

theorem task (hone : sys.OneRuns) (h : d.Ordered sys)
    (hs : step d.surroundings d.body sys (.task i) = some sys') : d.Ordered sys' := by
  have hblocked := others_blocked hone hs
  obtain ⟨q, s, hm, rfl, -⟩ := step_task hs
  cases h with
  | free l hJ hfree hparked =>
    have hR := ((hparked i).move hm).2.1
    exact .free l (d.rest _ _ _ hJ hR) (d.free _ _ hfree hR) fun j =>
      parked_step (hparked i) hm (hparked j)
  | pausing l k hself hparked =>
    by_cases hk : k = i
    · subst hk
      exact goOn_pausing hself hparked hm
    · have hi := hparked i (Ne.symm hk)
      obtain ⟨-, hR, hothers⟩ := hi.move hm
      refine .pausing l k ?_ fun j hj => parked_step hi hm (hparked j hj)
      rw [goOn_prog_ne sys s q hk]
      exact hself.beside hR (hblocked k hk) (hothers k hk)
  | working l k o p hprog hbusy hself hparked =>
    by_cases hk : k = i
    · subst hk
      exact goOn_working hprog hbusy hself hparked hm
    · have hi := hparked i (Ne.symm hk)
      obtain ⟨-, hR, hothers⟩ := hi.move hm
      have hrunning := hblocked k hk
      rw [hprog, (stand_bind hbusy).2.1] at hrunning
      refine .working l k o p ?_ hbusy (hself.beside hR hrunning hbusy (hothers k hk)) fun j hj =>
        parked_step hi hm (hparked j hj)
      rw [goOn_prog_ne sys s q hk]
      exact hprog

theorem call (h : d.Ordered sys) (hg : BeginsFree d.Free sys (.call i o))
    (hs : step d.surroundings d.body sys (.call i o) = some sys') : d.Ordered sys' := by
  obtain ⟨hready, hidle, rfl⟩ := step_call hs
  have hother {k : ι} (hk : (sys.prog k).idle = false) : k ≠ i := by
    rintro rfl
    rw [hidle] at hk
    cases hk
  cases h with
  | free l hJ hfree hparked => exact of_free hJ hfree hidle hparked
  | pausing l k hself hparked =>
    have hk := hother hself.not_idle
    refine of_free hself.rest (hg k hk hself.not_idle) hidle fun j => ?_
    by_cases hj : j = k
    · exact hj ▸ hself.parked
    · exact hparked j hj
  | working l k o' p hprog hbusy hself hparked =>
    obtain ⟨hbusy', hrunning, -⟩ := stand_bind (f := d.tail k o') hbusy
    rw [← hprog] at hbusy' hrunning
    have hfree := hg k (hother hbusy') hbusy'
    exact absurd hfree (hself.work.now d.rely hbusy (hrunning.symm.trans (hready k)))

theorem tick (h : d.Ordered sys) (hs : step d.surroundings d.body sys .tick = some sys') :
    d.Ordered sys' := by
  obtain ⟨hready, s, htick, rfl⟩ := step_tick hs
  obtain ⟨hR, hnotes⟩ := d.tick _ _ htick
  have hR₀ : d.R 0 sys.state s := d.rely.mono (Nat.zero_le 1) hR
  have hall (l : List (ι × ω × ρ)) (j : ι)
      (hj : Parked d.note l j (sys.prog j) (d.notes sys.state)) :
      Parked d.note l j (sys.prog j).elapse (d.notes s) :=
    hj.elapse.congr rfl (congrArg _ hnotes)
  cases h with
  | free l hJ hfree hparked =>
    exact .free l (d.rest _ _ _ hJ hR₀) (d.free _ _ hfree hR₀) fun j => hall l j (hparked j)
  | pausing l k hself hparked =>
    exact .pausing l k (hself.elapse hR (hready k) hnotes) fun j hj => hall l j (hparked j hj)
  | working l k o p hprog hbusy hself hparked =>
    obtain ⟨-, hrunning, helapse⟩ := stand_bind (f := d.tail k o) hbusy
    rw [← hprog] at hrunning
    refine .working l k o p.elapse ((congrArg elapse hprog).trans helapse)
      ((idle_elapse p).trans hbusy) ?_ fun j hj => hall l j (hparked j hj)
    exact hself.elapse hR (hrunning.symm.trans (hready k)) hbusy hnotes

theorem react (h : d.Ordered sys) (hs : step d.surroundings d.body sys .react = some sys') :
    d.Ordered sys' := by
  obtain ⟨hready, s, hreact, rfl⟩ := step_react hs
  obtain ⟨hR, hnotes⟩ := d.react _ _ hreact
  cases h with
  | free l hJ hfree hparked =>
    exact .free l (d.rest _ _ _ hJ hR) (d.free _ _ hfree hR) fun j =>
      (hparked j).congr rfl (congrArg _ hnotes)
  | pausing l k hself hparked =>
    exact .pausing l k (hself.beside hR (hready k) (congrArg _ hnotes)) fun j hj =>
      (hparked j hj).congr rfl (congrArg _ hnotes)
  | working l k o p hprog hbusy hself hparked =>
    have hrunning := (stand_bind (f := d.tail k o) hbusy).2.1
    rw [← hprog] at hrunning
    refine .working l k o p hprog hbusy ?_ fun j hj => (hparked j hj).congr rfl (congrArg _ hnotes)
    exact hself.beside hR (hrunning.symm.trans (hready k)) hbusy (congrArg _ hnotes)

omit [Fintype ι] in
/-- Once all tasks are idle, the state is what some list of operations comes to one after another,
and the entries in it are those that each task has noted. -/
theorem of_idle (h : d.Ordered sys) (hidle : ∀ i, (sys.prog i).idle = true) :
    ∃ l, d.J l sys.state ∧ ∀ i, entries i (d.notes sys.state) = entries i l := by
  cases h with
  | free l hJ hfree hparked => exact ⟨l, hJ, fun i => (hparked i).of_idle (hidle i)⟩
  | pausing l k hself hparked =>
    have hbusy := hself.not_idle
    rw [hidle k] at hbusy
    cases hbusy
  | working l k o p hprog hbusy hself hparked =>
    have hbusy' := (stand_bind (f := d.tail k o) hbusy).1
    rw [← hprog, hidle k] at hbusy'
    cases hbusy'

end Ordered

/-- In every run in which none begins while another task is in progress and the state is not free,
the operations come in an order. -/
theorem ordered_invariant [Fintype ι] {s₀ : σ} (hJ : d.J [] s₀) (hfree : d.Free s₀)
    (hnotes : d.notes s₀ = []) {es : List (TaskEvent ι ω)}
    (hg : Events.Guarded (step d.surroundings d.body) (BeginsFree d.Free) (start s₀) es)
    (hr : Events.run (step d.surroundings d.body) (start s₀) es = some sys) : d.Ordered sys := by
  have hstart : (start s₀ : Tasks ι σ ω).OneRuns ∧ d.Ordered (start s₀) :=
    ⟨Ready.oneRuns fun _ => rfl, .free [] hJ hfree fun i => .idle rfl (congrArg _ hnotes)⟩
  have hstep (sys : Tasks ι σ ω) (e : TaskEvent ι ω) (sys' : Tasks ι σ ω)
      (h : sys.OneRuns ∧ d.Ordered sys) (he : BeginsFree d.Free sys e)
      (hs : step d.surroundings d.body sys e = some sys') : sys'.OneRuns ∧ d.Ordered sys' := by
    refine ⟨oneRuns_step e h.1 hs, ?_⟩
    cases e with
    | call i o => exact h.2.call he hs
    | task i => exact h.2.task h.1 hs
    | tick => exact h.2.tick hs
    | react => exact h.2.react hs
  exact (Events.guarded_invariant hstep hstart hg hr).2

end Serial

end Tasks
