import UsbSpdt.Library.Events

/-!
# Cooperative task programs

A program changes a shared state, looks at it, or gives up the processor for a number of ticks.
`run` is its meaning when nothing else happens. `Safe` is its verification condition beside
surroundings that may act whenever the task is blocked: it asks for a property at every moment,
and `safe_invariant` carries it through every guarded run of the task.
-/

/-- A task over the shared state `σ` that ends with an `α`. -/
inductive Program (σ : Type) (α : Type) where
  | done (a : α)
  | act (f : σ → σ) (next : Program σ α)
  | look (next : σ → Program σ α)
  | wait (ticks : Nat) (next : Program σ α)

namespace Program

variable {σ α β : Type}

def bind : Program σ α → (α → Program σ β) → Program σ β
  | .done a, f => f a
  | .act g next, f => .act g (next.bind f)
  | .look next, f => .look fun s => (next s).bind f
  | .wait n next, f => .wait n (next.bind f)

instance : Monad (Program σ) where
  pure := .done
  bind := bind

theorem bind_assoc {γ : Type} (p : Program σ α) (f : α → Program σ β) (g : β → Program σ γ) :
    (p >>= f) >>= g = p >>= fun a => f a >>= g := by
  change (p.bind f).bind g = p.bind fun a => (f a).bind g
  induction p with
  | done a => rfl
  | act h next ih => rw [bind, bind, ih, bind]
  | look next ih => simp only [bind, ih]
  | wait n next ih => rw [bind, bind, ih, bind]

def modify (f : σ → σ) : Program σ Unit := .act f (.done ())

def get : Program σ σ := .look .done

def block (n : Nat) : Program σ Unit := .wait n (.done ())

def run : Program σ α → σ → α × σ
  | .done a, s => (a, s)
  | .act f next, s => next.run (f s)
  | .look next, s => (next s).run s
  | .wait _ next, s => next.run s

@[simp] theorem run_pure (a : α) (s : σ) : (pure a : Program σ α).run s = (a, s) := rfl

@[simp] theorem run_bind (p : Program σ α) (f : α → Program σ β) (s : σ) :
    (p >>= f).run s = (f (p.run s).1).run (p.run s).2 := by
  change (p.bind f).run s = _
  induction p generalizing s with
  | done a => rfl
  | act g next ih => exact ih (g s)
  | look next ih => exact ih s s
  | wait n next ih => exact ih s

@[simp] theorem run_modify (f : σ → σ) (s : σ) : (modify f).run s = ((), f s) := rfl

@[simp] theorem run_get (s : σ) : (get : Program σ σ).run s = (s, s) := rfl

/-! ### A program on a part of the state -/

/-- The program on a larger state, which it sees through `view` and changes by `put`. -/
def within {τ : Type} (view : τ → σ) (put : (σ → σ) → τ → τ) : Program σ α → Program τ α
  | .done a => .done a
  | .act f next => .act (put f) (next.within view put)
  | .look next => .look fun t => (next (view t)).within view put
  | .wait n next => .wait n (next.within view put)

theorem within_bind {τ : Type} (view : τ → σ) (put : (σ → σ) → τ → τ) (p : Program σ α)
    (f : α → Program σ β) : (p >>= f).within view put =
      p.within view put >>= fun a => (f a).within view put := by
  change (p.bind f).within view put = (p.within view put).bind fun a => (f a).within view put
  induction p with
  | done a => rfl
  | act g next ih => rw [bind, within, ih, within, bind]
  | look next ih => simp only [bind, within, ih]
  | wait n next ih => rw [bind, within, ih, within, bind]

/-- Where `view` and `put` are a lens, the program does on the part what it does alone. -/
theorem run_within {τ : Type} {view : τ → σ} {put : (σ → σ) → τ → τ}
    (hview : ∀ f t, view (put f t) = f (view t))
    (hput : ∀ s f t, put (fun _ => s) (put f t) = put (fun _ => s) t)
    (hself : ∀ t, put (fun _ => view t) t = t) (p : Program σ α) (t : τ) :
    (p.within view put).run t =
      ((p.run (view t)).1, put (fun _ => (p.run (view t)).2) t) := by
  induction p generalizing t with
  | done a => exact congrArg (Prod.mk a) (hself t).symm
  | act f next ih =>
    rw [within, run, run, ih, hview, hput]
  | look next ih => exact ih (view t) t
  | wait n next ih => exact ih t

/-- The next statement of a program, and what is left of it then. -/
def advance : Program σ α → σ → σ × Program σ α
  | .done a, s => (s, .done a)
  | .act f next, s => (f s, next)
  | .look next, s => (s, next s)
  | .wait _ next, s => (s, next)

theorem run_advance (p : Program σ α) (s : σ) : (p.advance s).2.run (p.advance s).1 = p.run s := by
  cases p <;> rfl

/-! ### Surroundings -/

/-- What can happen while the task is blocked: a tick of the clock, or a reaction of the
surroundings that takes no time. -/
structure Surroundings (σ : Type) where
  tick : σ → Option σ
  react : σ → Option σ

/-- `Drift E n s t`: the surroundings take `s` to `t` within exactly `n` ticks. -/
inductive Drift (E : Surroundings σ) : Nat → σ → σ → Prop
  | still (s : σ) : Drift E 0 s s
  | tick {n : Nat} {s s' t : σ} (h : E.tick s = some s') (rest : Drift E n s' t) :
      Drift E (n + 1) s t
  | react {n : Nat} {s s' t : σ} (h : E.react s = some s') (rest : Drift E n s' t) : Drift E n s t

theorem Drift.trans {E : Surroundings σ} {m n : Nat} {s t u : σ} (h : Drift E m s t)
    (h' : Drift E n t u) : Drift E (m + n) s u := by
  induction h with
  | still s => rwa [Nat.zero_add]
  | @tick m s s' t hs _ ih =>
    rw [Nat.add_right_comm]
    exact .tick hs (ih h')
  | react hs _ ih => exact .react hs (ih h')

/-- `I` holds at every moment of the program, whatever the surroundings do while it is blocked,
and `Q` holds at its end. -/
def Safe (E : Surroundings σ) (I : σ → Prop) : Program σ α → (α → σ → Prop) → σ → Prop
  | .done a, Q, s => I s ∧ Q a s
  | .act f next, Q, s => I s ∧ Safe E I next Q (f s)
  | .look next, Q, s => I s ∧ Safe E I (next s) Q s
  | .wait n next, Q, s => (∀ m ≤ n, ∀ t, Drift E m s t → I t) ∧
      ∀ t, Drift E n s t → Safe E I next Q t

variable {E : Surroundings σ} {I : σ → Prop}

theorem Safe.now {p : Program σ α} {Q : α → σ → Prop} {s : σ} (h : Safe E I p Q s) : I s := by
  cases p with
  | done a => exact h.1
  | act f next => exact h.1
  | look next => exact h.1
  | wait n next => exact h.1 0 (Nat.zero_le n) s (.still s)

theorem Safe.mono {p : Program σ α} {Q R : α → σ → Prop} {s : σ} (h : Safe E I p Q s)
    (hqr : ∀ a t, I t → Q a t → R a t) : Safe E I p R s := by
  induction p generalizing s with
  | done a => exact ⟨h.1, hqr a s h.1 h.2⟩
  | act f next ih => exact ⟨h.1, ih h.2⟩
  | look next ih => exact ⟨h.1, ih s h.2⟩
  | wait n next ih => exact ⟨h.1, fun t ht => ih (h.2 t ht)⟩

theorem safe_pure {a : α} {Q : α → σ → Prop} {s : σ} (hI : I s) (hQ : Q a s) :
    Safe E I (pure a : Program σ α) Q s := ⟨hI, hQ⟩

theorem safe_bind {p : Program σ α} {f : α → Program σ β} {Q : β → σ → Prop} {s : σ}
    (h : Safe E I p (fun a t => Safe E I (f a) Q t) s) : Safe E I (p >>= f) Q s := by
  change Safe E I (p.bind f) Q s
  induction p generalizing s with
  | done a => exact h.2
  | act g next ih => exact ⟨h.1, ih h.2⟩
  | look next ih => exact ⟨h.1, ih s h.2⟩
  | wait n next ih => exact ⟨h.1, fun t ht => ih (h.2 t ht)⟩

theorem safe_modify {f : σ → σ} {Q : Unit → σ → Prop} {s : σ} (hs : I s) (hf : I (f s))
    (hQ : Q () (f s)) : Safe E I (modify f) Q s := ⟨hs, hf, hQ⟩

theorem safe_modify_bind {f : σ → σ} {p : Unit → Program σ β} {Q : β → σ → Prop} {s : σ}
    (hs : I s) (hp : Safe E I (p ()) Q (f s)) : Safe E I (modify f >>= p) Q s := ⟨hs, hp⟩

theorem safe_get_bind {p : σ → Program σ β} {Q : β → σ → Prop} {s : σ}
    (hp : Safe E I (p s) Q s) : Safe E I (get >>= p) Q s := ⟨hp.now, hp⟩

theorem safe_block {n : Nat} {Q : Unit → σ → Prop} {s : σ}
    (hI : ∀ m ≤ n, ∀ t, Drift E m s t → I t) (hQ : ∀ t, Drift E n s t → Q () t) :
    Safe E I (block n) Q s :=
  ⟨hI, fun t ht => ⟨hI n (Nat.le_refl n) t ht, hQ t ht⟩⟩

/-! ### One task beside its surroundings -/

/-- What can happen next: the idle task takes up an operation, the task moves, time passes, or the
surroundings react. -/
inductive Event (ω : Type) where
  | call (o : ω)
  | task
  | tick
  | react

/-- One task executing operations. A task that is not blocked takes no time and cannot be
interrupted; the surroundings act only while it is blocked or has nothing to do. -/
def step {ω : Type} (E : Surroundings σ) (body : ω → Program σ Unit) :
    σ × Program σ Unit → Event ω → Option (σ × Program σ Unit)
  | (s, .done _), .call o => some (s, body o)
  | (s, .act f next), .task => some (f s, next)
  | (s, .look next), .task => some (s, next s)
  | (s, .wait 0 next), .task => some (s, next)
  | (s, .wait (n + 1) next), .tick => (E.tick s).map fun s' => (s', .wait n next)
  | (s, .done u), .tick => (E.tick s).map fun s' => (s', .done u)
  | (s, .wait n next), .react => (E.react s).map fun s' => (s', .wait n next)
  | (s, .done u), .react => (E.react s).map fun s' => (s', .done u)
  | _, _ => none

variable {ω : Type}

/-- The condition `G` is asked of an operation when the task takes it up. -/
def CallGuard (G : σ → ω → Prop) (sys : σ × Program σ Unit) : Event ω → Prop
  | .call o => G sys.1 o
  | _ => True

/-- What holds of the task between any two steps. -/
def Covered (E : Surroundings σ) (I J : σ → Prop) (sys : σ × Program σ Unit) : Prop :=
  Safe E I sys.2 (fun _ => J) sys.1

theorem covered_step {body : ω → Program σ Unit} {G : σ → ω → Prop} {J : σ → Prop}
    (hJ : ∀ s, J s → I s)
    (htick : ∀ s s', J s → E.tick s = some s' → J s')
    (hreact : ∀ s s', J s → E.react s = some s' → J s')
    (hcall : ∀ s o, J s → G s o → Safe E I (body o) (fun _ => J) s)
    (sys : σ × Program σ Unit) (e : Event ω) (sys' : σ × Program σ Unit)
    (hc : Covered E I J sys) (hg : CallGuard G sys e) (hs : step E body sys e = some sys') :
    Covered E I J sys' := by
  unfold step at hs
  split at hs
  case h_1 s u o =>
    obtain rfl := Option.some.inj hs
    exact hcall s o hc.2 hg
  case h_2 s f next =>
    obtain rfl := Option.some.inj hs
    exact hc.2
  case h_3 s next =>
    obtain rfl := Option.some.inj hs
    exact hc.2
  case h_4 s next =>
    obtain rfl := Option.some.inj hs
    exact hc.2 s (.still s)
  case h_5 s n next =>
    obtain ⟨s', he, rfl⟩ := Option.map_eq_some_iff.mp hs
    exact ⟨fun m hm t ht => hc.1 (m + 1) (Nat.succ_le_succ hm) t (.tick he ht),
      fun t ht => hc.2 t (.tick he ht)⟩
  case h_6 s u =>
    obtain ⟨s', he, rfl⟩ := Option.map_eq_some_iff.mp hs
    have hj := htick s s' hc.2 he
    exact ⟨hJ s' hj, hj⟩
  case h_7 s n next =>
    obtain ⟨s', he, rfl⟩ := Option.map_eq_some_iff.mp hs
    exact ⟨fun m hm t ht => hc.1 m hm t (.react he ht), fun t ht => hc.2 t (.react he ht)⟩
  case h_8 s u =>
    obtain ⟨s', he, rfl⟩ := Option.map_eq_some_iff.mp hs
    have hj := hreact s s' hc.2 he
    exact ⟨hJ s' hj, hj⟩
  case h_9 => cases hs

/-- Adequacy: when every operation is safe from every idle state that meets its guard, the
property holds at every moment of every run whose calls all meet the guard. -/
theorem safe_invariant {body : ω → Program σ Unit} {G : σ → ω → Prop} {J : σ → Prop}
    (hJ : ∀ s, J s → I s)
    (htick : ∀ s s', J s → E.tick s = some s' → J s')
    (hreact : ∀ s s', J s → E.react s = some s' → J s')
    (hcall : ∀ s o, J s → G s o → Safe E I (body o) (fun _ => J) s)
    {s₀ : σ} (h₀ : J s₀) {es : List (Event ω)} {sys : σ × Program σ Unit}
    (hg : Events.Guarded (step E body) (CallGuard G) (s₀, .done ()) es)
    (hr : Events.run (step E body) (s₀, .done ()) es = some sys) : I sys.1 := by
  have hc : Covered E I J sys :=
    Events.guarded_invariant (fun s e s' => covered_step hJ htick hreact hcall s e s')
      (show Covered E I J (s₀, .done ()) from ⟨hJ s₀ h₀, h₀⟩) hg hr
  exact Safe.now hc

end Program
