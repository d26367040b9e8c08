import UsbSpdt.Library.Service

/-!
# Dialogues with a server

A client that asks one thing after another, each depending on the answers so far, and may die on
the way. `run` is its meaning beside a server that answers at once; `Ensures` says that it ends
well there.
-/

/-- A client that asks `Q`s, is answered with `R`s and ends with an `α`. -/
inductive Dialogue (Q R : Type) (α : Type) where
  | done (a : α)
  | die
  | ask (q : Q) (next : R → Dialogue Q R α)

namespace Dialogue

variable {Q R S α β : Type}

def bind : Dialogue Q R α → (α → Dialogue Q R β) → Dialogue Q R β
  | .done a, f => f a
  | .die, _ => .die
  | .ask q next, f => .ask q fun r => (next r).bind f

instance : Monad (Dialogue Q R) where
  pure := .done
  bind := bind

def request (q : Q) : Dialogue Q R R := .ask q .done

/-- The result of the client and the state of the server at the end, unless the client dies. -/
def run (serve : S → Q → R × S) : Dialogue Q R α → S → Option (α × S)
  | .done a, s => some (a, s)
  | .die, _ => none
  | .ask q next, s => (next (serve s q).1).run serve (serve s q).2

/-- The client, with `none` in place of dying. -/
def attempt : Dialogue Q R α → Dialogue Q R (Option α)
  | .done a => .done (some a)
  | .die => .done none
  | .ask q next => .ask q fun r => (next r).attempt

def Over (p : Dialogue Q R α) : Prop := ∀ q next, p ≠ .ask q next

theorem over_done (a : α) : Over (.done a : Dialogue Q R α) := by
  intro q next h
  cases h

theorem over_die : Over (.die : Dialogue Q R α) := by
  intro q next h
  cases h

variable {serve : S → Q → R × S}

@[simp] theorem run_pure (a : α) (s : S) :
    (pure a : Dialogue Q R α).run serve s = some (a, s) := rfl

@[simp] theorem run_request (q : Q) (s : S) :
    (request q : Dialogue Q R R).run serve s = some ((serve s q).1, (serve s q).2) := rfl

theorem run_bind (p : Dialogue Q R α) (f : α → Dialogue Q R β) (s : S) :
    (p >>= f).run serve s = (p.run serve s).bind fun r => (f r.1).run serve r.2 := by
  change (p.bind f).run serve s = _
  induction p generalizing s with
  | done a => rfl
  | die => rfl
  | ask q next ih => exact ih (serve s q).1 (serve s q).2

/-- The client ends, and `P` holds of its result and the server. -/
def Ensures (serve : S → Q → R × S) (p : Dialogue Q R α) (s : S) (P : α → S → Prop) : Prop :=
  ∃ a t, p.run serve s = some (a, t) ∧ P a t

theorem ensures_pure {P : α → S → Prop} {a : α} {s : S} (h : P a s) :
    Ensures serve (pure a) s P := ⟨a, s, rfl, h⟩

theorem ensures_bind {p : Dialogue Q R α} {f : α → Dialogue Q R β} {P : β → S → Prop} {s : S}
    (h : Ensures serve p s fun a t => Ensures serve (f a) t P) : Ensures serve (p >>= f) s P := by
  obtain ⟨a, t, hp, b, u, hf, hP⟩ := h
  exact ⟨b, u, by rw [run_bind, hp, Option.bind_some, hf], hP⟩

/-- The first part ends with a result that is known beforehand. -/
theorem ensures_bind_eq {p : Dialogue Q R α} {f : α → Dialogue Q R β} {P : β → S → Prop}
    {K : S → Prop} {s : S} {v : α} (hp : Ensures serve p s fun a t => a = v ∧ K t)
    (hf : ∀ t, K t → Ensures serve (f v) t P) : Ensures serve (p >>= f) s P := by
  obtain ⟨a, t, hrun, rfl, hK⟩ := hp
  exact ensures_bind ⟨a, t, hrun, hf t hK⟩

theorem Ensures.mono {p : Dialogue Q R α} {s : S} {P P' : α → S → Prop}
    (h : Ensures serve p s P) (himp : ∀ a t, P a t → P' a t) : Ensures serve p s P' := by
  obtain ⟨a, t, hp, hP⟩ := h
  exact ⟨a, t, hp, himp a t hP⟩

/-- One dialogue for each operation, one after another. -/
def each {ω ρ : Type} (calls : ω → Dialogue Q R ρ) : List ω → Dialogue Q R (List ρ)
  | [] => pure []
  | o :: os => do
    let r ← calls o
    let rs ← each calls os
    pure (r :: rs)

/-- Dialogues that each do what a service does with one operation do together what it does with
all of them. -/
theorem ensures_each {τ ω ρ : Type} {calls : ω → Dialogue Q R ρ} {spec : τ → ω → ρ × τ}
    {Rel : S → τ → Prop}
    (hcall : ∀ s t o, Rel s t →
      Ensures serve (calls o) s fun r s' => r = (spec t o).1 ∧ Rel s' (spec t o).2)
    {s : S} {t : τ} (h : Rel s t) (os : List ω) :
    Ensures serve (each calls os) s fun rs s' =>
      rs = (Service.run spec t os).1 ∧ Rel s' (Service.run spec t os).2 := by
  induction os generalizing s t with
  | nil => exact ensures_pure ⟨rfl, h⟩
  | cons o os ih =>
    apply ensures_bind_eq (hcall s t o h)
    intro s' hs'
    apply ensures_bind_eq (ih hs')
    intro s'' hs''
    exact ensures_pure ⟨rfl, hs''⟩

theorem run_invariant {Inv : S → Prop} (hserve : ∀ s q, Inv s → Inv (serve s q).2)
    {p : Dialogue Q R α} {s t : S} {a : α} (hs : Inv s) (hrun : p.run serve s = some (a, t)) :
    Inv t := by
  induction p generalizing s with
  | done b =>
    obtain ⟨-, rfl⟩ : b = a ∧ s = t := by simpa [run] using hrun
    exact hs
  | die => cases hrun
  | ask q next ih => exact ih _ (hserve s q hs) hrun

theorem Ensures.unique {p : Dialogue Q R α} {s t : S} {a : α} {P : α → S → Prop}
    (h : Ensures serve p s P) (hrun : p.run serve s = some (a, t)) : P a t := by
  obtain ⟨a', t', hp, hP⟩ := h
  obtain ⟨rfl, rfl⟩ : a' = a ∧ t' = t := by simpa [hp] using hrun
  exact hP

/-! ### Dialogues that are cut off -/

/-- The server after at most `n` questions. -/
def cut (serve : S → Q → R × S) : Nat → Dialogue Q R α → S → S
  | 0, _, s => s
  | _ + 1, .done _, s => s
  | _ + 1, .die, s => s
  | n + 1, .ask q next, s => cut serve n (next (serve s q).1) (serve s q).2

variable {τ ω : Type}

/-- The client asks one question for each of the operations, and each has the effect of its
operation on what the server stands for. -/
def Performs (serve : S → Q → R × S) (Rel : S → τ → Prop) (step : τ → ω → τ) :
    List ω → S → τ → Dialogue Q R α → (α → S → Prop) → Prop
  | [], s, t, p, P => Rel s t ∧ ∃ a, p = .done a ∧ P a s
  | o :: os, s, t, p, P => Rel s t ∧ ∃ q next, p = .ask q next ∧
      Performs serve Rel step os (serve s q).2 (step t o) (next (serve s q).1) P

variable {Rel : S → τ → Prop} {step : τ → ω → τ}

theorem performs_pure {s : S} {t : τ} {a : α} {P : α → S → Prop} (h : Rel s t) (hP : P a s) :
    Performs serve Rel step [] s t (pure a) P := ⟨h, a, rfl, hP⟩

theorem Performs.now {os : List ω} {s : S} {t : τ} {p : Dialogue Q R α} {P : α → S → Prop}
    (h : Performs serve Rel step os s t p P) : Rel s t := by
  cases os with
  | nil => exact h.1
  | cons o os => exact h.1

theorem performs_bind {os os' : List ω} {s : S} {t : τ} {p : Dialogue Q R α}
    {f : α → Dialogue Q R β} {K : α → S → Prop} {P : β → S → Prop}
    (hp : Performs serve Rel step os s t p K)
    (hf : ∀ a s', K a s' → Rel s' (os.foldl step t) →
      Performs serve Rel step os' s' (os.foldl step t) (f a) P) :
    Performs serve Rel step (os ++ os') s t (p >>= f) P := by
  induction os generalizing s t p with
  | nil =>
    obtain ⟨hrel, a, rfl, hK⟩ := hp
    exact hf a s hK hrel
  | cons o os ih =>
    obtain ⟨hrel, q, next, rfl, hnext⟩ := hp
    exact ⟨hrel, q, _, rfl, ih hnext hf⟩

/-- A client that asks one question and then something else. -/
theorem performs_ask {o : ω} {os : List ω} {s s' : S} {t : τ} {q : Q} {g : R → Dialogue Q R α}
    {a : α} {f : α → Dialogue Q R β} {P : β → S → Prop} (h : Rel s t)
    (hover : Over (g (serve s q).1)) (hrun : (request q >>= g).run serve s = some (a, s'))
    (hf : Performs serve Rel step os s' (step t o) (f a) P) :
    Performs serve Rel step (o :: os) s t (request q >>= g >>= f) P := by
  refine ⟨h, q, _, rfl, ?_⟩
  change Performs serve Rel step os (serve s q).2 (step t o) ((g (serve s q).1).bind f) P
  rw [run_bind, run_request, Option.bind_some] at hrun
  cases hg : g (serve s q).1 with
  | done b =>
    rw [hg] at hrun
    obtain ⟨rfl, rfl⟩ : b = a ∧ (serve s q).2 = s' := by simpa [run] using hrun
    exact hf
  | die =>
    rw [hg] at hrun
    cases hrun
  | ask q' next => exact absurd hg (hover q' next)

/-- Cut off after `n` questions, the first `n` operations have been performed. -/
theorem Performs.cut {os : List ω} {s : S} {t : τ} {p : Dialogue Q R α} {P : α → S → Prop}
    (h : Performs serve Rel step os s t p P) (n : Nat) :
    Rel (cut serve n p s) ((os.take n).foldl step t) := by
  induction n generalizing os s t p with
  | zero => exact h.now
  | succ n ih =>
    cases os with
    | nil =>
      obtain ⟨hrel, a, rfl, -⟩ := h
      exact hrel
    | cons o os =>
      obtain ⟨-, q, next, rfl, hnext⟩ := h
      exact ih hnext

/-- The same within the first part of a longer dialogue. -/
theorem Performs.cut_bind {os : List ω} {s : S} {t : τ} {p : Dialogue Q R α}
    {P : α → S → Prop} (h : Performs serve Rel step os s t p P) (f : α → Dialogue Q R β) {n : Nat}
    (hn : n ≤ os.length) :
    Rel (Dialogue.cut serve n (p >>= f) s) ((os.take n).foldl step t) := by
  induction n generalizing os s t p with
  | zero => exact h.now
  | succ n ih =>
    cases os with
    | nil => exact absurd hn (Nat.not_succ_le_zero n)
    | cons o os =>
      obtain ⟨-, q, next, rfl, hnext⟩ := h
      exact ih hnext (Nat.le_of_succ_le_succ hn)

/-- Left to its end, all of them have been. -/
theorem Performs.ensures {os : List ω} {s : S} {t : τ} {p : Dialogue Q R α} {P : α → S → Prop}
    (h : Performs serve Rel step os s t p P) :
    Ensures serve p s fun a s' => P a s' ∧ Rel s' (os.foldl step t) := by
  induction os generalizing s t p with
  | nil =>
    obtain ⟨hrel, a, rfl, hP⟩ := h
    exact ⟨a, s, rfl, hP, hrel⟩
  | cons o os ih =>
    obtain ⟨-, q, next, rfl, hnext⟩ := h
    have hend := ih hnext
    exact hend

/-! ### Questions of one kind -/

/-- Every question, whatever the answers, is of the kind `A`. -/
def Asks (A : Q → Prop) : Dialogue Q R α → Prop
  | .done _ => True
  | .die => True
  | .ask q next => A q ∧ ∀ r, Asks A (next r)

theorem asks_bind {A : Q → Prop} {p : Dialogue Q R α} {f : α → Dialogue Q R β} (hp : Asks A p)
    (hf : ∀ a, Asks A (f a)) : Asks A (p >>= f) := by
  change Asks A (p.bind f)
  induction p with
  | done a => exact hf a
  | die => trivial
  | ask q next ih => exact ⟨hp.1, fun r => ih r (hp.2 r)⟩

/-- An invariant that questions of one kind keep. -/
theorem Asks.run {A : Q → Prop} {Inv : S → Prop} (hserve : ∀ s q, A q → Inv s → Inv (serve s q).2)
    {p : Dialogue Q R α} (hp : Asks A p) {s t : S} {a : α} (hs : Inv s)
    (hrun : p.run serve s = some (a, t)) : Inv t := by
  induction p generalizing s with
  | done b =>
    obtain ⟨-, rfl⟩ : b = a ∧ s = t := by simpa [Dialogue.run] using hrun
    exact hs
  | die => cases hrun
  | ask q next ih => exact ih _ (hp.2 _) (hserve s q hp.1 hs) hrun

/-- A part of the server that answers as the whole does. -/
theorem run_view {S' : Type} {serve' : S' → Q → R × S'} {view : S → S'}
    (hanswer : ∀ s q, (serve s q).1 = (serve' (view s) q).1)
    (hview : ∀ s q, view (serve s q).2 = (serve' (view s) q).2) (p : Dialogue Q R α) (s : S) :
    (p.run serve s).map (Prod.map id view) = p.run serve' (view s) := by
  induction p generalizing s with
  | done a => rfl
  | die => rfl
  | ask q next ih =>
    rw [run, run, ih, hanswer, hview]

end Dialogue
