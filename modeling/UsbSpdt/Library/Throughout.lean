import UsbSpdt.Library.Program

/-!
# Every moment of a program

What holds of a program and its state at every moment, when the state changes by a rely relation
while the program is blocked. `R n s t` says that the others can take `s` to `t` in `n` ticks or
more.
-/

namespace Program

variable {σ α β : Type}

/-! ### Where a program stands -/

def idle : Program σ α → Bool
  | .done _ => true
  | _ => false

/-- A program that is neither blocked nor done keeps the processor. -/
def running : Program σ α → Bool
  | .act _ _ => true
  | .look _ => true
  | _ => false

/-- The program after a tick of the clock. -/
def elapse : Program σ α → Program σ α
  | .wait n next => .wait (n - 1) next
  | p => p

def NoWait : Program σ α → Prop
  | .done _ => True
  | .act _ next => NoWait next
  | .look next => ∀ s, NoWait (next s)
  | .wait _ _ => False

/-- The program is blocked, and will not block again. -/
def InLastWait (p : Program σ α) : Prop := ∃ n next, p = .wait n next ∧ NoWait next

/-- Whatever the state is, the last time that the program blocks is for `n` ticks. -/
def LastWait (n : Nat) : Program σ α → Prop
  | .done _ => False
  | .act _ next => LastWait n next
  | .look next => ∀ s, LastWait n (next s)
  | .wait m next => LastWait n next ∨ m = n ∧ NoWait next

/-- Everything that the program does to the state is of the kind `S`. -/
def Acts (S : σ → σ → Prop) : Program σ α → Prop
  | .done _ => True
  | .act f next => (∀ s, S s (f s)) ∧ Acts S next
  | .look next => ∀ s, Acts S (next s)
  | .wait _ next => Acts S next

theorem acts_modify {S : σ → σ → Prop} {f : σ → σ} (h : ∀ s, S s (f s)) :
    Acts S (modify f) := ⟨h, trivial⟩

theorem acts_bind {S : σ → σ → Prop} {p : Program σ α} {f : α → Program σ β} (hp : Acts S p)
    (hf : ∀ a, Acts S (f a)) : Acts S (p >>= f) := by
  change Acts S (p.bind f)
  induction p with
  | done a => exact hf a
  | act g next ih => exact ⟨hp.1, ih hp.2⟩
  | look next ih => exact fun s => ih s (hp s)
  | wait n next ih => exact ih hp

/-- A program all of whose changes are of a kind changes the state by that kind. -/
theorem Acts.run {S : σ → σ → Prop} (hrefl : ∀ s, S s s)
    (htrans : ∀ {s t u}, S s t → S t u → S s u) {p : Program σ α} (h : Acts S p) (s : σ) :
    S s (p.run s).2 := by
  induction p generalizing s with
  | done a => exact hrefl s
  | act f next ih => exact htrans (h.1 s) (ih h.2 (f s))
  | look next ih => exact ih s (h s) s
  | wait n next ih => exact ih h s

theorem lastWait_bind {n : Nat} {p : Program σ α} {f : α → Program σ β}
    (hf : ∀ a, LastWait n (f a)) : LastWait n (p >>= f) := by
  change LastWait n (p.bind f)
  induction p with
  | done a => exact hf a
  | act g next ih => exact ih
  | look next ih => exact fun s => ih s
  | wait m next ih => exact Or.inl ih

theorem noWait_bind {p : Program σ α} {f : α → Program σ β} (hp : NoWait p)
    (hf : ∀ a, NoWait (f a)) : NoWait (p >>= f) := by
  change NoWait (p.bind f)
  induction p with
  | done a => exact hf a
  | act g next ih => exact ih hp
  | look next ih => exact fun s => ih s (hp s)
  | wait n next => exact hp.elim

theorem not_noWait_bind (s : σ) {p : Program σ α} {f : α → Program σ β}
    (hf : ∀ a, ¬ NoWait (f a)) : ¬ NoWait (p.bind f) := by
  induction p with
  | done a => exact hf a
  | act g next ih => exact ih
  | look next ih => exact fun h => ih s (h s)
  | wait m next ih => exact id

/-- One step of a program that is not blocked or has waited long enough. -/
inductive Moves : Program σ α → σ → Program σ α → σ → Prop
  | act (f : σ → σ) (next : Program σ α) (s : σ) : Moves (.act f next) s next (f s)
  | look (next : σ → Program σ α) (s : σ) : Moves (.look next) s (next s) s
  | wait (next : Program σ α) (s : σ) : Moves (.wait 0 next) s next s

theorem Moves.not_idle {p p' : Program σ α} {s s' : σ} (h : Moves p s p' s') : p.idle = false := by
  cases h <;> rfl

/-- The program has `c` ahead of it, and before that does only steps of the kind `S`. -/
def InLead (S : σ → σ → Prop) (c p : Program σ α) : Prop :=
  ∃ q : Program σ Unit, Acts S q ∧ p = q.bind fun _ => c

theorem InLead.move {S : σ → σ → Prop} (hS : ∀ s, S s s) {c p p' : Program σ α} {s s' : σ}
    (h : InLead S c p) (hm : Moves p s p' s') : p = c ∨ InLead S c p' ∧ S s s' := by
  obtain ⟨q, hq, rfl⟩ := h
  cases q with
  | done a => exact Or.inl rfl
  | act f next =>
    cases hm
    exact Or.inr ⟨⟨next, hq.2, rfl⟩, hq.1 s⟩
  | look next =>
    cases hm
    exact Or.inr ⟨⟨next s, hq s, rfl⟩, hS s⟩
  | wait n next =>
    cases hm
    exact Or.inr ⟨⟨next, hq, rfl⟩, hS s⟩

theorem InLead.elapse {S : σ → σ → Prop} {c p : Program σ α} (h : InLead S c p)
    (hc : c.elapse = c) : InLead S c p.elapse := by
  obtain ⟨q, hq, rfl⟩ := h
  cases q with
  | done a => exact ⟨.done a, hq, hc⟩
  | act f next => exact ⟨.act f next, hq, rfl⟩
  | look next => exact ⟨.look next, hq, rfl⟩
  | wait n next => exact ⟨.wait (n - 1) next, hq, rfl⟩

theorem not_inLastWait_of_idle {p : Program σ α} (h : p.idle = true) : ¬ InLastWait p := by
  rintro ⟨n, next, rfl, -⟩
  cases h

/-- A lead before something that blocks is never in its last wait. -/
theorem InLead.not_inLastWait {S : σ → σ → Prop} {c p : Program σ α} (h : InLead S c p) (s : σ)
    (hc : ¬ NoWait c) (hrun : c.running = true) : ¬ InLastWait p := by
  rintro ⟨n, next, hp, hnext⟩
  obtain ⟨q, -, rfl⟩ := h
  cases q with
  | done a =>
    rw [show c = .wait n next from hp] at hrun
    cases hrun
  | act f next => cases hp
  | look next => cases hp
  | wait m rest =>
    cases hp
    exact not_noWait_bind s (fun _ => hc) hnext

/-! ### The rely relation -/

structure Rely (R : Nat → σ → σ → Prop) : Prop where
  refl : ∀ s, R 0 s s
  trans : ∀ {m n s t u}, R m s t → R n t u → R (m + n) s u
  mono : ∀ {m n s t}, m ≤ n → R n s t → R m s t

theorem Rely.still {R : Nat → σ → σ → Prop} (hR : Rely R) {n : Nat} {s t u : σ} (hst : R 0 s t)
    (htu : R n t u) : R n s u := by
  have h := hR.trans hst htu
  rwa [Nat.zero_add] at h

/-- `Φ` holds of what is left of the program and of the state at every moment before its end, and
`Q` at its end. -/
def Throughout (R : Nat → σ → σ → Prop) (Φ : Program σ α → σ → Prop) (Q : α → σ → Prop) :
    Program σ α → σ → Prop
  | .done a, s => Q a s
  | .act f next, s => Φ (.act f next) s ∧ Throughout R Φ Q next (f s)
  | .look next, s => Φ (.look next) s ∧ Throughout R Φ Q (next s) s
  | .wait n next, s => (∀ t, R 0 s t → ∀ m, Φ (.wait m next) t) ∧
      ∀ t, R n s t → Throughout R Φ Q next t

variable {R : Nat → σ → σ → Prop} {Φ : Program σ α → σ → Prop} {Q : α → σ → Prop}

theorem Throughout.mono {Q' : α → σ → Prop} {Φ' : Program σ α → σ → Prop} {p : Program σ α} {s : σ}
    (h : Throughout R Φ Q p s) (hΦ : ∀ p t, Φ p t → Φ' p t) (hQ : ∀ a t, Q a t → Q' a t) :
    Throughout R Φ' Q' p s := by
  induction p generalizing s with
  | done a => exact hQ a s h
  | act g next ih => exact ⟨hΦ _ _ h.1, ih h.2⟩
  | look next ih => exact ⟨hΦ _ _ h.1, ih s h.2⟩
  | wait n next ih => exact ⟨fun t ht m => hΦ _ _ (h.1 t ht m), fun t ht => ih (h.2 t ht)⟩

theorem exists_wait {p : Program σ α} (hblocked : p.running = false) (hidle : p.idle = false) :
    ∃ n next, p = .wait n next := by
  cases p with
  | done a => cases hidle
  | act g next => cases hblocked
  | look next => cases hblocked
  | wait n next => exact ⟨n, next, rfl⟩

/-- What others do while the program is blocked makes no difference. -/
theorem Throughout.beside {p : Program σ α} {s t : σ} (h : Throughout R Φ Q p s) (hR : Rely R)
    (hst : R 0 s t) (hblocked : p.running = false) (hidle : p.idle = false) :
    Throughout R Φ Q p t := by
  obtain ⟨n, next, rfl⟩ := exists_wait hblocked hidle
  exact ⟨fun u hu => h.1 u (hR.still hst hu), fun u hu => h.2 u (hR.still hst hu)⟩

theorem Throughout.elapse {p : Program σ α} {s t : σ} (h : Throughout R Φ Q p s) (hR : Rely R)
    (hst : R 1 s t) (hblocked : p.running = false) (hidle : p.idle = false) :
    Throughout R Φ Q p.elapse t := by
  obtain ⟨n, next, rfl⟩ := exists_wait hblocked hidle
  refine ⟨fun u hu => h.1 u (hR.still (hR.mono (Nat.zero_le 1) hst) hu), fun u hu => h.2 u ?_⟩
  exact hR.mono (by omega) (hR.trans hst hu)

theorem Throughout.move {p p' : Program σ α} {s s' : σ} (h : Throughout R Φ Q p s) (hR : Rely R)
    (hm : Moves p s p' s') : Throughout R Φ Q p' s' := by
  cases hm with
  | act f next => exact h.2
  | look next => exact h.2
  | wait next => exact h.2 s (hR.refl s)

theorem Throughout.now {p : Program σ α} {s : σ} (h : Throughout R Φ Q p s) (hR : Rely R)
    (hidle : p.idle = false) : Φ p s := by
  cases p with
  | done a => cases hidle
  | act g next => exact h.1
  | look next => exact h.1
  | wait n next => exact h.1 s (hR.refl s) n

/-- A program that never blocks reaches its end in one go. -/
theorem Throughout.run {p : Program σ α} {s : σ} (h : Throughout R Φ Q p s) (hp : NoWait p) :
    Q (p.run s).1 (p.run s).2 := by
  induction p generalizing s with
  | done a => exact h
  | act f next ih => exact ih h.2 hp
  | look next ih => exact ih s h.2 (hp s)
  | wait n next => exact hp.elim

theorem Throughout.at_end {J : σ → Prop} {p : Program σ α} {s : σ}
    (h : Throughout R Φ (fun _ => J) p s) (hidle : p.idle = true) : J s := by
  cases p with
  | done a => exact h
  | act g next => cases hidle
  | look next => cases hidle
  | wait n next => cases hidle

@[simp] theorem idle_elapse (p : Program σ α) : p.elapse.idle = p.idle := by
  cases p <;> rfl

@[simp] theorem running_elapse (p : Program σ α) : p.elapse.running = p.running := by
  cases p <;> rfl

/-! ### Keeping an invariant -/

/-- `I` holds at every moment of the program, provided that the others keep it. -/
def Keeps (I : σ → Prop) : Program σ α → σ → Prop
  | .done _, s => I s
  | .act f next, s => I s ∧ Keeps I next (f s)
  | .look next, s => I s ∧ Keeps I (next s) s
  | .wait _ next, s => I s ∧ ∀ t, I t → Keeps I next t

variable {I : σ → Prop}

theorem Keeps.now {p : Program σ α} {s : σ} (h : Keeps I p s) : I s := by
  cases p with
  | done a => exact h
  | act f next => exact h.1
  | look next => exact h.1
  | wait n next => exact h.1

theorem keeps_acts_bind {S : σ → σ → Prop} (hS : ∀ s t, S s t → I s → I t) {p : Program σ α}
    {f : α → Program σ β} (hp : Acts S p) (hf : ∀ a s, I s → Keeps I (f a) s) {s : σ} (hs : I s) :
    Keeps I (p >>= f) s := by
  change Keeps I (p.bind f) s
  induction p generalizing s with
  | done a => exact hf a s hs
  | act g next ih => exact ⟨hs, ih hp.2 (hS s _ (hp.1 s) hs)⟩
  | look next ih => exact ⟨hs, ih s (hp s) hs⟩
  | wait n next ih => exact ⟨hs, fun t ht => ih hp ht⟩

theorem Keeps.move {p p' : Program σ α} {s s' : σ} (h : Keeps I p s) (hm : Moves p s p' s') :
    Keeps I p' s' := by
  cases hm with
  | act f next => exact h.2
  | look next => exact h.2
  | wait next => exact h.2 s h.1

theorem Keeps.beside {p : Program σ α} {s t : σ} (h : Keeps I p s) (ht : I t)
    (hblocked : p.running = false) : Keeps I p t := by
  cases p with
  | done a => exact ht
  | act f next => cases hblocked
  | look next => cases hblocked
  | wait n next => exact ⟨ht, h.2⟩

theorem Keeps.elapse {p : Program σ α} {s : σ} (h : Keeps I p s) : Keeps I p.elapse s := by
  cases p <;> exact h

/-! ### A note at the end -/

/-- The program notes `x` in its last step, and leaves the notes alone before. -/
def NotesLast {ν : Type} (notes : σ → List ν) (x : ν) : Program σ Unit → Prop
  | .done _ => False
  | .act f next => (∀ s, notes (f s) = notes s) ∧ NotesLast notes x next ∨
      (∀ s, notes (f s) = notes s ++ [x]) ∧ next.idle = true
  | .look next => ∀ s, NotesLast notes x (next s)
  | .wait _ next => NotesLast notes x next

variable {ν : Type} {notes : σ → List ν} {x : ν}

theorem notesLast_bind {p : Program σ α} {f : α → Program σ Unit}
    (hp : Acts (fun s t => notes t = notes s) p) (hf : ∀ a, NotesLast notes x (f a)) :
    NotesLast notes x (p >>= f) := by
  change NotesLast notes x (p.bind f)
  induction p with
  | done a => exact hf a
  | act g next ih => exact Or.inl ⟨hp.1, ih hp.2⟩
  | look next ih => exact fun s => ih s (hp s)
  | wait n next ih => exact ih hp

theorem NotesLast.not_idle {p : Program σ Unit} (h : NotesLast notes x p) : p.idle = false := by
  cases p with
  | done a => exact h.elim
  | act f next => rfl
  | look next => rfl
  | wait n next => rfl

theorem NotesLast.elapse {p : Program σ Unit} (h : NotesLast notes x p) :
    NotesLast notes x p.elapse := by
  cases p <;> exact h

theorem NotesLast.move {p p' : Program σ Unit} {s s' : σ} (h : NotesLast notes x p)
    (hm : Moves p s p' s') : notes s' = notes s ∧ NotesLast notes x p' ∨
      notes s' = notes s ++ [x] ∧ p'.idle = true := by
  cases hm with
  | act f next =>
    rcases h with ⟨hkeep, hnext⟩ | ⟨hnote, hidle⟩
    · exact Or.inl ⟨hkeep s, hnext⟩
    · exact Or.inr ⟨hnote s, hidle⟩
  | look next => exact Or.inl ⟨rfl, h s⟩
  | wait next => exact Or.inl ⟨rfl, h⟩

end Program
