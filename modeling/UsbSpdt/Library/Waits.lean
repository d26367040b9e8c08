import UsbSpdt.Library.Throughout

/-!
# Time in a program

A program whose state changes with time while it waits, and with nothing else: what it comes to, how
long each wait is and the state that it begins with.
-/

namespace Program

variable {σ α β : Type}

/-- `pass n s` is what `n` ticks make of the state. -/
def timed (pass : Nat → σ → σ) : Program σ α → σ → α × σ
  | .done a, s => (a, s)
  | .act f next, s => next.timed pass (f s)
  | .look next, s => (next s).timed pass s
  | .wait n next, s => next.timed pass (pass n s)

def waits (pass : Nat → σ → σ) : Program σ α → σ → List (Nat × σ)
  | .done _, _ => []
  | .act f next, s => next.waits pass (f s)
  | .look next, s => (next s).waits pass s
  | .wait n next, s => (n, s) :: next.waits pass (pass n s)

variable (pass : Nat → σ → σ)

@[simp] theorem timed_pure (a : α) (s : σ) : (pure a : Program σ α).timed pass s = (a, s) := rfl

@[simp] theorem timed_modify (f : σ → σ) (s : σ) : (modify f).timed pass s = ((), f s) := rfl

@[simp] theorem timed_get (s : σ) : (get : Program σ σ).timed pass s = (s, s) := rfl

@[simp] theorem timed_block (n : Nat) (s : σ) : (block n).timed pass s = ((), pass n s) := rfl

@[simp] theorem timed_bind (p : Program σ α) (f : α → Program σ β) (s : σ) :
    (p >>= f).timed pass s = (f (p.timed pass s).1).timed pass (p.timed pass s).2 := by
  change (p.bind f).timed pass s = _
  induction p generalizing s with
  | done a => rfl
  | act g next ih => exact ih (g s)
  | look next ih => exact ih s s
  | wait n next ih => exact ih (pass n s)

@[simp] theorem waits_pure (a : α) (s : σ) : (pure a : Program σ α).waits pass s = [] := rfl

@[simp] theorem waits_block (n : Nat) (s : σ) : (block n).waits pass s = [(n, s)] := rfl

@[simp] theorem waits_bind (p : Program σ α) (f : α → Program σ β) (s : σ) :
    (p >>= f).waits pass s =
      p.waits pass s ++ (f (p.timed pass s).1).waits pass (p.timed pass s).2 := by
  change (p.bind f).waits pass s = _
  induction p generalizing s with
  | done a => rfl
  | act g next ih => exact ih (g s)
  | look next ih => exact ih s s
  | wait n next ih => exact congrArg (List.cons (n, s)) (ih (pass n s))

/-- A program that does not wait takes no time. -/
theorem NoWait.timed {p : Program σ α} (h : NoWait p) (s : σ) :
    p.timed pass s = p.run s ∧ p.waits pass s = [] := by
  induction p generalizing s with
  | done a => exact ⟨rfl, rfl⟩
  | act f next ih => exact ih h (f s)
  | look next ih => exact ih s (h s) s
  | wait n next => exact h.elim

variable {pass}

section Kinds

variable {S : σ → σ → Prop} (hrefl : ∀ s, S s s) (htrans : ∀ {s t u}, S s t → S t u → S s u)
  (hpass : ∀ n s, S s (pass n s))
include hrefl htrans hpass

/-- If time makes changes of the same kind, a program changes the state by that kind. -/
theorem Acts.timed {p : Program σ α} (h : Acts S p) (s : σ) : S s (p.timed pass s).2 := by
  induction p generalizing s with
  | done a => exact hrefl s
  | act f next ih => exact htrans (h.1 s) (ih h.2 (f s))
  | look next ih => exact ih s (h s) s
  | wait n next ih => exact htrans (hpass n s) (ih h (pass n s))

/-- So does it until it waits. -/
theorem Acts.waits {p : Program σ α} (h : Acts S p) {s : σ} : ∀ x ∈ p.waits pass s, S s x.2 := by
  induction p generalizing s with
  | done a => exact fun x hx => nomatch hx
  | act f next ih => exact fun x hx => htrans (h.1 s) (ih h.2 x hx)
  | look next ih => exact fun x hx => ih s (h s) x hx
  | wait n next ih =>
    intro x hx
    obtain rfl | hx := List.mem_cons.mp hx
    · exact hrefl s
    · exact htrans (hpass n s) (ih h x hx)

omit hpass in
/-- Time plays no part before the first wait. -/
theorem Acts.first_wait {p : Program σ α} (h : Acts S p) {s : σ} {x : Nat × σ}
    (hx : (p.waits pass s).head? = some x) : S s x.2 := by
  induction p generalizing s with
  | done a => cases hx
  | act f next ih => exact htrans (h.1 s) (ih h.2 hx)
  | look next ih => exact ih s (h s) hx
  | wait n next =>
    obtain rfl := Option.some.inj hx
    exact hrefl s

end Kinds

/-- What neither the actions nor time change is the same at the end and in every wait. -/
theorem Acts.keeps {γ : Type} {f : σ → γ} {p : Program σ α} (h : Acts (fun s t => f t = f s) p)
    (hpass : ∀ n s, f (pass n s) = f s) (s : σ) :
    f (p.timed pass s).2 = f s ∧ ∀ x ∈ p.waits pass s, f x.2 = f s :=
  ⟨Acts.timed (S := fun s t => f t = f s) (fun _ => rfl) (fun hst htu => htu.trans hst) hpass h s,
    Acts.waits (S := fun s t => f t = f s) (fun _ => rfl) (fun hst htu => htu.trans hst) hpass h⟩

/-- What the actions do not change, time changes for as long as the program waits. -/
theorem Acts.elapses {γ : Type} {f : σ → γ} {lapse : Nat → γ → γ} {p : Program σ α}
    (h : Acts (fun s t => f t = f s) p) (hpass : ∀ n s, f (pass n s) = lapse n (f s)) (s : σ) :
    f (p.timed pass s).2 = ((p.waits pass s).map Prod.fst).foldl (fun g n => lapse n g) (f s) := by
  induction p generalizing s with
  | done a => rfl
  | act g next ih =>
    have hnext := ih h.2 (g s)
    rw [show f (g s) = f s from h.1 s] at hnext
    exact hnext
  | look next ih => exact ih s (h s) s
  | wait n next ih =>
    have hnext := ih h (pass n s)
    rw [hpass] at hnext
    exact hnext

/-- A program comes to its end, if others may do what time does. -/
theorem Throughout.timed {R : Nat → σ → σ → Prop} (hR : ∀ n s, R n s (pass n s))
    {Φ : Program σ α → σ → Prop} {Q : α → σ → Prop} {p : Program σ α} {s : σ}
    (h : Throughout R Φ Q p s) : Q (p.timed pass s).1 (p.timed pass s).2 := by
  induction p generalizing s with
  | done a => exact h
  | act f next ih => exact ih h.2
  | look next ih => exact ih s h.2
  | wait n next ih => exact ih (h.2 (pass n s) (hR n s))

end Program
