import Mathlib.Logic.Function.Basic

/-!
# Stores with bounds

Programs over stores of `size` cells each, where an access at a higher index has no result. A
program that comes to a result has therefore stayed below `size` all the way.
-/

abbrev Stores (K V : Type) := K → Nat → V

/-- A program over the stores `K`. -/
def Bounded (K V : Type) (α : Type) := Stores K V → Option (α × Stores K V)

namespace Bounded

variable {K V α β : Type}

instance : Monad (Bounded K V) where
  pure a := fun m => some (a, m)
  bind p f := fun m => (p m).bind fun r => f r.1 r.2

/-- From the stores `m` the program comes to the result `a` and the stores `m'`. -/
def Runs (p : Bounded K V α) (m : Stores K V) (a : α) (m' : Stores K V) : Prop := p m = some (a, m')

theorem runs_pure (a : α) (m : Stores K V) : Runs (pure a) m a m := rfl

theorem Runs.bind {p : Bounded K V α} {f : α → Bounded K V β} {m m' m'' : Stores K V} {a : α}
    {b : β} (hp : Runs p m a m') (hf : Runs (f a) m' b m'') : Runs (p >>= f) m b m'' := by
  change (p m).bind _ = _
  rw [hp]
  exact hf

theorem runs_bind_iff {p : Bounded K V α} {f : α → Bounded K V β} {m m'' : Stores K V} {b : β} :
    Runs (p >>= f) m b m'' ↔ ∃ a m', Runs p m a m' ∧ Runs (f a) m' b m'' := by
  constructor
  · intro h
    obtain ⟨⟨a, m'⟩, hp, hf⟩ := Option.bind_eq_some_iff.mp h
    exact ⟨a, m', hp, hf⟩
  · rintro ⟨a, m', hp, hf⟩
    exact hp.bind hf

section Access

variable (size : Nat)

def load (k : K) (i : Nat) : Bounded K V V :=
  fun m => if i < size then some (m k i, m) else none

def store [DecidableEq K] (k : K) (i : Nat) (v : V) : Bounded K V Unit :=
  fun m =>
    if i < size then some ((), Function.update m k (Function.update (m k) i v)) else none

/-- The cells of `k` from `i` on, `n` of them. -/
def loads (k : K) (i : Nat) : Nat → Bounded K V (List V)
  | 0 => pure []
  | n + 1 => do
    let v ← load size k i
    let vs ← loads k (i + 1) n
    pure (v :: vs)

def stores [DecidableEq K] (k : K) (i : Nat) : List V → Bounded K V Unit
  | [] => pure ()
  | v :: vs => do
    store size k i v
    stores k (i + 1) vs

theorem runs_load (k : K) {i : Nat} (h : i < size) (m : Stores K V) :
    Runs (load size k i) m (m k i) m := if_pos h

theorem runs_loads (k : K) (i n : Nat) (h : i + n ≤ size) (m : Stores K V) :
    Runs (loads size k i n) m ((List.range n).map fun j => m k (i + j)) m := by
  induction n generalizing i with
  | zero => exact runs_pure _ _
  | succ n ih =>
    have hrest : ((List.range (n + 1)).map fun j => m k (i + j)) =
        m k i :: (List.range n).map fun j => m k (i + 1 + j) := by
      rw [List.range_succ_eq_map, List.map_cons, List.map_map]
      congr 1
      apply List.map_congr_left
      intro j _
      exact congrArg (m k) (by omega)
    rw [hrest]
    exact (runs_load size k (by omega) m).bind ((ih (i + 1) (by omega)).bind (runs_pure _ _))

theorem load_beyond (k : K) {i : Nat} (h : size ≤ i) (m : Stores K V) : load size k i m = none :=
  if_neg (Nat.not_lt.mpr h)

/-- Reading cells has a result only where all of them are inside. -/
theorem bound_of_loads {k : K} {i n : Nat} {m m' : Stores K V} {vs : List V} (hn : 0 < n)
    (h : Runs (loads size k i n) m vs m') : i + n ≤ size := by
  induction n generalizing i vs m' with
  | zero => omega
  | succ n ih =>
    by_cases hi : i < size
    · rcases Nat.eq_zero_or_pos n with rfl | hpos
      · omega
      · have hload := runs_load size k hi m
        change ((load size k i m).bind _) = _ at h
        rw [hload, Option.bind_some] at h
        obtain ⟨r, hr, _⟩ := Option.bind_eq_some_iff.mp h
        have := ih hpos hr
        omega
    · change ((load size k i m).bind _) = _ at h
      rw [load_beyond size k (Nat.le_of_not_lt hi) m] at h
      cases h

variable [DecidableEq K]

theorem runs_store (k : K) {i : Nat} (h : i < size) (v : V) (m : Stores K V) :
    Runs (store size k i v) m () (Function.update m k (Function.update (m k) i v)) := if_pos h

/-- A store whose cells from `i` on are `vs`. -/
def overwritten (s : Nat → V) (i : Nat) (vs : List V) : Nat → V :=
  fun j => if h : i ≤ j ∧ j < i + vs.length then vs[j - i] else s j

theorem overwritten_nil (s : Nat → V) (i : Nat) : overwritten s i [] = s := by
  funext j
  exact dif_neg (by rw [List.length_nil]; omega)

theorem overwritten_cons (s : Nat → V) (i : Nat) (v : V) (vs : List V) :
    overwritten (Function.update s i v) (i + 1) vs = overwritten s i (v :: vs) := by
  funext j
  simp only [overwritten, List.length_cons]
  by_cases hlt : j < i
  · rw [dif_neg (by omega), dif_neg (by omega), Function.update_of_ne (by omega)]
  by_cases heq : j = i
  · subst heq
    rw [dif_neg (by omega), dif_pos (by omega), Function.update_self]
    simp
  by_cases hin : j < i + 1 + vs.length
  · have hsub : j - i = j - (i + 1) + 1 := by omega
    rw [dif_pos ⟨by omega, hin⟩, dif_pos ⟨by omega, by omega⟩]
    simp only [hsub, List.getElem_cons_succ]
  · rw [dif_neg (by omega), dif_neg (by omega), Function.update_of_ne heq]

theorem runs_stores (k : K) (i : Nat) (vs : List V) (h : i + vs.length ≤ size) (m : Stores K V) :
    Runs (stores size k i vs) m () (Function.update m k (overwritten (m k) i vs)) := by
  induction vs generalizing i m with
  | nil =>
    rw [overwritten_nil, Function.update_eq_self]
    exact runs_pure _ _
  | cons v vs ih =>
    rw [List.length_cons] at h
    have hrest := ih (i + 1) (by omega) (Function.update m k (Function.update (m k) i v))
    rw [Function.update_self, Function.update_idem, overwritten_cons] at hrest
    exact (runs_store size k (by omega) v m).bind hrest

end Access

/-! ### Programs that only read -/

def Defined (p : Bounded K V α) (m : Stores K V) : Prop := (p m).isSome

theorem Runs.defined {p : Bounded K V α} {m m' : Stores K V} {a : α} (h : Runs p m a m') :
    Defined p m := by
  rw [Defined, h]
  rfl

theorem Defined.runs {p : Bounded K V α} {m : Stores K V} (h : Defined p m) :
    ∃ a m', Runs p m a m' := by
  obtain ⟨⟨a, m'⟩, hp⟩ := Option.isSome_iff_exists.mp h
  exact ⟨a, m', hp⟩

@[simp] theorem defined_pure (a : α) (m : Stores K V) : Defined (pure a : Bounded K V α) m := rfl

theorem Runs.defined_bind_iff {p : Bounded K V α} {m m' : Stores K V} {a : α} (h : Runs p m a m')
    (f : α → Bounded K V β) : Defined (p >>= f) m ↔ Defined (f a) m' := by
  change ((p m).bind _).isSome ↔ _
  rw [h]
  rfl

@[simp] theorem defined_load_bind_iff (size : Nat) (k : K) (i : Nat) (f : V → Bounded K V β)
    (m : Stores K V) : Defined (load size k i >>= f) m ↔ i < size ∧ Defined (f (m k i)) m := by
  by_cases hi : i < size
  · rw [(runs_load size k hi m).defined_bind_iff f]
    exact (and_iff_right hi).symm
  · refine iff_of_false ?_ fun h => hi h.1
    change ¬ ((load size k i m).bind _).isSome
    rw [load_beyond size k (Nat.le_of_not_lt hi) m]
    exact Bool.false_ne_true

theorem defined_bind_total_iff {p : Bounded K V α} {f : α → Bounded K V β} (m : Stores K V)
    (hf : ∀ a m', Defined (f a) m') : Defined (p >>= f) m ↔ Defined p m := by
  cases hp : p m with
  | none =>
    refine iff_of_false ?_ ?_
    · change ¬ ((p m).bind _).isSome
      rw [hp]
      exact Bool.false_ne_true
    · rw [Defined, hp]
      exact Bool.false_ne_true
  | some r =>
    have hrun : Runs p m r.1 r.2 := hp
    rw [hrun.defined_bind_iff]
    exact iff_of_true (hf r.1 r.2) hrun.defined

@[simp] theorem defined_ite_iff {c : Prop} [Decidable c] (p q : Bounded K V α) (m : Stores K V) :
    Defined (if c then p else q) m ↔ (c → Defined p m) ∧ (¬ c → Defined q m) := by
  by_cases h : c <;> simp [h]

/-- A program, given its bound, that leaves the stores alone and does within a larger bound what it
does within a smaller one. -/
def ReadsOnly (p : Nat → Bounded K V α) : Prop :=
  ∀ ⦃size size' : Nat⦄ ⦃m m' : Stores K V⦄ ⦃a : α⦄, size ≤ size' → Runs (p size) m a m' →
    m' = m ∧ Runs (p size') m a m

theorem readsOnly_pure (a : α) : ReadsOnly fun _ => (pure a : Bounded K V α) := by
  intro size size' m m' b _ h
  obtain ⟨rfl, rfl⟩ : a = b ∧ m = m' := by simpa [Runs, pure] using h
  exact ⟨rfl, rfl⟩

theorem readsOnly_load (k : K) (i : Nat) :
    ReadsOnly fun size => (load size k i : Bounded K V V) := by
  intro size size' m m' v hle h
  change load size k i m = some (v, m') at h
  by_cases hi : i < size
  · obtain ⟨rfl, rfl⟩ : m k i = v ∧ m = m' := by
      simpa using (runs_load size k hi m).symm.trans h
    exact ⟨rfl, runs_load size' k (Nat.lt_of_lt_of_le hi hle) m⟩
  · rw [load_beyond size k (Nat.le_of_not_lt hi) m] at h
    cases h

theorem ReadsOnly.bind {p : Nat → Bounded K V α} {f : Nat → α → Bounded K V β} (hp : ReadsOnly p)
    (hf : ∀ a, ReadsOnly fun size => f size a) : ReadsOnly fun size => p size >>= f size := by
  intro size size' m m' b hle h
  obtain ⟨a, m'', hpa, hfb⟩ := runs_bind_iff.mp h
  obtain ⟨rfl, hpa⟩ := hp hle hpa
  obtain ⟨rfl, hfb⟩ := hf a hle hfb
  exact ⟨rfl, hpa.bind hfb⟩

theorem ReadsOnly.ite {c : Prop} [Decidable c] {p q : Nat → Bounded K V α} (hp : ReadsOnly p)
    (hq : ReadsOnly q) : ReadsOnly fun size => if c then p size else q size := by
  by_cases h : c
  · simpa only [if_pos h] using hp
  · simpa only [if_neg h] using hq

end Bounded
