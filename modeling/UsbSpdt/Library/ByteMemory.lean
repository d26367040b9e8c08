import Mathlib.Algebra.Group.Nat.Defs
import Mathlib.Logic.Function.Basic

/-!
# Little-endian memory

Bytes by their addresses, where an address without a byte faults, and numbers of several bytes in
them. What a store leaves at an address it covers and at one that it does not.
-/

/-- The bytes of a memory; there is none at an address that faults. -/
abbrev ByteMemory := Nat → Option UInt8

namespace ByteMemory

/-- The number in the `n` bytes from `a` on. -/
def load (m : ByteMemory) : Nat → Nat → Option Nat
  | _, 0 => some 0
  | a, n + 1 => do
    let low ← m a
    let high ← load m (a + 1) n
    pure (low.toNat + 256 * high)

/-- `v` stored in the `n` bytes from `a` on. -/
def store (m : ByteMemory) : Nat → Nat → Nat → Option ByteMemory
  | _, 0, _ => some m
  | a, n + 1, v =>
    if (m a).isSome then
      store (Function.update m a (some (UInt8.ofNat v))) (a + 1) n (v / 256)
    else none

variable {m m' : ByteMemory}

/-- Only the bytes that are looked at matter. -/
theorem load_congr {a n : Nat} (h : ∀ i, a ≤ i → i < a + n → m i = m' i) :
    load m a n = load m' a n := by
  induction n generalizing a with
  | zero => rfl
  | succ n ih =>
    have hrest : load m (a + 1) n = load m' (a + 1) n :=
      ih fun i hle hlt => h i (by omega) (by omega)
    rw [load, load, h a (Nat.le_refl a) (by omega), hrest]

/-- A store changes nothing outside of its bytes. -/
theorem store_outside {a n v i : Nat} (h : store m a n v = some m') (hi : i < a ∨ a + n ≤ i) :
    m' i = m i := by
  induction n generalizing m a v with
  | zero =>
    rw [store, Option.some.injEq] at h
    rw [h]
  | succ n ih =>
    rw [store, Option.ite_none_right_eq_some] at h
    rw [ih h.2 (by omega), Function.update_of_ne (by omega)]

theorem load_store_disjoint {a n v b k : Nat} (h : store m a n v = some m')
    (hdisjoint : b + k ≤ a ∨ a + n ≤ b) : load m' b k = load m b k :=
  load_congr fun _ _ _ => store_outside h (by omega)

/-- What is stored is found again, as far as it fits. -/
theorem load_store {a n v : Nat} (h : store m a n v = some m') :
    load m' a n = some (v % 256 ^ n) := by
  induction n generalizing m a v with
  | zero => simp [load, Nat.mod_one]
  | succ n ih =>
    rw [store, Option.ite_none_right_eq_some] at h
    have hfirst : m' a = some (UInt8.ofNat v) := by
      rw [store_outside h.2 (Or.inl (Nat.lt_succ_self a)), Function.update_self]
    have hmod : v % 256 ^ (n + 1) = v % 256 + 256 * (v / 256 % 256 ^ n) := by
      rw [Nat.pow_succ', Nat.mod_mul]
    rw [load, hfirst, ih h.2, hmod]
    rfl

/-- No store takes a byte away or adds one. -/
theorem store_isSome {a n v : Nat} (h : store m a n v = some m') (i : Nat) :
    (m' i).isSome = (m i).isSome := by
  induction n generalizing m a v with
  | zero =>
    rw [store, Option.some.injEq] at h
    rw [h]
  | succ n ih =>
    rw [store, Option.ite_none_right_eq_some] at h
    rw [ih h.2]
    by_cases hi : i = a
    · rw [hi, Function.update_self, h.1, Option.isSome_some]
    · rw [Function.update_of_ne hi]

theorem load_isSome_iff {a n : Nat} :
    (load m a n).isSome ↔ ∀ i, a ≤ i → i < a + n → (m i).isSome := by
  induction n generalizing a with
  | zero => exact iff_of_true rfl fun i hle hlt => by omega
  | succ n ih =>
    have hload : (load m a (n + 1)).isSome ↔ (m a).isSome ∧ (load m (a + 1) n).isSome := by
      rw [load]
      cases m a <;> cases load m (a + 1) n <;> simp
    rw [hload, ih]
    constructor
    · intro h i hle hlt
      by_cases hi : i = a
      · rw [hi]
        exact h.1
      · exact h.2 i (by omega) (by omega)
    · intro h
      exact ⟨h a (Nat.le_refl a) (by omega), fun i hle hlt => h i (by omega) (by omega)⟩

/-- A store goes where a load does. -/
theorem exists_store {a n : Nat} (h : (load m a n).isSome) (v : Nat) :
    ∃ m', store m a n v = some m' := by
  rw [load_isSome_iff] at h
  induction n generalizing m a v with
  | zero => exact ⟨m, rfl⟩
  | succ n ih =>
    rw [store, if_pos (h a (Nat.le_refl a) (by omega))]
    apply ih
    intro i hle hlt
    rw [Function.update_of_ne (by omega)]
    exact h i (by omega) (by omega)

end ByteMemory
