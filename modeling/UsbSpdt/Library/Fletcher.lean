import Mathlib.Algebra.BigOperators.Fin
import Mathlib.Data.Nat.ModEq
import Mathlib.Tactic.Ring

/-!
# Fletcher checksums

Two running sums modulo `m`: the first of the bytes, the second of the first. Both have a closed
form, in which the bytes of the second are weighted by their distance from the end.
-/

namespace Fletcher

def step (m : Nat) (s : Nat × Nat) (x : Nat) : Nat × Nat :=
  ((s.1 + x) % m, (s.2 + (s.1 + x) % m) % m)

def sums (m : Nat) (xs : List Nat) : Nat × Nat := xs.foldl (step m) (0, 0)

/-- Each element times the number of elements from it on. -/
def weighted : List Nat → Nat
  | [] => 0
  | x :: xs => (xs.length + 1) * x + weighted xs

theorem weighted_eq_sum (xs : List Nat) :
    weighted xs = ∑ i : Fin xs.length, (xs.length - i) * xs[i] := by
  induction xs with
  | nil => rfl
  | cons x xs ih =>
    have hshift (i : Fin xs.length) :
        (xs.length + 1 - i.succ) * (x :: xs)[i.succ] = (xs.length - i) * xs[i] := by
      rw [Fin.val_succ, Nat.add_sub_add_right]
      rfl
    have hsum := Fin.sum_univ_succ fun i : Fin (xs.length + 1) =>
      (xs.length + 1 - i) * (x :: xs)[i]
    simp only [hshift] at hsum
    rw [weighted, ih]
    exact hsum.symm

theorem weighted_append (xs ys : List Nat) :
    weighted (xs ++ ys) = weighted xs + ys.length * xs.sum + weighted ys := by
  induction xs with
  | nil => simp only [List.nil_append, weighted, List.sum_nil, Nat.mul_zero, Nat.zero_add]
  | cons x xs ih =>
    rw [List.cons_append, weighted, weighted, ih, List.length_append, List.sum_cons]
    ring

theorem foldl_step (m a b : Nat) (xs : List Nat) :
    xs.foldl (step m) (a % m, b % m) =
      ((a + xs.sum) % m, (b + xs.length * a + weighted xs) % m) := by
  induction xs generalizing a b with
  | nil => simp only [List.foldl_nil, List.sum_nil, List.length_nil, weighted, Nat.zero_mul,
      Nat.add_zero]
  | cons x xs ih =>
    have hstep : step m (a % m, b % m) x = ((a + x) % m, (b + (a + x)) % m) := by
      simp only [step, Nat.mod_add_mod, Nat.add_mod_mod]
    have hsecond : b + (a + x) + xs.length * (a + x) + weighted xs =
        b + (x :: xs).length * a + weighted (x :: xs) := by
      rw [List.length_cons, weighted]
      ring
    rw [List.foldl_cons, hstep, ih, List.sum_cons, hsecond, Nat.add_assoc]

/-- The closed form of the two sums. -/
theorem sums_eq (m : Nat) (xs : List Nat) : sums m xs = (xs.sum % m, weighted xs % m) := by
  have h := foldl_step m 0 0 xs
  rw [Nat.zero_mod, Nat.mul_zero, Nat.zero_add, Nat.zero_add] at h
  exact h

theorem sums_lt {m : Nat} (hm : 0 < m) (xs : List Nat) :
    (sums m xs).1 < m ∧ (sums m xs).2 < m := by
  rw [sums_eq]
  exact ⟨Nat.mod_lt _ hm, Nat.mod_lt _ hm⟩

theorem sum_set_add (xs : List Nat) {i : Nat} (hi : i < xs.length) (y : Nat) :
    (xs.set i y).sum + xs[i] = xs.sum + y := by
  have hsplit := List.sum_take_add_sum_drop xs i
  rw [List.drop_eq_getElem_cons hi, List.sum_cons] at hsplit
  rw [List.sum_set, if_pos hi]
  omega

/-- A change of one element shows in the first sum unless the two values are congruent. -/
theorem fst_set_eq_iff (m : Nat) (xs : List Nat) {i : Nat} (hi : i < xs.length) (y : Nat) :
    (sums m (xs.set i y)).1 = (sums m xs).1 ↔ y % m = xs[i] % m := by
  have hsum := sum_set_add xs hi y
  rw [sums_eq, sums_eq]
  change (xs.set i y).sum ≡ xs.sum [MOD m] ↔ y ≡ xs[i] [MOD m]
  constructor
  · intro h
    have hboth := h.add_right xs[i]
    rw [hsum] at hboth
    exact hboth.add_left_cancel'
  · intro h
    have hboth := h.add_left xs.sum
    rw [← hsum] at hboth
    exact hboth.add_right_cancel'

/-- Two neighbours that change places show in the second sum unless they are congruent. -/
theorem snd_swap_eq_iff (m : Nat) (xs ys : List Nat) (x y : Nat) :
    (sums m (xs ++ y :: x :: ys)).2 = (sums m (xs ++ x :: y :: ys)).2 ↔ x % m = y % m := by
  have hweighted (x y : Nat) : weighted (xs ++ x :: y :: ys) =
      weighted xs + (ys.length + 2) * xs.sum + (ys.length + 1) * (x + y) + weighted ys + x := by
    rw [weighted_append, weighted, weighted, List.length_cons, List.length_cons]
    ring
  rw [sums_eq, sums_eq, hweighted x y, hweighted y x, Nat.add_comm y x]
  change _ + y ≡ _ + x [MOD m] ↔ x ≡ y [MOD m]
  constructor
  · intro h
    exact h.symm.add_left_cancel'
  · intro h
    exact h.symm.add_left _

end Fletcher
