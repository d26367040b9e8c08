import Mathlib.Algebra.GroupWithZero.Nat

/-!
# Bits of a word, most significant first

The order in which a serial bus shifts a word.
-/

namespace Bits

/-- The low `width` bits of `n`, most significant first. -/
def ofNat : Nat → Nat → List Bool
  | 0, _ => []
  | width + 1, n => n.testBit width :: ofNat width n

def toNat : List Bool → Nat
  | [] => 0
  | b :: bits => b.toNat * 2 ^ bits.length + toNat bits

@[simp] theorem ofNat_length (width n : Nat) : (ofNat width n).length = width := by
  induction width with
  | zero => rfl
  | succ width ih => simp only [ofNat, List.length_cons, ih]

theorem toNat_ofNat (width n : Nat) : toNat (ofNat width n) = n % 2 ^ width := by
  induction width with
  | zero => simp only [ofNat, toNat, Nat.pow_zero, Nat.mod_one]
  | succ width ih =>
    simp only [ofNat, toNat, ofNat_length, ih]
    rw [Nat.mod_pow_succ, Nat.testBit_eq_decide_div_mod_eq, Nat.mul_comm, Nat.add_comm]
    rcases Nat.mod_two_eq_zero_or_one (n / 2 ^ width) with h | h <;> simp [h]

theorem ofNat_congr {width m n : Nat} (h : ∀ i < width, m.testBit i = n.testBit i) :
    ofNat width m = ofNat width n := by
  induction width with
  | zero => rfl
  | succ width ih =>
    simp only [ofNat, h width (Nat.lt_succ_self width),
      ih fun i hi => h i (Nat.lt_succ_of_lt hi)]

theorem ofNat_mod {width w : Nat} (n : Nat) (h : width ≤ w) :
    ofNat width (n % 2 ^ w) = ofNat width n := by
  apply ofNat_congr
  intro i hi
  have hw : i < w := by omega
  simp only [Nat.testBit_mod_two_pow, hw, decide_true, Bool.true_and]

theorem ofNat_add (high low n : Nat) :
    ofNat (high + low) n = ofNat high (n >>> low) ++ ofNat low n := by
  induction high with
  | zero => rw [Nat.zero_add]; rfl
  | succ high ih =>
    rw [Nat.add_right_comm, ofNat, ih, ofNat, Nat.testBit_shiftRight, Nat.add_comm low]
    rfl

theorem ofNat_pack (high low a b : Nat) (hb : b < 2 ^ low) :
    ofNat (high + low) (a <<< low ||| b) = ofNat high a ++ ofNat low b := by
  rw [ofNat_add, Nat.shiftRight_or_distrib, Nat.shiftLeft_shiftRight,
    Nat.shiftRight_eq_zero b low hb,
    Nat.or_zero]
  congr 1
  apply ofNat_congr
  intro i hi
  have hn : ¬ i ≥ low := by omega
  simp only [Nat.testBit_or, Nat.testBit_shiftLeft, hn, decide_false, Bool.false_and, Bool.false_or]

theorem and_field (n width shift : Nat) :
    (n &&& (2 ^ width - 1) <<< shift) >>> shift = (n >>> shift) % 2 ^ width := by
  rw [Nat.shiftRight_and_distrib, Nat.shiftLeft_shiftRight, Nat.and_two_pow_sub_one_eq_mod]

/-- A mask of the bits from `shift` on. -/
theorem and_upper {width shift n : Nat} (h : n < 2 ^ (shift + width)) :
    n &&& (2 ^ width - 1) <<< shift = n >>> shift <<< shift := by
  apply Nat.eq_of_testBit_eq
  intro i
  rw [Nat.testBit_and, Nat.testBit_shiftLeft, Nat.testBit_shiftLeft, Nat.testBit_two_pow_sub_one,
    Nat.testBit_shiftRight]
  by_cases hlow : i < shift
  · have hi : ¬ i ≥ shift := by omega
    simp only [hi, decide_false, Bool.false_and, Bool.and_false]
  · have hi : shift + (i - shift) = i := by omega
    rw [hi]
    by_cases hhigh : i - shift < width
    · rw [decide_eq_true hhigh, Bool.and_true, Bool.and_comm]
    · have hzero : n.testBit i = false :=
        Nat.testBit_lt_two_pow (Nat.lt_of_lt_of_le h (Nat.pow_le_pow_right (by decide) (by omega)))
      simp only [hzero, Bool.false_and, Bool.and_false]

end Bits
