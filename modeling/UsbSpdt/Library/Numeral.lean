import Mathlib.Data.Nat.Digits.Lemmas
import Mathlib.Tactic.Ring
import UsbSpdt.Library.CString

/-!
# Numerals

Numbers as text in a base of at most 36, without leading zeros, and the value of such a text.
-/

namespace Numeral

/-- The digit `t`, with the letters from `letbase` on. -/
def digitChar (letbase : UInt8) (t : Nat) : UInt8 :=
  if t < 10 then UInt8.ofNat (0x30 + t) else UInt8.ofNat (letbase.toNat + (t - 10))

/-- The digits of a number, the highest first. Zero has none. -/
def text (b : Nat) (letbase : UInt8) (n : Nat) : List UInt8 :=
  (Nat.digits b n).reverse.map (digitChar letbase)

def value (b : Nat) (l : List UInt8) : Nat := l.foldl (fun v c => v * b + CString.digit c) 0

@[simp] theorem text_zero (b : Nat) (letbase : UInt8) : text b letbase 0 = [] := by
  simp [text]

theorem text_succ {b n : Nat} (hb : 2 ≤ b) (hn : 0 < n) (letbase : UInt8) :
    text b letbase n = text b letbase (n / b) ++ [digitChar letbase (n % b)] := by
  rw [text, Nat.digits_def' (by omega) hn]
  simp [text]

theorem text_length_le_iff {b n k : Nat} (hb : 2 ≤ b) (letbase : UInt8) :
    (text b letbase n).length ≤ k ↔ n < b ^ k := by
  simp only [text, List.length_map, List.length_reverse]
  exact Nat.digits_length_le_iff (by omega) n

@[simp] theorem value_nil (b : Nat) : value b [] = 0 := rfl

theorem value_concat (b : Nat) (l : List UInt8) (c : UInt8) :
    value b (l ++ [c]) = value b l * b + CString.digit c := by
  simp [value]

theorem value_append (b : Nat) (l l' : List UInt8) :
    value b (l ++ l') = value b l * b ^ l'.length + value b l' := by
  induction l' using List.reverseRecOn with
  | nil => simp
  | append_singleton l' c ih =>
    rw [← List.append_assoc, value_concat, ih, value_concat, List.length_append,
      List.length_singleton, pow_succ]
    ring

theorem value_zeros (b k : Nat) : value b (List.replicate k 0x30) = 0 := by
  induction k with
  | zero => rfl
  | succ k ih =>
    rw [List.replicate_succ', value_concat, ih]
    simp [CString.digit]

/-! ### Digits of text made here -/

/-- The small letters or the capitals. -/
def Letters (letbase : UInt8) : Prop := letbase = 0x61 ∨ letbase = 0x41

theorem digit_digitChar {letbase : UInt8} (hl : Letters letbase) {t : Nat} (ht : t < 36) :
    CString.digit (digitChar letbase t) = t := by
  unfold Letters at hl
  have hall : ∀ t < 36, CString.digit (digitChar 0x61 t) = t ∧
      CString.digit (digitChar 0x41 t) = t := by
    decide
  obtain rfl | rfl := hl
  · exact (hall t ht).1
  · exact (hall t ht).2

theorem digitChar_ne_zero {letbase : UInt8} (hl : Letters letbase) {t : Nat} (ht : t < 36) :
    digitChar letbase t ≠ 0 := by
  have hall : ∀ t < 36, digitChar 0x61 t ≠ 0 ∧ digitChar 0x41 t ≠ 0 := by
    decide
  obtain rfl | rfl := hl
  · exact (hall t ht).1
  · exact (hall t ht).2

section Text

variable {b : Nat} (hb : 2 ≤ b) (hb36 : b ≤ 36) {letbase : UInt8} (hl : Letters letbase)

include hb hb36 hl

theorem value_text (n : Nat) : value b (text b letbase n) = n := by
  induction n using Nat.strong_induction_on with
  | _ n ih =>
    obtain rfl | hn := Nat.eq_zero_or_pos n
    · simp
    · have hlt : n % b < b := Nat.mod_lt n (by omega)
      rw [text_succ hb hn, value_concat, ih (n / b) (Nat.div_lt_self hn (by omega)),
        digit_digitChar hl (by omega), Nat.div_add_mod']

theorem digit_lt_of_mem_text {n : Nat} {c : UInt8} (hc : c ∈ text b letbase n) :
    CString.digit c < b := by
  simp only [text, List.mem_map, List.mem_reverse] at hc
  obtain ⟨t, ht, rfl⟩ := hc
  have hlt := Nat.digits_lt_base (by omega) ht
  rwa [digit_digitChar hl (by omega)]

theorem zero_notMem_text (n : Nat) : 0 ∉ text b letbase n := by
  simp only [text, List.mem_map, List.mem_reverse, not_exists, not_and]
  intro t ht
  exact digitChar_ne_zero hl (Nat.lt_of_lt_of_le (Nat.digits_lt_base (by omega) ht) hb36)

theorem head_text_ne {n : Nat} {c : UInt8} (hc : (text b letbase n).head? = some c) :
    CString.digit c ≠ 0 := by
  obtain rfl | hn := Nat.eq_zero_or_pos n
  · simp at hc
  · have hne : Nat.digits b n ≠ [] := Nat.digits_ne_nil_iff_ne_zero.mpr (Nat.pos_iff_ne_zero.mp hn)
    have hlast := Nat.getLast_digit_ne_zero b (Nat.pos_iff_ne_zero.mp hn)
    have hlt := Nat.digits_lt_base (by omega) (List.getLast_mem hne)
    rw [text, List.head?_map, List.head?_reverse, List.getLast?_eq_some_getLast hne,
      Option.map_some, Option.some.injEq] at hc
    rw [← hc, digit_digitChar hl (by omega)]
    exact hlast

end Text

theorem digit_decimal {c : UInt8} (hc : 0x30 ≤ c ∧ c ≤ 0x39) :
    CString.digit c = c.toNat - 0x30 := by
  simp [CString.digit, hc]

theorem decimal_of_digit_lt {c : UInt8} (h : CString.digit c < 10) : 0x30 ≤ c ∧ c ≤ 0x39 := by
  unfold CString.digit at h
  split at h
  · assumption
  · split at h
    · next hupper =>
      have hlow : 65 ≤ c.toNat := UInt8.le_iff_toNat_le.mp hupper.1
      omega
    · split at h
      · next hlower =>
        have hlow : 97 ≤ c.toNat := UInt8.le_iff_toNat_le.mp hlower.1
        omega
      · omega

theorem digitChar_digit {c : UInt8} (hc : 0x30 ≤ c ∧ c ≤ 0x39) (letbase : UInt8) :
    CString.digit c < 10 ∧ digitChar letbase (CString.digit c) = c := by
  have hlow : 48 ≤ c.toNat := UInt8.le_iff_toNat_le.mp hc.1
  have hhigh : c.toNat ≤ 57 := UInt8.le_iff_toNat_le.mp hc.2
  have hlt : c.toNat - 0x30 < 10 := by omega
  rw [digit_decimal hc]
  refine ⟨hlt, ?_⟩
  rw [digitChar, if_pos hlt, Nat.add_sub_cancel' hlow, UInt8.ofNat_toNat]

/-- A decimal text without leading zeros is the text of its value. -/
theorem text_value {l : List UInt8} (hdigits : ∀ c ∈ l, 0x30 ≤ c ∧ c ≤ 0x39)
    (hhead : l.head? ≠ some 0x30) (letbase : UInt8) : text 10 letbase (value 10 l) = l := by
  induction l using List.reverseRecOn with
  | nil => simp
  | append_singleton l c ih =>
    have hc := hdigits c (by simp)
    obtain ⟨hlt, hchar⟩ := digitChar_digit hc letbase
    have hl : l ≠ [] → text 10 letbase (value 10 l) = l := by
      intro hne
      apply ih fun x hx => hdigits x (List.mem_append_left _ hx)
      rwa [List.head?_append_of_ne_nil l hne] at hhead
    have hpos : 0 < value 10 l * 10 + CString.digit c := by
      by_cases hne : l = []
      · have hc0 : c ≠ 0x30 := by simpa [hne] using hhead
        have hnat : c.toNat ≠ 48 := fun h => hc0 (UInt8.toNat_inj.mp h)
        have hlow : 48 ≤ c.toNat := UInt8.le_iff_toNat_le.mp hc.1
        rw [digit_decimal hc]
        omega
      · have hvalue : value 10 l ≠ 0 := by
          intro h0
          have htext := hl hne
          rw [h0, text_zero] at htext
          exact hne htext.symm
        omega
    have hdiv : (value 10 l * 10 + CString.digit c) / 10 = value 10 l := by omega
    have hmod : (value 10 l * 10 + CString.digit c) % 10 = CString.digit c := by omega
    rw [value_concat, text_succ (by decide) hpos, hdiv, hmod, hchar]
    by_cases hne : l = []
    · simp [hne]
    · rw [hl hne]

end Numeral
