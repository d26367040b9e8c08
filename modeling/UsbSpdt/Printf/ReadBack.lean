import UsbSpdt.Firmware.InstrTask
import UsbSpdt.Printf.Buffer

/-!
# Numbers read back from their fields

`atoi` finds a number in its field wherever the padding does not continue its digits.
-/

namespace UsbSpdt

namespace Printf

theorem isDigit_iff {c : UInt8} : isDigit c = true ↔ 0x30 ≤ c ∧ c ≤ 0x39 := by
  simp [isDigit]

theorem digits_eq {l rest : List UInt8} (hl : ∀ c ∈ l, 0x30 ≤ c ∧ c ≤ 0x39)
    (hrest : rest.takeWhile isDigit = []) : digits (l ++ rest) = Numeral.value 10 l := by
  have hfold : ∀ (l : List UInt8), (∀ c ∈ l, 0x30 ≤ c ∧ c ≤ 0x39) → ∀ v : Nat,
      l.foldl (fun (n : Int) c => 10 * n + (c.toNat - 48 : Int)) v =
        (l.foldl (fun v c => v * 10 + CString.digit c) v : Nat) := by
    intro l
    induction l with
    | nil => exact fun _ v => rfl
    | cons c l ih =>
      intro hl v
      have hc := hl c List.mem_cons_self
      have hlow : 48 ≤ c.toNat := UInt8.le_iff_toNat_le.mp hc.1
      have hstep : (10 * (v : Int) + (c.toNat - 48 : Int)) = (v * 10 + CString.digit c : Nat) := by
        rw [Numeral.digit_decimal hc]
        omega
      rw [List.foldl_cons, List.foldl_cons, hstep, ih fun x hx => hl x (List.mem_cons_of_mem c hx)]
  rw [digits, List.takeWhile_append_of_pos fun c hc => isDigit_iff.mpr (hl c hc), hrest,
    List.append_nil]
  exact hfold l hl 0

theorem numeral_decimal (n : Nat) :
    (∀ c ∈ numeral 10 0x61 n, 0x30 ≤ c ∧ c ≤ 0x39) ∧ Numeral.value 10 (numeral 10 0x61 n) = n ∧
      ∃ c l, numeral 10 0x61 n = c :: l := by
  unfold numeral
  split
  · next hn =>
    subst hn
    exact ⟨by simp, rfl, _, _, rfl⟩
  · next hn =>
    have hvalue := Numeral.value_text (b := 10) (by decide) (by decide) (Or.inl rfl) n
    refine ⟨fun c hc => Numeral.decimal_of_digit_lt
      (Numeral.digit_lt_of_mem_text (by decide) (by decide) (Or.inl rfl) hc), hvalue, ?_⟩
    cases htext : Numeral.text 10 0x61 n with
    | nil =>
      rw [htext] at hvalue
      exact absurd hvalue.symm hn
    | cons c l => exact ⟨c, l, rfl⟩

/-! ### `atoi` at the front of a text -/

theorem atoi_blanks (k : Nat) (s : List UInt8) : atoi (List.replicate k 0x20 ++ s) = atoi s := by
  have hdrop : (List.replicate k 0x20 ++ s).dropWhile isSpace = s.dropWhile isSpace := by
    induction k with
    | zero => rfl
    | succ k ih =>
      rw [List.replicate_succ, List.cons_append, List.dropWhile_cons_of_pos (by decide), ih]
  rw [atoi, hdrop, atoi]

theorem atoi_minus (s : List UInt8) : atoi (0x2d :: s) = -digits s := by
  rw [atoi, List.dropWhile_cons_of_neg (by decide)]
  rfl

theorem atoi_digit {c : UInt8} (hc : 0x30 ≤ c ∧ c ≤ 0x39) (s : List UInt8) :
    atoi (c :: s) = digits (c :: s) := by
  have hlow : 48 ≤ c.toNat := UInt8.le_iff_toNat_le.mp hc.1
  have hne : ∀ x : UInt8, x.toNat < 48 → c ≠ x := by
    intro x hx h
    rw [h] at hlow
    omega
  have hspace : isSpace c = false := by
    have h32 := hne 0x20 (by decide)
    have h13 : ¬ c ≤ 13 := by
      intro h
      have : c.toNat ≤ 13 := UInt8.le_iff_toNat_le.mp h
      omega
    simp [isSpace, h32, h13]
  rw [atoi, List.dropWhile_cons_of_neg (by simp [hspace])]
  split
  · next heq => exact absurd (List.cons.inj heq).1 (hne 0x2d (by decide))
  · next heq => exact absurd (List.cons.inj heq).1 (hne 0x2b (by decide))
  · rfl

/-! ### Fields -/

/-- A number without padding. -/
def signedText (i : Int32) : List UInt8 :=
  (if 0 ≤ i.toInt then [] else [0x2d]) ++ numeral 10 0x61 i.toInt.natAbs

/-- What padding makes of a number read from its field. -/
def Pad.scale (pad : Pad) (room : Nat) : Nat := if pad.right ∧ pad.zero then 10 ^ room else 1

theorem digits_field (pad : Pad) (hzero : pad.zero = true) (width n : Nat) :
    digits (pad.field width (numeral 10 0x61 n)) =
      (n * pad.scale (width - (numeral 10 0x61 n).length) : Nat) := by
  obtain ⟨hdigits, hvalue, -⟩ := numeral_decimal n
  have hzeros : ∀ k, ∀ c ∈ List.replicate k (0x30 : UInt8), 0x30 ≤ c ∧ c ≤ 0x39 := by
    intro k c hc
    rw [(List.mem_replicate.mp hc).2]
    decide
  have hall : ∀ l l' : List UInt8, (∀ c ∈ l, 0x30 ≤ c ∧ c ≤ 0x39) →
      (∀ c ∈ l', 0x30 ≤ c ∧ c ≤ 0x39) → digits (l ++ l') = Numeral.value 10 (l ++ l') := by
    intro l l' hl hl'
    have heq : digits (l ++ l' ++ []) = Numeral.value 10 (l ++ l') :=
      digits_eq (fun c hc => (List.mem_append.mp hc).elim (hl c) (hl' c)) rfl
    rwa [List.append_nil] at heq
  simp only [Pad.field, Pad.scale, hzero, if_true, and_true]
  cases pad.right
  · rw [if_neg Bool.false_ne_true, if_neg Bool.false_ne_true, List.leftpad,
      hall _ _ (hzeros _) hdigits, Numeral.value_append, Numeral.value_zeros, hvalue]
    simp
  · rw [if_pos rfl, if_pos rfl, List.rightpad, hall _ _ hdigits (hzeros _), Numeral.value_append,
      Numeral.value_zeros, hvalue, List.length_replicate, Nat.add_zero]

theorem takeWhile_blanks (k : Nat) : (List.replicate k (0x20 : UInt8)).takeWhile isDigit = [] := by
  cases k <;> rfl

theorem digits_numeral (n : Nat) {rest : List UInt8} (hrest : rest.takeWhile isDigit = []) :
    digits (numeral 10 0x61 n ++ rest) = n := by
  obtain ⟨hdigits, hvalue, -⟩ := numeral_decimal n
  rw [digits_eq hdigits hrest, hvalue]

theorem atoi_field (pad : Pad) (width n : Nat) :
    atoi (pad.field width (numeral 10 0x61 n)) =
      (n * pad.scale (width - (numeral 10 0x61 n).length) : Nat) := by
  obtain ⟨hdigits, -, c, l, hcons⟩ := numeral_decimal n
  have hc := hdigits c (by simp [hcons])
  have hnumber : ∀ rest : List UInt8, atoi (numeral 10 0x61 n ++ rest) =
      digits (numeral 10 0x61 n ++ rest) := by
    intro rest
    rw [hcons]
    exact atoi_digit hc (l ++ rest)
  cases hzero : pad.zero with
  | true =>
    rw [← digits_field pad hzero]
    simp only [Pad.field, hzero, if_true]
    split
    · exact hnumber _
    · rw [List.leftpad]
      cases width - (numeral 10 0x61 n).length with
      | zero => simpa using hnumber []
      | succ k => exact atoi_digit (by decide) _
  | false =>
    have hscale : pad.scale (width - (numeral 10 0x61 n).length) = 1 := by
      simp [Pad.scale, hzero]
    rw [hscale, Nat.mul_one]
    simp only [Pad.field, hzero, Bool.false_eq_true, if_false]
    split
    · exact (hnumber _).trans (digits_numeral n (takeWhile_blanks _))
    · rw [List.leftpad, atoi_blanks]
      simpa using (hnumber []).trans (digits_numeral n rfl)

/-- The number that `atoi` finds in a field. -/
theorem atoi_signedField (pad : Pad) (width : Nat) (i : Int32) :
    atoi (pad.signedField width i) =
      i.toInt * pad.scale (width - (signedText i).length) := by
  by_cases hsign : 0 ≤ i.toInt
  · rw [Pad.signedField, if_pos hsign, atoi_field, signedText, if_pos hsign, List.nil_append,
      Nat.cast_mul, Int.natAbs_of_nonneg hsign]
  have hlen : (signedText i).length = (numeral 10 0x61 i.toInt.natAbs).length + 1 := by
    simp [signedText, hsign, Nat.add_comm]
  have habs : i.toInt = -(i.toInt.natAbs : Int) := by omega
  rw [Pad.signedField, if_neg hsign, hlen]
  split
  · next hpad =>
    rw [atoi_minus, digits_field pad hpad.2, Nat.sub_sub, Nat.add_comm 1, Nat.cast_mul,
      ← Int.neg_mul, ← habs]
  · next hpad =>
    have hscale : pad.scale (width - ((numeral 10 0x61 i.toInt.natAbs).length + 1)) = 1 := by
      unfold Pad.scale
      split
      · next hboth =>
        have hwidth : width = 0 := by
          by_contra hne
          exact hpad ⟨hne, hboth.2⟩
        simp [hwidth]
      · rfl
    -- blanks, or no padding at all
    have hfield : ∃ k k', pad.field width (0x2d :: numeral 10 0x61 i.toInt.natAbs) =
        List.replicate k 0x20 ++ 0x2d :: (numeral 10 0x61 i.toInt.natAbs ++
          List.replicate k' 0x20) := by
      by_cases hwidth : width = 0
      · refine ⟨0, 0, ?_⟩
        cases hright : pad.right <;> simp [Pad.field, hwidth, hright, List.leftpad, List.rightpad]
      · have hzero : pad.zero = false := by
          rw [← Bool.not_eq_true]
          exact fun h => hpad ⟨hwidth, h⟩
        cases hright : pad.right
        · exact ⟨_, 0, by simp [Pad.field, hzero, hright, List.leftpad]; rfl⟩
        · exact ⟨0, _, by simp [Pad.field, hzero, hright, List.rightpad]; rfl⟩
    obtain ⟨k, k', hfield⟩ := hfield
    rw [hscale, hfield, atoi_blanks, atoi_minus, digits_numeral _ (takeWhile_blanks k'), ← habs]
    simp

theorem field_length (pad : Pad) (width : Nat) (text : List UInt8) :
    (pad.field width text).length = max width text.length := by
  unfold Pad.field
  dsimp only
  split
  · simp [List.rightpad]
    omega
  · simp [List.leftpad]
    omega

theorem signedField_length (pad : Pad) (width : Nat) (i : Int32) :
    (pad.signedField width i).length = max width (signedText i).length := by
  unfold Pad.signedField signedText
  dsimp only
  split
  · rw [field_length, List.nil_append]
  · split
    · next hpad =>
      have := hpad.1
      simp only [List.length_cons, List.length_append, List.length_nil, field_length]
      omega
    · rw [field_length]
      rfl

theorem scale_eq_one_iff (d : Directive) (room : Nat) :
    d.pad.scale room = 1 ↔ d.minus = false ∨ d.zeros = 0 ∨ room = 0 := by
  unfold Pad.scale Directive.pad
  simp only [decide_eq_true_eq]
  split
  · next h => simp [h]
  · next h =>
    refine iff_of_true rfl ?_
    cases hminus : d.minus
    · exact Or.inl rfl
    · exact Or.inr (Or.inl (by simpa [hminus] using h))

end Printf

end UsbSpdt
