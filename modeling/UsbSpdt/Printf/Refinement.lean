import UsbSpdt.Printf.Format

/-!
# `print` prints what its format means

Each function is its text written character by character, and the flags of a directive are read as
they were spelled.
-/

namespace UsbSpdt

namespace Printf

section Sink

variable {σ : Type} (printchar : σ → UInt8 → Option σ)

theorem printPad_eq (padchar : UInt8) (width : Nat) (r : Nat × σ) :
    printPad printchar padchar width r =
      printString printchar (List.replicate width padchar) r := by
  induction width generalizing r with
  | zero => rfl
  | succ width ih =>
    simp only [printPad, List.replicate_succ, printString, ih]

theorem printString_append (a b : List UInt8) (r : Nat × σ) :
    printString printchar (a ++ b) r =
      (printString printchar a r).bind (printString printchar b) := by
  induction a generalizing r with
  | nil => rfl
  | cons c a ih =>
    simp only [List.cons_append, printString, ih, bind, Option.bind_assoc]

theorem printString_eq (text : List UInt8) (pc : Nat) (out : σ) :
    printString printchar text (pc, out) =
      (text.foldlM printchar out).map fun out => (pc + text.length, out) := by
  induction text generalizing pc out with
  | nil => rfl
  | cons c text ih =>
    rw [printString, List.foldlM_cons]
    cases printchar out c with
    | none => rfl
    | some out' => simp [ih, Nat.add_assoc, Nat.add_comm 1]

/-- The count goes on from what has been printed before. -/
theorem printString_add (text : List UInt8) (pc : Nat) (out : σ) :
    printString printchar text (pc, out) =
      (printString printchar text (0, out)).map fun r => (pc + r.1, r.2) := by
  simp [printString_eq, Function.comp_def]

theorem prints_eq (out : σ) (string : List UInt8) (width : Nat) (pad : Pad) :
    prints printchar out string width pad =
      printString printchar (pad.field width string) (0, out) := by
  have hwidth : (if 0 < width then if string.length ≥ width then 0 else width - string.length
      else width) = width - string.length := by
    split
    · split
      · omega
      · rfl
    · omega
  have hpad : List.replicate (width - string.length)
        (if 0 < width ∧ pad.zero = true then 0x30 else 0x20 : UInt8) =
      List.replicate (width - string.length) (if pad.zero = true then 0x30 else 0x20) := by
    by_cases h : 0 < width
    · simp [h]
    · simp [Nat.eq_zero_of_not_pos h]
  unfold prints
  rw [hwidth]
  simp only [printPad_eq, hpad, Pad.field]
  cases pad.right
  · simp [List.leftpad, printString_append]
  · simp [List.rightpad, printString_append]

end Sink

/-! ### Numbers -/

theorem digitChar_eq {letbase : UInt8} (hl : Numeral.Letters letbase) {t : UInt32} (ht : t < 36) :
    digitChar letbase t = Numeral.digitChar letbase t.toNat := by
  have hall : ∀ t < 36, digitChar 0x61 (UInt32.ofNat t) = Numeral.digitChar 0x61 t ∧
      digitChar 0x41 (UInt32.ofNat t) = Numeral.digitChar 0x41 t := by
    decide
  have h := hall t.toNat (UInt32.lt_iff_toNat_lt.mp ht)
  rw [UInt32.ofNat_toNat] at h
  obtain rfl | rfl := hl
  · exact h.1
  · exact h.2

theorem digitChar_ne {letbase : UInt8} (hl : Numeral.Letters letbase) {t : UInt32} (ht : t < 36) :
    digitChar letbase t ≠ 0 := by
  have hall : ∀ t < 36, digitChar 0x61 (UInt32.ofNat t) ≠ 0 ∧
      digitChar 0x41 (UInt32.ofNat t) ≠ 0 := by
    decide
  have h := hall t.toNat (UInt32.lt_iff_toNat_lt.mp ht)
  rw [UInt32.ofNat_toNat] at h
  obtain rfl | rfl := hl
  · exact h.1
  · exact h.2

/-- A character stored in front of a string. -/
theorem stringAt_set {n : Nat} (buf : Vector UInt8 n) {s : Nat} (hs : s < n) {c : UInt8}
    (hc : c ≠ 0) : CString.stringAt (buf.setIfInBounds s c).toList s =
      c :: CString.stringAt buf.toList (s + 1) := by
  have hlen : s < (buf.toList.set s c).length := by simpa using hs
  rw [CString.stringAt, CString.stringAt, Vector.toList_setIfInBounds,
    List.drop_eq_getElem_cons hlen, List.getElem_set_self,
    List.takeWhile_cons_of_pos (by simpa using hc), List.drop_set_of_lt (by omega)]

theorem stringAt_set_nul {n : Nat} (buf : Vector UInt8 n) {s : Nat} (hs : s < n) :
    CString.stringAt (buf.setIfInBounds s 0).toList s = [] := by
  have hlen : s < (buf.toList.set s 0).length := by simpa using hs
  rw [CString.stringAt, Vector.toList_setIfInBounds, List.drop_eq_getElem_cons hlen,
    List.getElem_set_self, List.takeWhile_cons_of_neg (by simp)]

/-- Where the digits of `u` have room below `s`, they are stored in front of what begins there. -/
theorem storeDigits_spec {b : UInt32} (hb : 2 ≤ b) (hb36 : b ≤ 36) {letbase : UInt8}
    (hl : Numeral.Letters letbase) {s : Nat} (u : UInt32) (buf : Vector UInt8 printBufLen)
    (hs : s < printBufLen) (hroom : (Numeral.text b.toNat letbase u.toNat).length ≤ s) :
    ∃ buf', storeDigits b letbase s u buf =
        some (s - (Numeral.text b.toNat letbase u.toNat).length, buf') ∧
      CString.stringAt buf'.toList (s - (Numeral.text b.toNat letbase u.toNat).length) =
        Numeral.text b.toNat letbase u.toNat ++ CString.stringAt buf.toList s := by
  have hb2 : 2 ≤ b.toNat := UInt32.le_iff_toNat_le.mp hb
  have hb36' : b.toNat ≤ 36 := UInt32.le_iff_toNat_le.mp hb36
  induction s generalizing u buf with
  | zero =>
    have hnil := List.eq_nil_of_length_eq_zero (Nat.eq_zero_of_le_zero hroom)
    have hu : u = 0 := by
      have hvalue := Numeral.value_text hb2 hb36' hl u.toNat
      rw [hnil, Numeral.value_nil] at hvalue
      exact UInt32.toNat_inj.mp hvalue.symm
    subst hu
    exact ⟨buf, by simp [storeDigits], by simp⟩
  | succ s ih =>
    by_cases hu : u = 0
    · subst hu
      exact ⟨buf, by simp [storeDigits], by simp⟩
    · have hpos : 0 < u.toNat := Nat.pos_of_ne_zero fun h => hu (UInt32.toNat_inj.mp h)
      have hmod : u % b < 36 := by
        rw [UInt32.lt_iff_toNat_lt, UInt32.toNat_mod]
        exact Nat.lt_of_lt_of_le (Nat.mod_lt _ (by omega)) hb36'
      have htext := Numeral.text_succ hb2 hpos letbase
      rw [← UInt32.toNat_div, ← UInt32.toNat_mod, ← digitChar_eq hl hmod] at htext
      rw [htext, List.length_append, List.length_singleton] at hroom ⊢
      obtain ⟨buf', hstore, hstring⟩ := ih (u / b) (buf.setIfInBounds s (digitChar letbase (u % b)))
        (by omega) (by omega)
      refine ⟨buf', ?_, ?_⟩
      · rw [storeDigits, if_neg hu, hstore, Nat.add_sub_add_right]
      · rw [Nat.add_sub_add_right, hstring, stringAt_set buf (by omega) (digitChar_ne hl hmod),
          List.append_assoc]
        rfl

theorem toInt_toInt32 (a : UInt32) : a.toInt32.toInt =
    if a.toNat < 2147483648 then (a.toNat : Int) else (a.toNat : Int) - 4294967296 := by
  change a.toBitVec.toInt = _
  have hnat : a.toBitVec.toNat = a.toNat := rfl
  rw [BitVec.toInt_eq_toNat_cond, hnat]
  split
  · rw [if_pos (by omega)]
  · rw [if_neg (by omega)]
    rfl

/-- A number of 32 bits has at most ten digits. -/
theorem text_length (a : UInt32) {b : UInt32} (hb : 10 ≤ b) (letbase : UInt8) :
    (Numeral.text b.toNat letbase a.toNat).length ≤ 10 := by
  have hb10 : 10 ≤ b.toNat := UInt32.le_iff_toNat_le.mp hb
  have hpow : 10 ^ 10 ≤ b.toNat ^ 10 := Nat.pow_le_pow_left hb10 10
  have hlt := a.toNat_lt
  exact (Numeral.text_length_le_iff (by omega) letbase).mpr (by omega)

section Sink

variable {σ : Type} (printchar : σ → UInt8 → Option σ) (stack : Vector UInt8 printBufLen) (out : σ)
  (a : UInt32) (width : Nat) (pad : Pad)

theorem printi_zero (b : UInt32) (sg : Bool) (letbase : UInt8) :
    printi printchar stack out 0 b sg width pad letbase =
      printString printchar (pad.field width [0x30]) (0, out) := by
  have hstring : CString.stringAt ((stack.setIfInBounds 0 0x30).setIfInBounds 1 0).toList 0 =
      [0x30] := by
    obtain ⟨⟨l⟩, hl⟩ := stack
    match l, hl with
    | c :: c' :: l, _ => simp [CString.stringAt]
  rw [printi, if_pos rfl]
  dsimp only
  rw [hstring, prints_eq]

/-- `while (u)`, for a number that is not zero. -/
theorem storeDigits_number {b : UInt32} (hb : 10 ≤ b) (hb36 : b ≤ 36) {letbase : UInt8}
    (hl : Numeral.Letters letbase) {u : UInt32} (hu : u ≠ 0) : ∃ s buf,
      storeDigits b letbase (printBufLen - 1) u (stack.setIfInBounds (printBufLen - 1) 0) =
        some (s + 1, buf) ∧ s + 1 < printBufLen ∧
      CString.stringAt buf.toList (s + 1) = numeral b.toNat letbase u.toNat := by
  have hlen := text_length u hb letbase
  have hb2 : 2 ≤ b := by
    rw [UInt32.le_iff_toNat_le] at hb ⊢
    exact Nat.le_trans (by decide) hb
  obtain ⟨buf, hstore, hstring⟩ := storeDigits_spec hb2 hb36 hl u
    (stack.setIfInBounds (printBufLen - 1) 0) (s := printBufLen - 1) (by decide)
    (Nat.le_trans hlen (by decide))
  have hu' : u.toNat ≠ 0 := fun h => hu (UInt32.toNat_inj.mp h)
  have hindex : printBufLen - 1 - (Numeral.text b.toNat letbase u.toNat).length =
      10 - (Numeral.text b.toNat letbase u.toNat).length + 1 := by
    simp only [printBufLen]
    omega
  rw [hindex] at hstore hstring
  refine ⟨_, buf, hstore, by simp only [printBufLen]; omega, ?_⟩
  rw [hstring, stringAt_set_nul stack (by decide), List.append_nil, numeral, if_neg hu']

theorem printi_unsigned {b : UInt32} (hb : 10 ≤ b) (hb36 : b ≤ 36) {letbase : UInt8}
    (hl : Numeral.Letters letbase) :
    printi printchar stack out a b false width pad letbase =
      printString printchar (pad.field width (numeral b.toNat letbase a.toNat)) (0, out) := by
  by_cases ha : a = 0
  · subst ha
    exact printi_zero printchar stack out width pad b false letbase
  · obtain ⟨s, buf, hstore, -, hstring⟩ := storeDigits_number stack hb hb36 hl ha
    simp [printi, ha, hstore, hstring, prints_eq]

theorem natAbs_neg {a : UInt32} (h : a.toInt32 < 0) : (-a).toNat = a.toInt32.toInt.natAbs := by
  have hneg : a.toInt32.toInt < 0 := Int32.lt_iff_toInt_lt.mp h
  have hint := toInt_toInt32 a
  have hlt := a.toNat_lt
  rw [UInt32.toNat_neg]
  simp only [UInt32.size]
  split at hint <;> omega

/-- The least number is not printed; every other is, within `print_buf`. -/
theorem printi_signed :
    printi printchar stack out a 10 true width pad 0x61 =
      if a.toInt32 = Int32.minValue then none
      else printString printchar (pad.signedField width a.toInt32) (0, out) := by
  by_cases ha : a = 0
  · subst ha
    exact printi_zero printchar stack out width pad 10 true 0x61
  rw [printi, if_neg ha]
  by_cases hneg : a.toInt32 < 0
  · simp only [hneg, and_self, if_true]
    by_cases hmin : a.toInt32 = Int32.minValue
    · simp [negate, hmin]
    · have hu : -a ≠ 0 := by
        simpa using ha
      obtain ⟨s, buf, hstore, hs, hstring⟩ := storeDigits_number stack (b := 10)
        (by decide) (by decide) (Or.inl rfl : Numeral.Letters 0x61) hu
      rw [natAbs_neg hneg] at hstring
      have hlt : ¬ 0 ≤ a.toInt32.toInt := by
        have : a.toInt32.toInt < 0 := Int32.lt_iff_toInt_lt.mp hneg
        omega
      have hsign : CString.stringAt (buf.setIfInBounds s 0x2d).toList s =
          0x2d :: numeral 10 0x61 a.toInt32.toInt.natAbs := by
        rw [stringAt_set buf (by omega) (by decide), hstring]
        rfl
      simp only [negate, if_neg hmin, Option.map_some, Int32.toUInt32_neg,
        UInt32.toUInt32_toInt32, bind, Option.bind_some, hstore, hstring, hsign, prints_eq,
        Pad.signedField, if_neg hlt, pure]
      split
      · rw [printString]
        simp [printString_add printchar _ 1, Option.map_eq_bind, Nat.add_comm]
      · rfl
  · have hmin : a.toInt32 ≠ Int32.minValue := by
      intro h
      rw [h] at hneg
      exact hneg (by decide)
    have hle : ¬ a.toInt32.toInt < 0 := fun h => hneg (Int32.lt_iff_toInt_lt.mpr h)
    have hnat : a.toInt32.toInt.natAbs = a.toNat := by
      have hint := toInt_toInt32 a
      have hlt := a.toNat_lt
      split at hint <;> omega
    obtain ⟨s, buf, hstore, -, hstring⟩ := storeDigits_number stack (b := 10)
      (by decide) (by decide) (Or.inl rfl : Numeral.Letters 0x61) ha
    simp only [hneg, and_false, if_false, if_neg hmin, bind, Option.bind_some, hstore, hstring,
      prints_eq, Pad.signedField, if_pos (not_lt.mp hle), hnat]
    rfl

theorem convert_letter (strings : Strings) (k : Kind) (args : List UInt32) :
    convert printchar strings stack out k.letter width pad (a :: args) =
      if k.Meaningful a then
        (printString printchar (k.render strings pad width a) (0, out)).map fun r => (args, r)
      else none := by
  cases k with
  | string =>
    simp [convert, Kind.letter, vaArg, prints_eq, Kind.Meaningful, Kind.render, Option.map_eq_bind]
  | signed =>
    by_cases hmin : a.toInt32 = Int32.minValue
    · simp [convert, Kind.letter, vaArg, printi_signed, Kind.Meaningful, hmin]
    · simp [convert, Kind.letter, vaArg, printi_signed, Kind.Meaningful, Kind.render, hmin,
        Option.map_eq_bind]
  | unsigned =>
    have hprint := printi_unsigned printchar stack out a width pad (b := 10)
      (by decide) (by decide) (Or.inl rfl : Numeral.Letters 0x61)
    simp [convert, Kind.letter, vaArg, hprint, Kind.Meaningful, Kind.render, Option.map_eq_bind]
  | hex =>
    have hprint := printi_unsigned printchar stack out a width pad (b := 16)
      (by decide) (by decide) (Or.inl rfl : Numeral.Letters 0x61)
    simp [convert, Kind.letter, vaArg, hprint, Kind.Meaningful, Kind.render, Option.map_eq_bind]
  | hexUpper =>
    have hprint := printi_unsigned printchar stack out a width pad (b := 16)
      (by decide) (by decide) (Or.inr rfl : Numeral.Letters 0x41)
    simp [convert, Kind.letter, vaArg, hprint, Kind.Meaningful, Kind.render, Option.map_eq_bind]
  | char =>
    have hchar : CString.stringAt [a.toUInt8, 0] 0 =
        if a.toUInt8 = 0 then [] else [a.toUInt8] := by
      by_cases hc : a.toUInt8 = 0
      · simp [CString.stringAt, hc]
      · simp [CString.stringAt, hc]
    simp [convert, Kind.letter, vaArg, hchar, prints_eq, Kind.Meaningful, Kind.render,
      Option.map_eq_bind]

theorem convert_no_args (strings : Strings) (k : Kind) :
    convert printchar strings stack out k.letter width pad [] = none := by
  cases k <;> rfl

theorem convert_unknown (strings : Strings) {c : UInt8} (hc : Kind.ofByte c = none)
    (args : List UInt32) :
    convert printchar strings stack out c width pad args = some (args, 0, out) := by
  have hne := Kind.letter_ne_of_ofByte hc
  have hs : c ≠ 0x73 := hne .string
  have hd : c ≠ 0x64 := hne .signed
  have hx : c ≠ 0x78 := hne .hex
  have hX : c ≠ 0x58 := hne .hexUpper
  have hu : c ≠ 0x75 := hne .unsigned
  have hchar : c ≠ 0x63 := hne .char
  simp [convert, hs, hd, hx, hX, hu, hchar]

theorem convert_eq (strings : Strings) (d : Directive) (args : List UInt32) :
    convert printchar strings stack out d.conversion d.width d.pad args =
      (d.render strings args).bind fun (text, args) =>
        (printString printchar text (0, out)).map fun r => (args, r) := by
  unfold Directive.render
  cases hkind : Kind.ofByte d.conversion with
  | none =>
    rw [convert_unknown printchar stack out d.width d.pad strings hkind]
    rfl
  | some k =>
    rw [← Kind.letter_of_ofByte hkind]
    cases args with
    | nil =>
      rw [convert_no_args]
      rfl
    | cons a args =>
      rw [convert_letter]
      by_cases hk : k.Meaningful a
      · simp [hk]
      · simp [hk]

end Sink

/-! ### Directives are read as they are spelled -/

theorem readZeros_replicate (zero : Bool) (n : Nat) {c : UInt8} (hc : c ≠ 0x30)
    (rest : List UInt8) :
    readZeros zero (List.replicate n 0x30 ++ c :: rest) = some (zero || n ≠ 0, c :: rest) := by
  induction n generalizing zero with
  | zero => simp [readZeros, hc]
  | succ n ih => simp [List.replicate_succ, readZeros, ih]

theorem le_foldl_digits (l : List UInt8) (w : Nat) :
    w ≤ l.foldl (fun v c => v * 10 + CString.digit c) w := by
  induction l generalizing w with
  | nil => exact Nat.le_refl w
  | cons c l ih => exact Nat.le_trans (by omega) (ih (w * 10 + CString.digit c))

theorem readWidth_digits {l : List UInt8} (hl : ∀ x ∈ l, 0x30 ≤ x ∧ x ≤ 0x39) (w : Nat)
    (hlt : l.foldl (fun v c => v * 10 + CString.digit c) w < 2147483648) {c : UInt8}
    (hc : ¬ (c ≥ 0x30 ∧ c ≤ 0x39)) (rest : List UInt8) :
    readWidth w (l ++ c :: rest) =
      some (l.foldl (fun v c => v * 10 + CString.digit c) w, c :: rest) := by
  induction l generalizing w with
  | nil => simp only [List.nil_append, readWidth, if_neg hc, List.foldl_nil]
  | cons x l ih =>
    have hx := hl x List.mem_cons_self
    have hdigit := Numeral.digit_decimal hx
    have hstep := le_foldl_digits l (w * 10 + CString.digit x)
    rw [List.foldl_cons] at hlt
    rw [List.cons_append, readWidth, if_pos hx]
    simp only [← hdigit]
    rw [if_pos (by omega), ih (fun y hy => hl y (List.mem_cons_of_mem x hy)) _ hlt]
    rfl

theorem text_digits (width : Nat) : ∀ x ∈ Numeral.text 10 0x61 width, 0x30 ≤ x ∧ x ≤ 0x39 :=
  fun _ hx => Numeral.decimal_of_digit_lt
    (Numeral.digit_lt_of_mem_text (by decide) (by decide) (Or.inl rfl) hx)

theorem text_foldl (width : Nat) : (Numeral.text 10 0x61 width).foldl
    (fun v c => v * 10 + CString.digit c) 0 = width :=
  Numeral.value_text (by decide) (by decide) (Or.inl rfl) width

theorem readWidth_text {width : Nat} (hlt : width < 2147483648) {c : UInt8}
    (hc : ¬ (c ≥ 0x30 ∧ c ≤ 0x39)) (rest : List UInt8) :
    readWidth 0 (Numeral.text 10 0x61 width ++ c :: rest) = some (width, c :: rest) := by
  have hread := readWidth_digits (text_digits width) 0 (by rwa [text_foldl]) hc rest
  rwa [text_foldl] at hread

/-- Digits that make up no `int`. -/
theorem readWidth_overlong {l : List UInt8} (hl : ∀ x ∈ l, 0x30 ≤ x ∧ x ≤ 0x39) {w : Nat}
    (hw : w < 2147483648) (hge : 2147483648 ≤ l.foldl (fun v c => v * 10 + CString.digit c) w)
    (rest : List UInt8) : readWidth w (l ++ rest) = none := by
  induction l generalizing w with
  | nil => exact absurd hge (by simpa using hw)
  | cons x l ih =>
    have hx := hl x List.mem_cons_self
    rw [List.foldl_cons, Numeral.digit_decimal hx] at hge
    rw [List.cons_append, readWidth, if_pos hx]
    dsimp only
    split
    · next hlt => exact ih (fun y hy => hl y (List.mem_cons_of_mem x hy)) hlt hge
    · rfl

theorem text_cons {width : Nat} (hw : 0 < width) : ∃ c tail,
    Numeral.text 10 0x61 width = c :: tail ∧ c ≠ 0x30 ∧ 0x30 ≤ c ∧ c ≤ 0x39 := by
  cases htext : Numeral.text 10 0x61 width with
  | nil =>
    have hvalue := text_foldl width
    rw [htext] at hvalue
    exact absurd hvalue (Nat.ne_of_lt hw)
  | cons c tail =>
    have hdigit := text_digits width c (by simp [htext])
    have hhead := Numeral.head_text_ne (b := 10) (by decide) (by decide) (Or.inl rfl)
      (n := width) (c := c) (by simp [htext])
    refine ⟨c, tail, rfl, ?_, hdigit⟩
    intro h
    exact hhead (by rw [h]; decide)

/-- Behind its zeros a conversion does not go on with a zero. -/
theorem width_cons (width : Nat) {c : UInt8} (hc : ¬ (c ≥ 0x30 ∧ c ≤ 0x39)) (rest : List UInt8) :
    ∃ c' tail, Numeral.text 10 0x61 width ++ c :: rest = c' :: tail ∧ c' ≠ 0x30 := by
  obtain rfl | hw := Nat.eq_zero_or_pos width
  · refine ⟨c, rest, by simp, ?_⟩
    intro h
    exact hc (by rw [h]; decide)
  · obtain ⟨c', tail, htext, hzero, -⟩ := text_cons hw
    exact ⟨c', _, by rw [htext, List.cons_append], hzero⟩

/-- What stands behind the `%` is a `-` or a digit. -/
theorem Opening.behind_cons {o : Opening} (ho : o ≠ bare) : ∃ c tail, o.behind = c :: tail ∧
    (c = 0x2d ∧ o.minus = true ∨ (0x30 ≤ c ∧ c ≤ 0x39) ∧ o.minus = false) := by
  obtain ⟨minus, zeros, width⟩ := o
  cases minus with
  | true => exact ⟨0x2d, _, rfl, Or.inl ⟨rfl, rfl⟩⟩
  | false =>
    cases zeros with
    | zero =>
      have hw : 0 < width := Nat.pos_of_ne_zero fun h => ho (by rw [h]; rfl)
      obtain ⟨c, tail, htext, -, hdigit⟩ := text_cons hw
      exact ⟨c, tail, by simpa [behind] using htext, Or.inr ⟨hdigit, rfl⟩⟩
    | succ n => exact ⟨0x30, _, rfl, Or.inr ⟨by decide, rfl⟩⟩

theorem digit_ne {c x : UInt8} (hc : 0x30 ≤ c ∧ c ≤ 0x39) (hx : x.toNat < 48) : c ≠ x := by
  intro h
  have hlow : 48 ≤ c.toNat := UInt8.le_iff_toNat_le.mp hc.1
  rw [h] at hlow
  omega

theorem Opening.behind_ne {c : UInt8} {o : Opening}
    (h : c = 0x2d ∧ o.minus = true ∨ (0x30 ≤ c ∧ c ≤ 0x39) ∧ o.minus = false) :
    (c ≠ 0 ∧ c ≠ 0x25) ∧ (o.minus = false → c ≠ 0x2d) := by
  rcases h with ⟨rfl, hminus⟩ | ⟨hdigit, -⟩
  · exact ⟨by decide, fun h => by rw [hminus] at h; cases h⟩
  · exact ⟨⟨digit_ne hdigit (by decide), digit_ne hdigit (by decide)⟩,
      fun _ => digit_ne hdigit (by decide)⟩

theorem Directive.spell_opening (d : Directive) :
    d.spell = 0x25 :: (d.opening.behind ++ [d.conversion]) := rfl

/-- The character behind the `%` of a directive. -/
theorem Directive.head (d : Directive) (rest : List UInt8) : ∃ c tail,
    d.opening.behind ++ d.conversion :: rest = c :: tail ∧ (c ≠ 0 ∧ c ≠ 0x25) ∧
      (d.minus = false → c ≠ 0x2d) := by
  by_cases hbare : d.opening = Opening.bare
  · obtain ⟨hminus, hzeros, hwidth⟩ := Opening.mk.inj hbare
    have hne := d.bare hminus hzeros hwidth
    refine ⟨d.conversion, rest, ?_, ⟨d.conversion_ne, hne.1⟩, fun _ => hne.2⟩
    rw [hbare]
    simp [Opening.behind, Opening.bare]
  · obtain ⟨c, tail, hcons, hc⟩ := Opening.behind_cons hbare
    exact ⟨c, _, by rw [hcons, List.cons_append], Opening.behind_ne hc⟩

theorem readFlags_of_ne {c : UInt8} (hc : c ≠ 0x2d) (tail : List UInt8) :
    readFlags (c :: tail) = (do
      let (zero, format) ← readZeros false (c :: tail)
      let (width, format) ← readWidth 0 format
      pure (⟨false, zero⟩, width, format)) := by
  unfold readFlags
  split
  next heq =>
    split at heq
    · next hcons => exact absurd (List.cons.inj hcons).1 hc
    · rw [← (Prod.mk.inj heq).1, ← (Prod.mk.inj heq).2]

/-- From behind the `%`, what follows a `-` is read like what follows none. -/
theorem readFlags_behind (o : Opening) {rest : List UInt8}
    (hrest : o = .bare → rest.head? ≠ some 0x2d) :
    readFlags (o.behind ++ rest) = (do
      let (zero, format) ← readZeros false
        (List.replicate o.zeros 0x30 ++ (Numeral.text 10 0x61 o.width ++ rest))
      let (width, format) ← readWidth 0 format
      pure (⟨o.minus, zero⟩, width, format)) := by
  cases hminus : o.minus with
  | true => simp [readFlags, Opening.behind, hminus]
  | false =>
    have hbehind : o.behind ++ rest =
        List.replicate o.zeros 0x30 ++ (Numeral.text 10 0x61 o.width ++ rest) := by
      simp [Opening.behind, hminus]
    rw [← hbehind]
    by_cases ho : o = .bare
    · subst ho
      cases rest with
      | nil => rfl
      | cons c rest => exact readFlags_of_ne (fun hc => hrest rfl (by rw [hc]; rfl)) rest
    · obtain ⟨c, tail, hcons, hc⟩ := Opening.behind_cons ho
      rw [hcons, List.cons_append, readFlags_of_ne ((Opening.behind_ne hc).2 hminus)]

theorem readFlags_opening {o : Opening} (hlt : o.width < 2147483648) {c : UInt8}
    (hc : ¬ (c ≥ 0x30 ∧ c ≤ 0x39)) (hbare : o = .bare → c ≠ 0x2d) (rest : List UInt8) :
    readFlags (o.behind ++ c :: rest) = some (o.pad, o.width, c :: rest) := by
  obtain ⟨c', tail, hcons, hc'⟩ := width_cons o.width hc rest
  have hzeros := readZeros_replicate false o.zeros hc' tail
  rw [← hcons] at hzeros
  rw [readFlags_behind o (fun ho => by simpa using hbare ho), hzeros]
  simp [readWidth_text hlt hc, Opening.pad]

/-- A width that is no `int` is not read to its end. -/
theorem readFlags_overlong {o : Opening} (hge : 2147483648 ≤ o.width) (rest : List UInt8) :
    readFlags (o.behind ++ rest) = none := by
  have hw : 0 < o.width := by omega
  have hne : o ≠ .bare := by
    rintro rfl
    exact absurd hw (by decide)
  obtain ⟨c, tail, htext, hc, -⟩ := text_cons hw
  have hzeros := readZeros_replicate false o.zeros hc (tail ++ rest)
  have hwidth := readWidth_overlong (text_digits o.width) (w := 0) (by decide)
    (by rwa [text_foldl]) rest
  rw [← List.cons_append, ← htext] at hzeros
  rw [readFlags_behind o (fun ho => absurd ho hne), hzeros]
  simp [hwidth]

theorem readFlags_spell (d : Directive) (rest : List UInt8) :
    readFlags (d.opening.behind ++ d.conversion :: rest) =
      some (d.pad, d.width, d.conversion :: rest) := by
  refine readFlags_opening d.width_lt d.not_digit ?_ rest
  intro hbare
  obtain ⟨hminus, hzeros, hwidth⟩ := Opening.mk.inj hbare
  exact (d.bare hminus hzeros hwidth).2

section Sink

variable {σ : Type} (printchar : σ → UInt8 → Option σ) (stack : Vector UInt8 printBufLen)
  (strings : Strings)

theorem print_nul (rest : List UInt8) (args : List UInt32) (pc : Nat) (out : σ) :
    print printchar strings stack (0 :: rest) args pc out = some (pc, out) := by
  rw [print.eq_def]
  simp

theorem print_stray (rest : List UInt8) (args : List UInt32) (pc : Nat) (out : σ) :
    print printchar strings stack (0x25 :: 0 :: rest) args pc out = some (pc, out) := by
  rw [print.eq_def]
  simp

theorem print_char {c : UInt8} (hc : c ≠ 0 ∧ c ≠ 0x25) (rest : List UInt8) (args : List UInt32)
    (pc : Nat) (out : σ) : print printchar strings stack (c :: rest) args pc out =
      (printchar out c).bind fun out => print printchar strings stack rest args (pc + 1) out := by
  rw [print.eq_def]
  simp [hc]

theorem print_percent (rest : List UInt8) (args : List UInt32) (pc : Nat) (out : σ) :
    print printchar strings stack (0x25 :: 0x25 :: rest) args pc out =
      (printchar out 0x25).bind fun out =>
        print printchar strings stack rest args (pc + 1) out := by
  rw [print.eq_def]
  simp

theorem print_flags {c : UInt8} (hc : c ≠ 0 ∧ c ≠ 0x25) (tail : List UInt8) (args : List UInt32)
    (pc : Nat) (out : σ) : print printchar strings stack (0x25 :: c :: tail) args pc out =
      (readFlags (c :: tail)).bind fun (pad, width, format) =>
        format.head?.bind fun conversion =>
          (convert printchar strings stack out conversion width pad args).bind
            fun (args, n, out) => print printchar strings stack format.tail args (pc + n) out := by
  rw [print.eq_def]
  have hpercent : (0x25 : UInt8) ≠ 0 := by decide
  simp only [hc.1, hc.2, hpercent, if_false, if_true]
  split
  · next hread =>
    rw [hread]
    rfl
  · next hread =>
    cases hflags : readFlags (c :: tail) with
    | none => rfl
    | some r =>
      obtain ⟨pad, width, format⟩ := r
      cases format with
      | nil => rfl
      | cons conversion rest => exact absurd hflags (hread pad width conversion rest)

theorem print_directive (d : Directive) (rest : List UInt8) (args : List UInt32) (pc : Nat)
    (out : σ) : print printchar strings stack (d.spell ++ rest) args pc out =
      (d.render strings args).bind fun (text, args) =>
        (printString printchar text (pc, out)).bind fun (pc, out) =>
          print printchar strings stack rest args pc out := by
  obtain ⟨c, tail, hcons, hc, -⟩ := d.head rest
  have hspell : d.spell ++ rest = 0x25 :: c :: tail := by
    rw [← hcons]
    simp [d.spell_opening]
  rw [hspell, print_flags printchar stack strings hc, ← hcons, readFlags_spell]
  simp only [Option.bind_some, List.head?_cons, List.tail_cons, convert_eq,
    printString_add printchar _ pc]
  simp [Option.map_eq_bind, Option.bind_assoc]

/-- `print` prints what pieces stand for and goes on behind them. -/
theorem print_pieces (pieces : List Piece) (rest : List UInt8) (args : List UInt32) (pc : Nat)
    (out : σ) :
    print printchar strings stack (pieces.flatMap Piece.spell ++ rest) args pc out =
      (render strings pieces args).bind fun text =>
        (printString printchar text (pc, out)).bind fun (pc, out) =>
          print printchar strings stack rest (args.drop (argCount pieces)) pc out := by
  induction pieces generalizing args pc out with
  | nil => rfl
  | cons piece pieces ih =>
    rw [List.flatMap_cons, List.append_assoc]
    cases piece with
    | char c hc =>
      simp only [Piece.spell, List.cons_append, List.nil_append,
        print_char printchar stack strings hc, ih, render, argCount]
      cases render strings pieces args with
      | none => simp
      | some text => simp [printString, Option.bind_assoc]
    | percent =>
      simp only [Piece.spell, List.cons_append, List.nil_append, print_percent, ih, render,
        argCount]
      cases render strings pieces args with
      | none => simp
      | some text => simp [printString, Option.bind_assoc]
    | directive d =>
      simp only [Piece.spell, print_directive, ih, render, argCount]
      cases hd : d.render strings args with
      | none => rfl
      | some r =>
        obtain ⟨text, args'⟩ := r
        obtain rfl := d.render_args strings hd
        simp only [bind, Option.bind_some, List.drop_drop]
        cases render strings pieces _ with
        | none => simp
        | some rest => simp [printString_append, Option.bind_assoc]

/-- `print` prints what the pieces of its format stand for, whatever lies behind the format and on
its stack. -/
theorem print_eq (f : Format) (rest : List UInt8) (args : List UInt32) (out : σ) :
    print printchar strings stack (f.spell ++ 0 :: rest) args 0 out =
      (render strings f.pieces args).bind fun text =>
        (text.foldlM printchar out).map fun out => (text.length, out) := by
  have hend (args : List UInt32) (pc : Nat) (out : σ) : print printchar strings stack
      ((if f.stray then [0x25] else []) ++ 0 :: rest) args pc out = some (pc, out) := by
    cases f.stray
    · exact print_nul ..
    · exact print_stray ..
  simp only [Format.spell, List.append_assoc, print_pieces, hend, printString_eq, Nat.zero_add]
  simp

end Sink

end Printf

end UsbSpdt
