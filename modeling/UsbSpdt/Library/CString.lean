import Mathlib.Data.List.TakeWhile

/-!
# Zero-terminated strings

Strings in a memory that is a list of bytes, and what a store into the memory does to them.
-/

namespace CString

/-- The string at `p`: the bytes before the next NUL. -/
def stringAt (mem : List UInt8) (p : Nat) : List UInt8 := (mem.drop p).takeWhile (· ≠ 0)

def strlen (mem : List UInt8) : Nat := (stringAt mem 0).length

theorem takeWhile_append_nul {w : List UInt8} (hw : 0 ∉ w) (rest : List UInt8) :
    (w ++ 0 :: rest).takeWhile (· ≠ 0) = w := by
  rw [List.takeWhile_append_of_pos]
  · simp
  · intro b hb
    rw [decide_eq_true_eq]
    rintro rfl
    exact hw hb

theorem stringAt_of_drop {mem w rest : List UInt8} {p : Nat} (hw : 0 ∉ w)
    (h : mem.drop p = w ++ 0 :: rest) : stringAt mem p = w := by
  rw [stringAt, h, takeWhile_append_nul hw]

theorem strlen_append_nul {w : List UInt8} (hw : 0 ∉ w) (rest : List UInt8) :
    strlen (w ++ 0 :: rest) = w.length :=
  congrArg List.length (stringAt_of_drop (p := 0) hw rfl)

theorem takeWhile_set_of_lt (p : UInt8 → Bool) (l : List UInt8) {k : Nat} (x : UInt8)
    (h : (l.takeWhile p).length < k) : (l.set k x).takeWhile p = l.takeWhile p := by
  induction l generalizing k with
  | nil => rfl
  | cons a l ih =>
    cases k with
    | zero => exact absurd h (Nat.not_lt_zero _)
    | succ k =>
      rw [List.set_cons_succ, List.takeWhile_cons, List.takeWhile_cons]
      rw [List.takeWhile_cons] at h
      split
      case isTrue ha =>
        rw [if_pos ha, List.length_cons] at h
        rw [ih (by omega)]
      case isFalse => rfl

/-- A store behind the terminator does not change a string. -/
theorem stringAt_set_behind (mem : List UInt8) {p i : Nat} (x : UInt8)
    (h : p + (stringAt mem p).length < i) : stringAt (mem.set i x) p = stringAt mem p := by
  have hp : ¬ i < p := by omega
  rw [stringAt, List.drop_set, if_neg hp]
  exact takeWhile_set_of_lt _ _ x (by rw [stringAt] at h; omega)

/-- A NUL stored at the end of `w` makes it the string. -/
theorem stringAt_set_nul {mem w : List UInt8} {p : Nat} (hw : 0 ∉ w)
    (h : (mem.drop p).take w.length = w) (hlt : p + w.length < mem.length) :
    stringAt (mem.set (p + w.length) 0) p = w := by
  have hdrop : (mem.set (p + w.length) 0).drop p =
      w ++ 0 :: (mem.drop p).drop (w.length + 1) := by
    rw [List.drop_set, if_neg (by omega), Nat.add_sub_cancel_left,
      List.set_eq_take_append_cons_drop, if_pos (by rw [List.length_drop]; omega), h]
  exact stringAt_of_drop hw hdrop

/-- A string ends at its first NUL. -/
theorem strlen_le_of_nul {mem : List UInt8} {i : Nat} (h : mem[i]? = some 0) :
    strlen mem ≤ i := by
  apply Nat.le_of_not_lt
  intro hlt
  have hpre : stringAt mem 0 <+: mem := List.takeWhile_prefix _
  have hi : i < mem.length := Nat.lt_of_lt_of_le hlt hpre.length_le
  have hget : (stringAt mem 0)[i] = 0 := by
    rw [hpre.getElem hlt, ← Option.some_inj, ← h, List.getElem?_eq_getElem hi]
  have hmem : (0 : UInt8) ∈ stringAt mem 0 := by
    rw [← hget]
    exact List.getElem_mem hlt
  exact absurd (List.mem_takeWhile_imp hmem) (by decide)

/-! ### Numbers -/

def isSpace (c : UInt8) : Bool := c = 0x20 ∨ (0x09 ≤ c ∧ c ≤ 0x0D)

/-- The value of a digit or a letter; 36 stands for every other character. -/
def digit (c : UInt8) : Nat :=
  if 0x30 ≤ c ∧ c ≤ 0x39 then c.toNat - 0x30
  else if 0x41 ≤ c ∧ c ≤ 0x5A then c.toNat - 0x37
  else if 0x61 ≤ c ∧ c ≤ 0x7A then c.toNat - 0x57
  else 36

/-- `strtoul(s, NULL, 0)` where an `unsigned long` has 32 bits. -/
def strtoul (s : List UInt8) : UInt32 :=
  let s := s.dropWhile isSpace
  let neg := s.head? = some 0x2D
  let s := if neg ∨ s.head? = some 0x2B then s.tail else s
  let hex := s.head? = some 0x30 ∧ (s[1]? = some 0x78 ∨ s[1]? = some 0x58)
  let base := if hex then 16 else if s.head? = some 0x30 then 8 else 10
  let digits := (if hex then s.drop 2 else s).takeWhile fun c => digit c < base
  let value := digits.foldl (fun v c => v * base + digit c) 0
  if value ≥ 4294967296 then 0xffffffff
  else if neg then -UInt32.ofNat value
  else UInt32.ofNat value

end CString
