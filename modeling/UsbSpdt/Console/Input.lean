import Mathlib.Data.List.Basic

/-!
# Console input

`_read` of `syscalls.c`. While the queue `UARTinQ` is set up it waits for every byte; before that it
takes what `Board_UARTGetChar` has. The loop variable starts at one and is what is returned, so the
count of a read that comes to its end is one too many, and a read that meets the end of the input
reports nothing of what it has stored.
-/

namespace UsbSpdt

namespace ConsoleInput

def eof : Int := -1

/-- `Board_UARTGetChar` and what it leaves. The characters are unsigned, so that none is `EOF`. -/
def boardUARTGetChar : List UInt8 → Int × List UInt8
  | [] => (eof, [])
  | inch :: ready => (inch.toNat, ready)

/-- The locals of `_read`, what it has stored, and the input that is left. -/
structure Reading where
  todo : Int
  stored : List UInt8
  input : List UInt8

def Reading.start (input : List UInt8) : Reading := ⟨1, [], input⟩

def Reading.store (s : Reading) (byte : UInt8) (input : List UInt8) : Reading :=
  ⟨s.todo + 1, s.stored ++ [byte], input⟩

structure Result where
  returned : Int
  stored : List UInt8
  rest : List UInt8

/-- The loop over `xQueueReceive`, with `n` rounds to go. It has no result when a byte is awaited
that never comes. -/
def readQueue : Nat → Reading → Option Result
  | 0, s => some ⟨s.todo, s.stored, s.input⟩
  | n + 1, s =>
    match s.input with
    | [] => none
    | rxin :: input => readQueue n (s.store rxin input)

/-- The loop over `Board_UARTGetChar`, with `n` rounds to go. -/
def readChars : Nat → Reading → Result
  | 0, s => ⟨s.todo, s.stored, s.input⟩
  | n + 1, s =>
    let (inchar, input) := boardUARTGetChar s.input
    if inchar = eof then ⟨0, s.stored, input⟩ else readChars n (s.store (UInt8.ofInt inchar) input)

/-- Where `_read` takes its bytes from: those that ever come through the queue, or those that are
ready before the input ends. -/
inductive Source where
  | uartInQ (arrivals : List UInt8)
  | chars (ready : List UInt8)

def Source.bytes : Source → List UInt8
  | .uartInQ arrivals => arrivals
  | .chars ready => ready

def read (source : Source) (len : Int) : Option Result :=
  if len = 0 then some ⟨0, [], source.bytes⟩
  else
    match source with
    | .uartInQ arrivals => readQueue len.toNat (.start arrivals)
    | .chars ready => some (readChars len.toNat (.start ready))

theorem readQueue_eq (n : Nat) (s : Reading) : readQueue n s =
    if n ≤ s.input.length then some ⟨s.todo + n, s.stored ++ s.input.take n, s.input.drop n⟩
    else none := by
  induction n generalizing s with
  | zero => simp [readQueue]
  | succ n ih =>
    rw [readQueue]
    cases hinput : s.input with
    | nil => rfl
    | cons rxin input =>
      dsimp only
      rw [ih, Reading.store]
      simp [Int.add_assoc, Int.add_comm 1]

theorem char_toNat (inch : UInt8) : UInt8.ofInt inch.toNat = inch := by
  have hlt := inch.toNat_lt
  have hmod : ((inch.toNat : Int) % 2 ^ 8).toNat = inch.toNat := by omega
  rw [UInt8.ofInt, hmod, UInt8.ofNat_toNat]

theorem readChars_eq (n : Nat) (s : Reading) : readChars n s =
    if n ≤ s.input.length then ⟨s.todo + n, s.stored ++ s.input.take n, s.input.drop n⟩
    else ⟨0, s.stored ++ s.input, []⟩ := by
  induction n generalizing s with
  | zero => simp [readChars]
  | succ n ih =>
    rw [readChars]
    cases hinput : s.input with
    | nil => simp [boardUARTGetChar]
    | cons inch input =>
      have hchar : (inch.toNat : Int) ≠ eof := by
        rw [eof]
        omega
      rw [boardUARTGetChar]
      dsimp only
      rw [if_neg hchar, char_toNat, ih, Reading.store]
      simp [Int.add_assoc, Int.add_comm 1]

theorem read_zero (source : Source) : read source 0 = some ⟨0, [], source.bytes⟩ := rfl

theorem read_uartInQ (arrivals : List UInt8) {n : Nat} (hn : n ≠ 0) :
    read (.uartInQ arrivals) n =
      if n ≤ arrivals.length then some ⟨n + 1, arrivals.take n, arrivals.drop n⟩ else none := by
  unfold read
  rw [if_neg fun h => hn (Int.natCast_eq_zero.mp h), Int.toNat_natCast]
  dsimp only
  rw [readQueue_eq, Reading.start, Int.add_comm, List.nil_append]

theorem read_chars (ready : List UInt8) {n : Nat} (hn : n ≠ 0) :
    read (.chars ready) n = some
      (if n ≤ ready.length then ⟨n + 1, ready.take n, ready.drop n⟩ else ⟨0, ready, []⟩) := by
  unfold read
  rw [if_neg fun h => hn (Int.natCast_eq_zero.mp h), Int.toNat_natCast]
  dsimp only
  rw [readChars_eq, Reading.start, Int.add_comm, List.nil_append, List.nil_append]

/-- The queue never holds enough for the call to return. -/
def Source.Waits : Source → Nat → Prop
  | .uartInQ arrivals, len => arrivals.length < len
  | .chars _, _ => False

theorem read_eq_none_iff (source : Source) (len : Nat) :
    read source len = none ↔ source.Waits len := by
  by_cases hn : len = 0
  · subst hn
    refine iff_of_false nofun fun h => ?_
    cases source with
    | uartInQ arrivals => exact Nat.not_lt_zero _ h
    | chars ready => exact h
  · cases source with
    | uartInQ arrivals =>
      rw [read_uartInQ arrivals hn, Source.Waits, ite_eq_right_iff, ← Nat.not_le]
      constructor
      · intro h hle
        cases h hle
      · intro h hle
        exact absurd hle h
    | chars ready =>
      rw [read_chars ready hn]
      exact iff_of_false nofun id

/-- At most `len` bytes are stored, those that came first, and no others leave the input. -/
theorem read_stored {source : Source} {len : Nat} {r : Result} (h : read source len = some r) :
    r.stored.length ≤ len ∧ r.stored ++ r.rest = source.bytes := by
  by_cases hn : len = 0
  · subst hn
    cases h
    exact ⟨Nat.le_refl _, rfl⟩
  · cases source with
    | uartInQ arrivals =>
      rw [read_uartInQ arrivals hn, Option.ite_none_right_eq_some] at h
      obtain ⟨-, h⟩ := h
      cases h
      exact ⟨List.length_take_le .., List.take_append_drop ..⟩
    | chars ready =>
      rw [read_chars ready hn] at h
      cases h
      split
      case isTrue => exact ⟨List.length_take_le .., List.take_append_drop ..⟩
      case isFalse hlt => exact ⟨Nat.le_of_not_le hlt, List.append_nil _⟩

/-- A call that returns gives the number of bytes that it has stored and taken from the input. -/
def ReportsStored (source : Source) (len : Nat) : Prop :=
  ∀ r, read source len = some r → r.stored.length ≤ len ∧ r.stored ++ r.rest = source.bytes ∧
    r.returned = r.stored.length

theorem reportsStored_of_eq {source : Source} {len : Nat} {r : Result}
    (h : read source len = some r) :
    ReportsStored source len ↔ r.returned = r.stored.length := by
  constructor
  · intro hreports
    exact (hreports r h).2.2
  · intro hcount r' h'
    obtain rfl : r = r' := Option.some_inj.mp (h.symm.trans h')
    exact ⟨(read_stored h).1, (read_stored h).2, hcount⟩

/-- The count is right when no byte is asked for, and when none is ready; besides, a call that waits
for ever gives none. -/
theorem read_reports_iff (source : Source) (len : Nat) :
    ReportsStored source len ↔ len = 0 ∨ source.Waits len ∨ source = .chars [] := by
  by_cases hn : len = 0
  · subst hn
    exact iff_of_true ((reportsStored_of_eq (read_zero source)).mpr rfl) (Or.inl rfl)
  rw [or_iff_right hn]
  by_cases hwaits : source.Waits len
  · have hnone := (read_eq_none_iff source len).mpr hwaits
    refine iff_of_true (fun r h => ?_) (Or.inl hwaits)
    rw [hnone] at h
    cases h
  rw [or_iff_right hwaits]
  by_cases hle : len ≤ source.bytes.length
  · -- Every round is made, and the loop variable has gone one beyond the last.
    have hread : read source len =
        some ⟨len + 1, source.bytes.take len, source.bytes.drop len⟩ := by
      cases source with
      | uartInQ arrivals => exact (read_uartInQ arrivals hn).trans (if_pos hle)
      | chars ready => exact (read_chars ready hn).trans (congrArg some (if_pos hle))
    rw [reportsStored_of_eq hread, List.length_take_of_le hle]
    refine iff_of_false (fun h : (len + 1 : Int) = len => by omega) ?_
    rintro rfl
    exact hn (Nat.le_zero.mp hle)
  · cases source with
    | uartInQ arrivals => exact absurd (Nat.not_le.mp hle) hwaits
    | chars ready =>
      have hread : read (.chars ready) len = some ⟨0, ready, []⟩ :=
        (read_chars ready hn).trans (congrArg some (if_neg hle))
      rw [reportsStored_of_eq hread, Source.chars.injEq, ← List.length_eq_zero_iff]
      exact eq_comm.trans Int.natCast_eq_zero

/-- A byte read through the queue is counted as two, and one that is followed by the end of the
input as none. -/
theorem one_byte_miscounted :
    ¬ ReportsStored (.uartInQ [0x61]) 1 ∧ ¬ ReportsStored (.chars [0x61]) 2 :=
  ⟨fun h => absurd (h _ rfl).2.2 (by decide), fun h => absurd (h _ rfl).2.2 (by decide)⟩

end ConsoleInput

end UsbSpdt
