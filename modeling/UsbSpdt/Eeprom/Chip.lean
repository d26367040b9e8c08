import UsbSpdt.Library.Bits
import UsbSpdt.Library.CyclicMemory

/-!
# The 93C66 serial EEPROM

The memory chip as its driver sees it: 512 bytes behind a bit stream. After chip select rises it
ignores zeros until a start bit, then takes a 2-bit opcode and a 9-bit address; WRITE takes 8 more
bits, READ shifts out a dummy zero and then the byte. An instruction takes effect when chip select
falls, and one that changes memory only while writing is enabled.
-/

namespace UsbSpdt

abbrev Image := Fin 512 → UInt8

instance neZero_512 : NeZero (512 : Nat) := ⟨by decide⟩

inductive ChipInstr where
  | writeEnable
  | eraseAll
  | erase (address : Nat)
  | write (address : Nat) (data : UInt8)
  | other

/-- Where the chip stands in its bit stream; received bits are kept in the order they came. -/
inductive ChipPhase where
  | standby
  | selected
  | instruction (bits : List Bool)
  | dataIn (address : Nat) (bits : List Bool)
  | dataOut (bits : List Bool)
  | complete (i : ChipInstr)

structure Chip where
  cells : Image
  writeEnabled : Bool
  phase : ChipPhase

namespace Chip

def powerUp (cells : Image) : Chip := ⟨cells, false, .standby⟩

def decode (cells : Image) : List Bool → ChipPhase
  | true :: false :: address =>
    .dataOut (false :: Bits.ofNat 8 (CyclicMemory.read cells (Bits.toNat address)).toNat)
  | false :: true :: address => .dataIn (Bits.toNat address) []
  | true :: true :: address => .complete (.erase (Bits.toNat address))
  | false :: false :: true :: true :: _ => .complete .writeEnable
  | false :: false :: true :: false :: _ => .complete .eraseAll
  | _ => .complete .other

/-- A rising clock edge with `din` on the input line. -/
def clock (c : Chip) (din : Bool) : Chip :=
  match c.phase with
  | .standby => c
  | .selected => if din then { c with phase := .instruction [] } else c
  | .instruction bits =>
    if bits.length < 10 then { c with phase := .instruction (bits ++ [din]) }
    else { c with phase := decode c.cells (bits ++ [din]) }
  | .dataIn address bits =>
    if bits.length < 7 then { c with phase := .dataIn address (bits ++ [din]) }
    else { c with
      phase := .complete (.write address (UInt8.ofNat (Bits.toNat (bits ++ [din])))) }
  | .dataOut bits => { c with phase := .dataOut bits.tail }
  | .complete _ => c

/-- The output line, pulled down when the chip does not drive it. -/
def dout (c : Chip) : Bool :=
  match c.phase with
  | .dataOut (b :: _) => b
  | _ => false

/-- The bits that a master samples while it shifts `bits` in. -/
def shift : Chip → List Bool → List Bool × Chip
  | c, [] => ([], c)
  | c, b :: bits => ((c.dout :: ((c.clock b).shift bits).1), ((c.clock b).shift bits).2)

def select (c : Chip) : Chip :=
  match c.phase with
  | .standby => { c with phase := .selected }
  | _ => c

def apply (c : Chip) : ChipInstr → Chip
  | .writeEnable => { c with writeEnabled := true }
  | .eraseAll => if c.writeEnabled then { c with cells := fun _ => 0xFF } else c
  | .erase address =>
    if c.writeEnabled then { c with cells := CyclicMemory.write c.cells address 0xFF } else c
  | .write address data =>
    if c.writeEnabled then { c with cells := CyclicMemory.write c.cells address data } else c
  | .other => c

def deselect (c : Chip) : Chip :=
  match c.phase with
  | .complete i => { c.apply i with phase := .standby }
  | _ => { c with phase := .standby }

/-! ### Whole transactions -/

theorem shift_append (c : Chip) (xs ys : List Bool) :
    c.shift (xs ++ ys) =
      ((c.shift xs).1 ++ ((c.shift xs).2.shift ys).1, ((c.shift xs).2.shift ys).2) := by
  induction xs generalizing c with
  | nil => rfl
  | cons b xs ih => simp only [List.cons_append, shift, ih]

theorem shift_append_snd (c : Chip) (xs ys : List Bool) :
    (c.shift (xs ++ ys)).2 = ((c.shift xs).2.shift ys).2 := by
  rw [shift_append]

theorem shift_zeros (cells : Image) (en : Bool) (n : Nat) :
    ((⟨cells, en, .selected⟩ : Chip).shift (List.replicate n false)).2 =
      ⟨cells, en, .selected⟩ := by
  induction n with
  | zero => rfl
  | succ n ih => exact ih

/-- A chip that collects `n + 1` bits, whatever it is collecting. -/
theorem shift_collect (cells : Image) (en : Bool) (collecting done : List Bool → ChipPhase)
    {n : Nat}
    (hclock : ∀ bits b, (⟨cells, en, collecting bits⟩ : Chip).clock b =
      ⟨cells, en, if bits.length < n then collecting (bits ++ [b]) else done (bits ++ [b])⟩)
    (bits xs : List Bool) (h : bits.length + xs.length = n + 1) (hlt : bits.length < n + 1) :
    ((⟨cells, en, collecting bits⟩ : Chip).shift xs).2 = ⟨cells, en, done (bits ++ xs)⟩ := by
  induction xs generalizing bits with
  | nil => simp only [List.length_nil] at h; omega
  | cons b xs ih =>
    simp only [List.length_cons] at h
    have hlen : (bits ++ [b]).length = bits.length + 1 := by simp
    by_cases hlast : bits.length < n
    · have hc := hclock bits b
      rw [if_pos hlast] at hc
      rw [shift, hc, ih (bits ++ [b]) (by omega) (by omega), List.append_assoc]
      rfl
    · have hxs : xs = [] := List.eq_nil_of_length_eq_zero (by omega)
      have hc := hclock bits b
      rw [if_neg hlast] at hc
      subst hxs
      rw [shift, hc]
      rfl

theorem shift_instruction (cells : Image) (en : Bool) (bits xs : List Bool)
    (h : bits.length + xs.length = 11) (hlt : bits.length < 11) :
    ((⟨cells, en, .instruction bits⟩ : Chip).shift xs).2 =
      ⟨cells, en, decode cells (bits ++ xs)⟩ := by
  refine shift_collect cells en .instruction (decode cells) ?_ bits xs h hlt
  intro bits b
  simp only [clock]
  split <;> rfl

theorem shift_dataIn (cells : Image) (en : Bool) (address : Nat) (bits xs : List Bool)
    (h : bits.length + xs.length = 8) (hlt : bits.length < 8) :
    ((⟨cells, en, .dataIn address bits⟩ : Chip).shift xs).2 =
      ⟨cells, en, .complete (.write address (UInt8.ofNat (Bits.toNat (bits ++ xs))))⟩ := by
  refine shift_collect cells en (.dataIn address)
    (fun bits => .complete (.write address (UInt8.ofNat (Bits.toNat bits)))) ?_ bits xs h hlt
  intro bits b
  simp only [clock]
  split <;> rfl

theorem shift_dataOut (cells : Image) (en : Bool) (bits rest xs : List Bool)
    (h : xs.length = bits.length) :
    (⟨cells, en, .dataOut (bits ++ rest)⟩ : Chip).shift xs =
      (bits, ⟨cells, en, .dataOut rest⟩) := by
  induction xs generalizing bits with
  | nil =>
    have hbits : bits = [] := List.eq_nil_of_length_eq_zero h.symm
    subst hbits
    rfl
  | cons x xs ih =>
    cases bits with
    | nil => simp at h
    | cons b bits =>
      have hc : (⟨cells, en, .dataOut (b :: bits ++ rest)⟩ : Chip).clock x =
          ⟨cells, en, .dataOut (bits ++ rest)⟩ := rfl
      rw [shift, hc, ih bits (by simpa using h)]
      rfl

theorem shift_complete (cells : Image) (en : Bool) (i : ChipInstr) (xs : List Bool) :
    ((⟨cells, en, .complete i⟩ : Chip).shift xs).2 = ⟨cells, en, .complete i⟩ := by
  induction xs with
  | nil => rfl
  | cons x xs ih => exact ih

theorem shift_selected (cells : Image) (en : Bool) (zeros : Nat) (word : List Bool)
    (h : word.length = 11) :
    ((⟨cells, en, .selected⟩ : Chip).shift (List.replicate zeros false ++ true :: word)).2 =
      ⟨cells, en, decode cells word⟩ := by
  rw [shift_append_snd, shift_zeros]
  exact shift_instruction cells en [] word (by simpa using h) (by simp)

theorem shift_write (cells : Image) (en : Bool) (address : Nat) (data : UInt8) :
    ((⟨cells, en, .selected⟩ : Chip).shift
        (Bits.ofNat 6 5 ++ Bits.ofNat 9 address ++ (Bits.ofNat 8 data.toNat ++ [false]))).2 =
      ⟨cells, en, .complete (.write (address % 512) data)⟩ := by
  have hword := shift_selected cells en 3 ([false, true] ++ Bits.ofNat 9 address) (by simp)
  have hdata := shift_dataIn cells en (address % 512) [] (Bits.ofNat 8 data.toNat) (by simp)
    (by simp)
  have hdecode : decode cells ([false, true] ++ Bits.ofNat 9 address) =
      .dataIn (address % 512) [] := congrArg (ChipPhase.dataIn · []) (Bits.toNat_ofNat 9 address)
  have hstream : Bits.ofNat 6 5 ++ Bits.ofNat 9 address =
      List.replicate 3 false ++ true :: ([false, true] ++ Bits.ofNat 9 address) := rfl
  rw [hstream, shift_append_snd, hword, hdecode, shift_append_snd, hdata, shift_complete,
    List.nil_append, Bits.toNat_ofNat, Nat.mod_eq_of_lt data.toNat_lt, UInt8.ofNat_toNat]

theorem shift_read (cells : Image) (en : Bool) (address : Nat) (b : Bool) :
    ((⟨cells, en, .selected⟩ : Chip).shift
        (Bits.ofNat 6 6 ++ Bits.ofNat 9 address ++ [b])).2 =
      ⟨cells, en, .dataOut (Bits.ofNat 8 (CyclicMemory.read cells address).toNat)⟩ := by
  have hword := shift_selected cells en 3 ([true, false] ++ Bits.ofNat 9 address) (by simp)
  have hread : CyclicMemory.read cells (Bits.toNat (Bits.ofNat 9 address)) =
      CyclicMemory.read cells address :=
    CyclicMemory.read_congr cells (by rw [Bits.toNat_ofNat]; exact Nat.mod_mod _ _)
  have hdecode : decode cells ([true, false] ++ Bits.ofNat 9 address) =
      .dataOut (false :: Bits.ofNat 8 (CyclicMemory.read cells address).toNat) := by
    rw [← hread]
    rfl
  have hstream : Bits.ofNat 6 6 ++ Bits.ofNat 9 address =
      List.replicate 3 false ++ true :: ([true, false] ++ Bits.ofNat 9 address) := rfl
  rw [hstream, shift_append_snd, hword, hdecode]
  rfl

end Chip

end UsbSpdt
