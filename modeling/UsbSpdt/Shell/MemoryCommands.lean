import UsbSpdt.Library.ByteMemory
import UsbSpdt.Library.Events
import UsbSpdt.Printf.Refinement
import UsbSpdt.Shell.Meaning

/-!
# The memory commands

`r8` to `w32` on memory that nothing else uses: what one of them writes, the one that reads shows,
whatever the session does in between.
-/

namespace UsbSpdt

/-- Memory beside what the firmware uses, and what the commands have printed. -/
structure Debugger where
  memory : ByteMemory
  shown : List UInt8

/-- The formats of `cmd_read`. -/
def readFormat (bits : Nat) : List UInt8 :=
  if bits = 8 then ascii "0x%02x\n" ++ [0]
  else if bits = 16 then ascii "0x%04x\n" ++ [0]
  else ascii "0x%08x\n" ++ [0]

/-! ### A number as it is shown -/

theorem strtoul_hex {l rest : List UInt8} (hl : ∀ c ∈ l, CString.digit c < 16)
    (hrest : rest.takeWhile (fun c => decide (CString.digit c < 16)) = [])
    (hlt : Numeral.value 16 l < 4294967296) :
    CString.strtoul (0x30 :: 0x78 :: (l ++ rest)) = UInt32.ofNat (Numeral.value 16 l) := by
  have hspace : (0x30 :: 0x78 :: (l ++ rest)).dropWhile CString.isSpace =
      0x30 :: 0x78 :: (l ++ rest) := rfl
  have hdigits : (l ++ rest).takeWhile (fun c => decide (CString.digit c < 16)) = l := by
    rw [List.takeWhile_append_of_pos fun c hc => decide_eq_true (hl c hc), hrest, List.append_nil]
  have hvalue : l.foldl (fun v c => v * 16 + CString.digit c) 0 = Numeral.value 16 l := rfl
  rw [CString.strtoul, hspace]
  simp [hdigits, hvalue, Nat.not_le_of_lt hlt]

namespace Printf

theorem numeral_hex (n : Nat) : (∀ c ∈ numeral 16 0x61 n, CString.digit c < 16) ∧
    Numeral.value 16 (numeral 16 0x61 n) = n := by
  unfold numeral
  split
  · next hn =>
    subst hn
    exact ⟨by simp [CString.digit], rfl⟩
  · exact ⟨fun c hc => Numeral.digit_lt_of_mem_text (by decide) (by decide) (Or.inl rfl) hc,
      Numeral.value_text (by decide) (by decide) (Or.inl rfl) n⟩

theorem leftpad_hex (width n : Nat) :
    (∀ c ∈ (numeral 16 0x61 n).leftpad width 0x30, CString.digit c < 16) ∧
      Numeral.value 16 ((numeral 16 0x61 n).leftpad width 0x30) = n := by
  obtain ⟨hdigits, hvalue⟩ := numeral_hex n
  constructor
  · intro c hc
    rw [List.leftpad, List.mem_append] at hc
    obtain hc | hc := hc
    · rw [List.eq_of_mem_replicate hc]
      decide
    · exact hdigits c hc
  · rw [List.leftpad, Numeral.value_append, Numeral.value_zeros, hvalue, Nat.zero_mul, Nat.zero_add]

/-- `%0<width>x` between `0x` and a newline. -/
def hexFormat (width : Nat) (h : width < 2147483648) : Format where
  pieces := [.char 0x30 (by decide), .char 0x78 (by decide),
    .directive ⟨false, 1, width, 0x78, h, by decide, by decide, fun _ hzeros => nomatch hzeros⟩,
    .char 0x0a (by decide)]
  stray := false

theorem render_hexFormat (strings : Strings) {width : Nat} (h : width < 2147483648) (a : UInt32) :
    render strings (hexFormat width h).pieces [a] =
      some (0x30 :: 0x78 :: ((numeral 16 0x61 a.toNat).leftpad width 0x30 ++ [0x0a])) := by
  have hkind : Kind.ofByte 0x78 = some .hex := rfl
  simp [hexFormat, render, Directive.render, hkind, Kind.Meaningful, Kind.render, Directive.pad,
    Pad.field]

end Printf

theorem readFormat_eq (bits : Nat) : ∃ width, ∃ h : width < 2147483648,
    readFormat bits = (Printf.hexFormat width h).spell ++ [0] := by
  unfold readFormat
  split
  · exact ⟨2, by decide, by decide⟩
  split
  · exact ⟨4, by decide, by decide⟩
  · exact ⟨8, by decide, by decide⟩

theorem foldlM_concat (text out : List UInt8) :
    text.foldlM (fun out c => some (out ++ [c])) out = some (out ++ text) := by
  induction text generalizing out with
  | nil => simp
  | cons c text ih => simp [ih]

/-- A number is shown so that it is read back. -/
theorem print_readFormat (strings : Strings) (stack : Vector UInt8 Printf.printBufLen)
    (bits : Nat) (a : UInt32) (out : List UInt8) :
    ∃ text, CString.strtoul text = a ∧
      Printf.print (fun out c => some (out ++ [c])) strings stack (readFormat bits) [a] 0 out =
        some (text.length, out ++ text) := by
  obtain ⟨width, h, hformat⟩ := readFormat_eq bits
  obtain ⟨hdigits, hvalue⟩ := Printf.leftpad_hex width a.toNat
  have hend : [0x0a].takeWhile (fun c => decide (CString.digit c < 16)) = [] := rfl
  have hread := strtoul_hex hdigits hend (by rw [hvalue]; exact a.toNat_lt)
  refine ⟨_, hread.trans (by rw [hvalue, UInt32.ofNat_toNat]), ?_⟩
  rw [hformat, Printf.print_eq, Printf.render_hexFormat, Option.bind_some, foldlM_concat,
    Option.map_some]

section Perform

/- `print_buf` holds `stack` at first, and a command that does not access the memory prints what
`prints` says. -/
variable (strings : Strings) (stack : Vector UInt8 Printf.printBufLen)
  (prints : Action → List UInt8)

/-- What a command does; there is no result for an access that is not aligned or that faults. -/
def perform (d : Debugger) : Action → Option Debugger
  | .peek bits a => do
    guard (a.toNat % (bits / 8) = 0)
    let val ← d.memory.load a.toNat (bits / 8)
    let (_, shown) ← Printf.print (fun out c => some (out ++ [c])) strings stack (readFormat bits)
      [UInt32.ofNat val] 0 d.shown
    pure { d with shown }
  | .poke bits a val => do
    guard (a.toNat % (bits / 8) = 0)
    let memory ← d.memory.store a.toNat (bits / 8) val.toNat
    pure { d with memory }
  | act => some { d with shown := d.shown ++ prints act }

end Perform

namespace Action

/-- An access that does not fault in the memory. -/
def Mapped (m : ByteMemory) : Action → Prop
  | peek bits a | poke bits a _ =>
    a.toNat % (bits / 8) = 0 ∧ ∀ i, a.toNat ≤ i → i < a.toNat + bits / 8 → (m i).isSome
  | _ => True

/-- The bytes from `a` on are not written. -/
def Spares (a n : Nat) : Action → Prop
  | poke bits b _ => b.toNat + bits / 8 ≤ a ∨ a + n ≤ b.toNat
  | _ => True

end Action

/-! ### Sessions -/

section Session

variable (strings : Strings) (stack : Vector UInt8 Printf.printBufLen)
  (prints : Action → List UInt8)

/-- One command, on memory that has its bytes where `m` has them. -/
theorem perform_mapped {m : ByteMemory} {d : Debugger} {act : Action} (hact : act.Mapped m)
    (hd : ∀ i, (d.memory i).isSome = (m i).isSome) :
    ∃ d', perform strings stack prints d act = some d' ∧
      (∀ i, (d'.memory i).isSome = (m i).isSome) := by
  have hload : ∀ a n, (∀ i, a ≤ i → i < a + n → (m i).isSome) →
      (d.memory.load a n).isSome := fun a n h =>
    ByteMemory.load_isSome_iff.mpr fun i hle hlt => by rw [hd i, h i hle hlt]
  cases act with
  | peek bits a =>
    obtain ⟨val, hval⟩ := Option.isSome_iff_exists.mp (hload _ _ hact.2)
    obtain ⟨text, -, hprint⟩ :=
      print_readFormat strings stack bits (UInt32.ofNat val) d.shown
    exact ⟨{ d with shown := d.shown ++ text }, by simp [perform, hact.1, hval, hprint], hd⟩
  | poke bits a val =>
    obtain ⟨memory, hstore⟩ := ByteMemory.exists_store (hload _ _ hact.2) val.toNat
    refine ⟨{ d with memory }, by simp [perform, hact.1, hstore], fun i => ?_⟩
    rw [← hd i]
    exact ByteMemory.store_isSome hstore i
  | _ => exact ⟨_, rfl, hd⟩

theorem run_mapped {m : ByteMemory} {acts : List Action} (hacts : ∀ act ∈ acts, act.Mapped m)
    {d : Debugger} (hd : ∀ i, (d.memory i).isSome = (m i).isSome) :
    ∃ d', Events.run (perform strings stack prints) d acts = some d' ∧
      (∀ i, (d'.memory i).isSome = (m i).isSome) := by
  induction acts generalizing d with
  | nil => exact ⟨d, rfl, hd⟩
  | cons act acts ih =>
    obtain ⟨d', hstep, hd'⟩ := perform_mapped strings stack prints (hacts act List.mem_cons_self) hd
    obtain ⟨d'', hrun, hd''⟩ := ih (fun act' h => hacts act' (List.mem_cons_of_mem act h)) hd'
    exact ⟨d'', by rw [Events.run_cons, hstep, Option.bind_some, hrun], hd''⟩

/-- Bytes that a command spares. -/
theorem perform_spares {a n : Nat} {d d' : Debugger} {act : Action} (hact : act.Spares a n)
    (h : perform strings stack prints d act = some d') :
    d'.memory.load a n = d.memory.load a n := by
  cases act with
  | peek bits b =>
    simp only [perform, bind, Option.bind_eq_some_iff, pure, Option.some.injEq] at h
    obtain ⟨-, -, val, -, printed, -, rfl⟩ := h
    rfl
  | poke bits b val =>
    simp only [perform, bind, Option.bind_eq_some_iff, pure, Option.some.injEq] at h
    obtain ⟨-, -, memory, hstore, rfl⟩ := h
    exact ByteMemory.load_store_disjoint hstore (Or.symm hact)
  | _ =>
    simp only [perform, Option.some.injEq] at h
    rw [← h]

theorem run_spares {a n : Nat} {acts : List Action} (hacts : ∀ act ∈ acts, act.Spares a n)
    {d d' : Debugger} (h : Events.run (perform strings stack prints) d acts = some d') :
    d'.memory.load a n = d.memory.load a n := by
  induction acts generalizing d with
  | nil =>
    obtain rfl : d = d' := by simpa using h
    rfl
  | cons act acts ih =>
    obtain ⟨d'', hstep, hrun⟩ := Events.run_cons_some h
    rw [ih (fun act' hmem => hacts act' (List.mem_cons_of_mem act hmem)) hrun,
      perform_spares strings stack prints (hacts act List.mem_cons_self) hstep]

/-- What the shell does from its start with the keys of some lines. -/
def sessionActions (line : LineBuffer) (atZero : List UInt8) (lines : List (List UInt8)) :
    List Action :=
  (vDebugShell (shellParse firmwareTables) line ⟨[], [], atZero, []⟩
    (lines.flatMap (· ++ [0x0d]))).world.memory

theorem sessionActions_eq {lines : List (List UInt8)} (h : ∀ typed ∈ lines, Entered typed)
    (line : LineBuffer) (atZero : List UInt8) :
    sessionActions line atZero lines = lines.flatMap (meaning ∘ typedWords) := by
  obtain ⟨line', s', passed', hrun, -, hmemory⟩ :=
    Entered.lines h line (s := ⟨[], [], atZero, []⟩) rfl []
  rw [sessionActions, vDebugShell, hrun]
  exact hmemory

end Session

end UsbSpdt
