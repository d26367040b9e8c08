import UsbSpdt.Library.CString

/-!
# Formatted output

`printchar`, `prints`, `printi` and `print` of `printf-stdarg.c`, over any place where the
characters go. There is no result where the C code has none: for a read behind the bytes of the
format, an argument that is not there, a store in front of `print_buf`, a width that is no `int`,
and `-i` for the least `i`.
-/

namespace UsbSpdt

/-- The strings in memory by their addresses. -/
structure Strings where
  string : UInt32 → List UInt8
  noNul : ∀ p, 0 ∉ string p

def Strings.none : Strings := ⟨fun _ => [], fun _ => List.not_mem_nil⟩

namespace Printf

/-- `PAD_RIGHT` and `PAD_ZERO`. -/
structure Pad where
  right : Bool
  zero : Bool

def printBufLen : Nat := 12

/-- `-i`. -/
def negate (i : Int32) : Option Int32 := if i = Int32.minValue then none else some (-i)

/-- The character of the digit `t`. -/
def digitChar (letbase : UInt8) (t : UInt32) : UInt8 :=
  let t := if t ≥ 10 then t + (letbase.toUInt32 - 48 - 10) else t
  (t + 48).toUInt8

/-- `while (u)`, with the index of the character stored last. -/
def storeDigits (b : UInt32) (letbase : UInt8) :
    Nat → UInt32 → Vector UInt8 printBufLen → Option (Nat × Vector UInt8 printBufLen)
  | 0, u, buf => if u = 0 then some (0, buf) else none
  | s + 1, u, buf =>
    if u = 0 then some (s + 1, buf)
    else storeDigits b letbase s (u / b) (buf.setIfInBounds s (digitChar letbase (u % b)))

/-- `while (*format == '0')`. -/
def readZeros (zero : Bool) : List UInt8 → Option (Bool × List UInt8)
  | [] => none
  | c :: format => if c = 0x30 then readZeros true format else some (zero, c :: format)

/-- The loop over the digits of the width. -/
def readWidth (width : Nat) : List UInt8 → Option (Nat × List UInt8)
  | [] => none
  | c :: format =>
    if c ≥ 0x30 ∧ c ≤ 0x39 then
      let width := width * 10 + (c.toNat - 0x30)
      if width < 2147483648 then readWidth width format else none
    else some (width, c :: format)

/-- From behind the `%` to the character of the conversion, which stays in the format. -/
def readFlags (format : List UInt8) : Option (Pad × Nat × List UInt8) := do
  let (right, format) :=
    match format with
    | 0x2d :: format => (true, format)
    | _ => (false, format)
  let (zero, format) ← readZeros false format
  let (width, format) ← readWidth 0 format
  pure (⟨right, zero⟩, width, format)

section Sink

variable {σ : Type} (printchar : σ → UInt8 → Option σ)

/-- `for (; width > 0; --width)`. -/
def printPad (padchar : UInt8) : Nat → Nat × σ → Option (Nat × σ)
  | 0, r => some r
  | width + 1, (pc, out) => do
    let out ← printchar out padchar
    printPad padchar width (pc + 1, out)

/-- `for (; *string; ++string)`. -/
def printString : List UInt8 → Nat × σ → Option (Nat × σ)
  | [], r => some r
  | c :: string, (pc, out) => do
    let out ← printchar out c
    printString string (pc + 1, out)

def prints (out : σ) (string : List UInt8) (width : Nat) (pad : Pad) : Option (Nat × σ) := do
  let padchar := if 0 < width ∧ pad.zero then 0x30 else 0x20
  let width :=
    if 0 < width then if string.length ≥ width then 0 else width - string.length else width
  let r ← if pad.right then some (0, out) else printPad printchar padchar width (0, out)
  let r ← printString printchar string r
  if pad.right then printPad printchar padchar width r else some r

/-- `stack` is what `print_buf` holds at first. -/
def printi (stack : Vector UInt8 printBufLen) (out : σ) (i : UInt32) (b : UInt32) (sg : Bool)
    (width : Nat) (pad : Pad) (letbase : UInt8) : Option (Nat × σ) :=
  if i = 0 then
    let printBuf := (stack.setIfInBounds 0 0x30).setIfInBounds 1 0
    prints printchar out (CString.stringAt printBuf.toList 0) width pad
  else do
    let neg := sg ∧ b = 10 ∧ i.toInt32 < 0
    let u ← if neg then (negate i.toInt32).map Int32.toUInt32 else some i
    let printBuf := stack.setIfInBounds (printBufLen - 1) 0
    let (s, printBuf) ← storeDigits b letbase (printBufLen - 1) u printBuf
    if neg then
      if width ≠ 0 ∧ pad.zero then do
        let out ← printchar out 0x2d
        let (pc, out) ← prints printchar out (CString.stringAt printBuf.toList s) (width - 1) pad
        pure (pc + 1, out)
      else
        match s with
        | 0 => none
        | s + 1 =>
          let printBuf := printBuf.setIfInBounds s 0x2d
          prints printchar out (CString.stringAt printBuf.toList s) width pad
    else prints printchar out (CString.stringAt printBuf.toList s) width pad

variable (strings : Strings) (stack : Vector UInt8 printBufLen)

/-- `va_arg(args, int)`. -/
def vaArg : List UInt32 → Option (UInt32 × List UInt32)
  | [] => none
  | a :: args => some (a, args)

def nullText : List UInt8 := [0x28, 0x6e, 0x75, 0x6c, 0x6c, 0x29]

/-- What is done for the character of a conversion, with the arguments behind its own. -/
def convert (out : σ) (conversion : UInt8) (width : Nat) (pad : Pad) (args : List UInt32) :
    Option (List UInt32 × Nat × σ) :=
  if conversion = 0x73 then do
    let (s, args) ← vaArg args
    let r ← prints printchar out (if s ≠ 0 then strings.string s else nullText) width pad
    pure (args, r)
  else if conversion = 0x64 then do
    let (i, args) ← vaArg args
    let r ← printi printchar stack out i 10 true width pad 0x61
    pure (args, r)
  else if conversion = 0x78 then do
    let (i, args) ← vaArg args
    let r ← printi printchar stack out i 16 false width pad 0x61
    pure (args, r)
  else if conversion = 0x58 then do
    let (i, args) ← vaArg args
    let r ← printi printchar stack out i 16 false width pad 0x41
    pure (args, r)
  else if conversion = 0x75 then do
    let (i, args) ← vaArg args
    let r ← printi printchar stack out i 10 false width pad 0x61
    pure (args, r)
  else if conversion = 0x63 then do
    let (c, args) ← vaArg args
    let r ← prints printchar out (CString.stringAt [c.toUInt8, 0] 0) width pad
    pure (args, r)
  else some (args, 0, out)

theorem readZeros_suffix {zero zero' : Bool} {format rest : List UInt8}
    (h : readZeros zero format = some (zero', rest)) : rest <:+ format := by
  induction format generalizing zero with
  | nil => cases h
  | cons c format ih =>
    rw [readZeros] at h
    split at h
    · exact (ih h).trans (List.suffix_cons ..)
    · simp only [Option.some.injEq, Prod.mk.injEq] at h
      exact h.2 ▸ List.suffix_rfl

theorem readWidth_suffix {width width' : Nat} {format rest : List UInt8}
    (h : readWidth width format = some (width', rest)) : rest <:+ format := by
  induction format generalizing width with
  | nil => cases h
  | cons c format ih =>
    rw [readWidth] at h
    dsimp only at h
    split at h
    · split at h
      · exact (ih h).trans (List.suffix_cons ..)
      · cases h
    · simp only [Option.some.injEq, Prod.mk.injEq] at h
      exact h.2 ▸ List.suffix_rfl

theorem readFlags_suffix {format rest : List UInt8} {pad : Pad} {width : Nat}
    (h : readFlags format = some (pad, width, rest)) : rest <:+ format := by
  unfold readFlags at h
  simp only [Option.bind_eq_bind, Option.bind_eq_some_iff, Option.pure_def, Option.some.injEq,
    Prod.mk.injEq, Prod.exists] at h
  obtain ⟨zero, afterZeros, hzeros, width', rest', hwidth, -, -, rfl⟩ := h
  refine (readWidth_suffix hwidth).trans ((readZeros_suffix hzeros).trans ?_)
  split
  · exact List.suffix_cons ..
  · exact List.suffix_rfl

/-- The loop over the format, of which the list holds the bytes that may be read. -/
def print (format : List UInt8) (args : List UInt32) (pc : Nat) (out : σ) : Option (Nat × σ) :=
  match format with
  | [] => none
  | c :: format =>
    if c = 0 then some (pc, out)
    else if c = 0x25 then
      match format with
      | [] => none
      | c' :: format' =>
        if c' = 0 then some (pc, out)
        else if c' = 0x25 then do
          let out ← printchar out c'
          print format' args (pc + 1) out
        else
          match _h : readFlags (c' :: format') with
          | some (pad, width, conversion :: rest) => do
            let (args, n, out) ← convert printchar strings stack out conversion width pad args
            print rest args (pc + n) out
          | _ => none
    else do
      let out ← printchar out c
      print format args (pc + 1) out
  termination_by format.length
  decreasing_by
    · simp only [List.length_cons]
      omega
    · have := (readFlags_suffix _h).length_le
      simp only [List.length_cons] at this ⊢
      omega
    · simp

end Sink

end Printf

end UsbSpdt
