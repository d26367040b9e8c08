import UsbSpdt.Library.Numeral
import UsbSpdt.Printf.Print

/-!
# What a format means

A format as the pieces that it is spelled with, and the text that the pieces stand for.
-/

namespace UsbSpdt

namespace Printf

/-- The letters of conversions that take an argument. -/
inductive Kind where
  | string | signed | unsigned | hex | hexUpper | char
  deriving DecidableEq

namespace Kind

def letter : Kind → UInt8
  | string => 0x73
  | signed => 0x64
  | unsigned => 0x75
  | hex => 0x78
  | hexUpper => 0x58
  | char => 0x63

def all : List Kind := [string, signed, unsigned, hex, hexUpper, char]

def ofByte (c : UInt8) : Option Kind := all.find? (·.letter = c)

theorem letter_of_ofByte {c : UInt8} {k : Kind} (h : ofByte c = some k) : k.letter = c := by
  simpa using List.find?_some h

theorem letter_ne_of_ofByte {c : UInt8} (h : ofByte c = none) (k : Kind) : c ≠ k.letter := by
  have hall : k ∈ all := by
    cases k <;> decide
  simpa [eq_comm] using List.find?_eq_none.mp h k hall

end Kind

/-- `%`, perhaps `-`, any number of zeros, a width, and the character of the conversion. -/
structure Directive where
  minus : Bool
  zeros : Nat
  width : Nat
  conversion : UInt8
  width_lt : width < 2147483648
  conversion_ne : conversion ≠ 0
  not_digit : ¬ (conversion ≥ 0x30 ∧ conversion ≤ 0x39)
  /-- `%%` is no directive, and a `-` behind the `%` is a flag. -/
  bare : minus = false → zeros = 0 → width = 0 → conversion ≠ 0x25 ∧ conversion ≠ 0x2d

inductive Piece where
  | char (c : UInt8) (ordinary : c ≠ 0 ∧ c ≠ 0x25)
  | percent
  | directive (d : Directive)

/-- The pieces of a format, which may end with a `%` of its own. -/
structure Format where
  pieces : List Piece
  stray : Bool

namespace Directive

variable (d : Directive)

def flags : List UInt8 := (if d.minus then [0x2d] else []) ++ List.replicate d.zeros 0x30

def spell : List UInt8 := 0x25 :: d.flags ++ Numeral.text 10 0x61 d.width ++ [d.conversion]

def pad : Pad := ⟨d.minus, d.zeros ≠ 0⟩

end Directive

/-- What stands in front of the character of a conversion: `%`, perhaps `-`, zeros and a width. -/
@[ext]
structure Opening where
  minus : Bool
  zeros : Nat
  width : Nat

namespace Opening

/-- Only the `%`. -/
def bare : Opening := ⟨false, 0, 0⟩

variable (o : Opening)

def behind : List UInt8 :=
  (if o.minus then [0x2d] else []) ++ List.replicate o.zeros 0x30 ++ Numeral.text 10 0x61 o.width

def spell : List UInt8 := 0x25 :: o.behind

def pad : Pad := ⟨o.minus, o.zeros ≠ 0⟩

end Opening

def Directive.opening (d : Directive) : Opening := ⟨d.minus, d.zeros, d.width⟩

def Piece.spell : Piece → List UInt8
  | char c _ => [c]
  | percent => [0x25, 0x25]
  | directive d => d.spell

def Format.spell (f : Format) : List UInt8 :=
  f.pieces.flatMap Piece.spell ++ if f.stray then [0x25] else []

/-! ### Meaning -/

/-- A text in a field: blanks or zeros before it, or behind it. -/
def Pad.field (pad : Pad) (width : Nat) (text : List UInt8) : List UInt8 :=
  let padchar := if pad.zero then 0x30 else 0x20
  if pad.right then text.rightpad width padchar else text.leftpad width padchar

/-- A number without its sign. -/
def numeral (b : Nat) (letbase : UInt8) (n : Nat) : List UInt8 :=
  if n = 0 then [0x30] else Numeral.text b letbase n

/-- A negative number in a field: zeros before it stand behind its sign. -/
def Pad.signedField (pad : Pad) (width : Nat) (i : Int32) : List UInt8 :=
  let digits := numeral 10 0x61 i.toInt.natAbs
  if 0 ≤ i.toInt then pad.field width digits
  else if width ≠ 0 ∧ pad.zero then 0x2d :: pad.field (width - 1) digits
  else pad.field width (0x2d :: digits)

def Kind.render (strings : Strings) (pad : Pad) (width : Nat) (a : UInt32) : Kind → List UInt8
  | string => pad.field width (if a ≠ 0 then strings.string a else nullText)
  | signed => pad.signedField width a.toInt32
  | unsigned => pad.field width (numeral 10 0x61 a.toNat)
  | hex => pad.field width (numeral 16 0x61 a.toNat)
  | hexUpper => pad.field width (numeral 16 0x41 a.toNat)
  | char => pad.field width (if a.toUInt8 = 0 then [] else [a.toUInt8])

/-- The least number has no negation. -/
def Kind.Meaningful (a : UInt32) (k : Kind) : Prop := ¬ (k = signed ∧ a.toInt32 = Int32.minValue)

instance (a : UInt32) (k : Kind) : Decidable (k.Meaningful a) :=
  inferInstanceAs (Decidable (¬ _))

variable (strings : Strings)

/-- The text of a directive, with the arguments behind its own. -/
def Directive.render (d : Directive) (args : List UInt32) : Option (List UInt8 × List UInt32) :=
  match Kind.ofByte d.conversion, args with
  | none, args => some ([], args)
  | some _, [] => none
  | some k, a :: args =>
    if k.Meaningful a then some (k.render strings d.pad d.width a, args) else none

def render : List Piece → List UInt32 → Option (List UInt8)
  | [], _ => some []
  | .char c _ :: pieces, args => (render pieces args).map (c :: ·)
  | .percent :: pieces, args => (render pieces args).map (0x25 :: ·)
  | .directive d :: pieces, args => do
    let (text, args) ← d.render strings args
    (render pieces args).map (text ++ ·)

/-- How many arguments are taken. -/
def argCount : List Piece → Nat
  | [] => 0
  | .directive d :: pieces => (if (Kind.ofByte d.conversion).isSome then 1 else 0) + argCount pieces
  | _ :: pieces => argCount pieces

theorem Directive.render_args {d : Directive} {args args' : List UInt32} {text : List UInt8}
    (h : d.render strings args = some (text, args')) :
    args' = args.drop (if (Kind.ofByte d.conversion).isSome then 1 else 0) := by
  unfold render at h
  split at h
  case h_1 args hkind => simp_all
  case h_2 => cases h
  case h_3 k a args hkind =>
    split at h
    · simp_all
    · cases h

/-! ### No text has a NUL -/

theorem Pad.zero_notMem_field (pad : Pad) (width : Nat) {text : List UInt8} (h : 0 ∉ text) :
    0 ∉ pad.field width text := by
  have hpad : (0 : UInt8) ≠ if pad.zero then 0x30 else 0x20 := by
    cases pad.zero <;> decide
  unfold field
  dsimp only
  split
  · simp [List.rightpad, h, List.mem_replicate, hpad]
  · simp [List.leftpad, h, List.mem_replicate, hpad]

theorem zero_notMem_numeral {b : Nat} (hb : 2 ≤ b) (hb36 : b ≤ 36) {letbase : UInt8}
    (hl : Numeral.Letters letbase) (n : Nat) : 0 ∉ numeral b letbase n := by
  unfold numeral
  split
  · decide
  · exact Numeral.zero_notMem_text hb hb36 hl n

theorem Pad.zero_notMem_signedField (pad : Pad) (width : Nat) (i : Int32) :
    0 ∉ pad.signedField width i := by
  have hdigits := zero_notMem_numeral (b := 10) (by decide) (by decide) (Or.inl rfl) i.toInt.natAbs
  have hsign : (0 : UInt8) ≠ 0x2d := by decide
  unfold signedField
  dsimp only
  split
  · exact pad.zero_notMem_field width hdigits
  · split
    · exact List.not_mem_cons_of_ne_of_not_mem hsign (pad.zero_notMem_field (width - 1) hdigits)
    · exact pad.zero_notMem_field width (List.not_mem_cons_of_ne_of_not_mem hsign hdigits)

theorem Kind.zero_notMem_render (pad : Pad) (width : Nat) (a : UInt32) (k : Kind) :
    0 ∉ k.render strings pad width a := by
  cases k with
  | string =>
    apply pad.zero_notMem_field
    split
    · exact strings.noNul a
    · decide
  | signed => exact pad.zero_notMem_signedField width a.toInt32
  | unsigned =>
    exact pad.zero_notMem_field width (zero_notMem_numeral (by decide) (by decide) (Or.inl rfl) _)
  | hex =>
    exact pad.zero_notMem_field width (zero_notMem_numeral (by decide) (by decide) (Or.inl rfl) _)
  | hexUpper =>
    exact pad.zero_notMem_field width (zero_notMem_numeral (by decide) (by decide) (Or.inr rfl) _)
  | char =>
    apply pad.zero_notMem_field
    split
    · decide
    · next hc => simpa using Ne.symm hc

theorem zero_notMem_render {pieces : List Piece} {args : List UInt32} {text : List UInt8}
    (h : render strings pieces args = some text) : 0 ∉ text := by
  induction pieces generalizing args text with
  | nil =>
    cases h
    decide
  | cons piece pieces ih =>
    cases piece with
    | char c hc =>
      obtain ⟨rest, hrest, rfl⟩ := Option.map_eq_some_iff.mp h
      exact List.not_mem_cons_of_ne_of_not_mem (Ne.symm hc.1) (ih hrest)
    | percent =>
      obtain ⟨rest, hrest, rfl⟩ := Option.map_eq_some_iff.mp h
      exact List.not_mem_cons_of_ne_of_not_mem (by decide) (ih hrest)
    | directive d =>
      obtain ⟨⟨front, args'⟩, hfront, hmap⟩ := Option.bind_eq_some_iff.mp h
      obtain ⟨rest, hrest, rfl⟩ := Option.map_eq_some_iff.mp hmap
      refine not_or.mpr ⟨?_, ih hrest⟩ ∘ List.mem_append.mp
      unfold Directive.render at hfront
      split at hfront
      · cases hfront
        decide
      · cases hfront
      · next k a _ _ =>
        split at hfront
        · cases hfront
          exact k.zero_notMem_render strings d.pad d.width a
        · cases hfront

end Printf

end UsbSpdt
