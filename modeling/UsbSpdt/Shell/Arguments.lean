import UsbSpdt.Shell.Tokenizer

/-!
# What a line is read as

The tokenizer without its buffer: the arguments of a line by recursion over its bytes. A NUL that
an argument has been closed with cuts the buffer short for `strlen`, and from then on a quoted
string is only found when it is empty.
-/

namespace UsbSpdt

/-- The argument that is being accumulated. A quoted string right behind its bytes ends it in the
buffer, though the tokenizer goes on with it until a blank. -/
inductive OpenWord where
  | none
  | growing (w : List UInt8)
  | ended (w : List UInt8)
  deriving DecidableEq, Repr

namespace OpenWord

def args : OpenWord → List (List UInt8)
  | none => []
  | growing w | ended w => [w]

def grow (c : UInt8) : OpenWord → OpenWord
  | none => growing [c]
  | growing w => growing (w ++ [c])
  | ended w => ended w

def endWith (more : List UInt8) : OpenWord → OpenWord
  | growing w => ended (w ++ more)
  | word => word

end OpenWord

/-- What the bytes so far have been read as; `cut` once the buffer holds a NUL of the tokenizer. -/
structure Reading where
  args : List (List UInt8)
  word : OpenWord
  cut : Bool
  deriving DecidableEq, Repr

/-- The arguments of a line, the quote that is not closed, and whether a word is still open behind
a quoted string that the line ends with. -/
structure Outcome where
  args : List (List UInt8)
  unmatched : Option UInt8
  overrun : Bool
  deriving DecidableEq, Repr

/-- Where the tokenizer looks for the closing quote. -/
def closingIndex (cut : Bool) (quote : UInt8) (rest : List UInt8) : Nat :=
  if cut then 0 else rest.idxOf quote

/-- The string that a quote opens in front of `rest`. -/
def quoted (cut : Bool) (quote : UInt8) (rest : List UInt8) : Option (List UInt8) :=
  if rest[closingIndex cut quote rest]? = some quote then
    some (rest.take (closingIndex cut quote rest))
  else none

namespace Reading

def start : Reading := ⟨[], .none, false⟩

def quote (r : Reading) (c : UInt8) (content : List UInt8) : Reading :=
  ⟨r.args ++ [content], r.word.endWith (c :: content), true⟩

def blank (r : Reading) : Reading :=
  ⟨r.args ++ r.word.args, .none, r.cut || r.word ≠ .none⟩

def letter (r : Reading) (c : UInt8) : Reading := { r with word := r.word.grow c }

/-- The end of the line, `past` of the bytes to skip lying behind it. -/
def finish (r : Reading) (past : Nat) : Outcome :=
  ⟨r.args ++ r.word.args, none, r.word ≠ .none ∧ past ≠ 0⟩

end Reading

/-- The line from here, the first `skip` bytes being passed by. The last byte of a `short` line is
not looked at, except in search of a quote. -/
def read (short : Bool) : Nat → Reading → List UInt8 → Outcome
  | skip, r, [] => r.finish skip
  | skip + 1, r, _ :: rest => read short skip r rest
  | 0, r, c :: rest =>
    if short ∧ rest = [] then r.finish 0
    else if isQuote c then
      match quoted r.cut c rest with
      | some content => read short (content.length + 2) (r.quote c content) rest
      | none => ⟨r.args, some c, false⟩
    else if isBlank c then read short 0 r.blank rest
    else read short 0 (r.letter c) rest

/-- What `cmdParse` reads `text` as. -/
def readLine (text : List UInt8) : Outcome := read (text.length = commandSize) 0 .start text

theorem quoted_eq_some {cut : Bool} {quote : UInt8} {rest content : List UInt8}
    (h : quoted cut quote rest = some content) :
    content.length = closingIndex cut quote rest ∧ rest[content.length]? = some quote ∧
      content = rest.take content.length := by
  rw [quoted] at h
  split at h
  case isTrue hget =>
    have hlt := (List.getElem?_eq_some_iff.mp hget).1
    cases h
    rw [List.length_take_of_le (Nat.le_of_lt hlt)]
    exact ⟨rfl, hget, rfl⟩
  case isFalse => cases h

theorem quoted_eq_none {cut : Bool} {quote : UInt8} {rest : List UInt8}
    (h : quoted cut quote rest = none) : rest[closingIndex cut quote rest]? ≠ some quote := by
  rw [quoted] at h
  split at h
  case isTrue => cases h
  case isFalse hget => exact hget

section Bytes

variable {r : Reading} {c : UInt8} {rest : List UInt8}

theorem read_letter (hquote : isQuote c = false) (hblank : isBlank c = false) :
    read false 0 r (c :: rest) = read false 0 (r.letter c) rest := by
  rw [read, if_neg (fun hand => Bool.noConfusion hand.1), if_neg (by rw [hquote]; decide),
    if_neg (by rw [hblank]; decide)]

theorem read_blank (hquote : isQuote c = false) (hblank : isBlank c = true) :
    read false 0 r (c :: rest) = read false 0 r.blank rest := by
  rw [read, if_neg (fun hand => Bool.noConfusion hand.1), if_neg (by rw [hquote]; decide),
    if_pos hblank]

theorem read_quoted (hquote : isQuote c = true) {content : List UInt8}
    (h : quoted r.cut c rest = some content) :
    read false 0 r (c :: rest) = read false (content.length + 2) (r.quote c content) rest := by
  rw [read, if_neg (fun hand => Bool.noConfusion hand.1), if_pos hquote, h]

theorem read_unmatched (hquote : isQuote c = true) (h : quoted r.cut c rest = none) :
    read false 0 r (c :: rest) = ⟨r.args, some c, false⟩ := by
  rw [read, if_neg (fun hand => Bool.noConfusion hand.1), if_pos hquote, h]

end Bytes

/-! ### How much a line can hold -/

namespace OpenWord

theorem length_args_le (word : OpenWord) : word.args.length ≤ 1 := by
  cases word with
  | none => exact Nat.zero_le _
  | growing w => exact Nat.le_refl _
  | ended w => exact Nat.le_refl _

theorem length_args_grow (c : UInt8) (word : OpenWord) : (word.grow c).args.length = 1 := by
  cases word <;> rfl

theorem length_args_endWith (more : List UInt8) (word : OpenWord) :
    (word.endWith more).args.length = word.args.length := by
  cases word <;> rfl

end OpenWord

/-- Every argument takes two bytes, its last one being the blank or the byte that is skipped behind
it; only the end of the line saves that one. -/
theorem read_args_le (short : Bool) (rest : List UInt8) (skip : Nat) (r : Reading) :
    2 * (read short skip r rest).args.length ≤
      2 * r.args.length + r.word.args.length + 1 + (rest.length - skip) := by
  have hword := r.word.length_args_le
  induction rest generalizing skip r with
  | nil =>
    rw [read, Reading.finish, List.length_append]
    omega
  | cons c rest ih =>
    cases skip with
    | succ skip =>
      have hrest := ih skip r hword
      rw [read, List.length_cons]
      omega
    | zero =>
      rw [read, List.length_cons]
      split
      case isTrue =>
        rw [Reading.finish, List.length_append]
        omega
      split
      case isTrue =>
        cases hq : quoted r.cut c rest with
        | none =>
          dsimp only
          omega
        | some content =>
          have hlt := (List.getElem?_eq_some_iff.mp (quoted_eq_some hq).2.1).1
          have hargs : (r.quote c content).args.length = r.args.length + 1 := List.length_append
          have hopen : (r.quote c content).word.args.length = r.word.args.length :=
            OpenWord.length_args_endWith (c :: content) r.word
          have hrest := ih (content.length + 2) (r.quote c content) (OpenWord.length_args_le _)
          dsimp only
          omega
      split
      case isTrue =>
        have hargs : r.blank.args.length = r.args.length + r.word.args.length :=
          List.length_append
        have hopen : r.blank.word.args.length = 0 := rfl
        have hrest := ih 0 r.blank (Nat.zero_le _)
        omega
      case isFalse =>
        have hargs : (r.letter c).args.length = r.args.length := rfl
        have hopen : (r.letter c).word.args.length = 1 := OpenWord.length_args_grow c r.word
        have hrest := ih 0 (r.letter c) (OpenWord.length_args_le _)
        omega

/-- A line of less than 64 bytes has at most 32 arguments. -/
theorem readLine_args_le {text : List UInt8} (h : text.length < 64) :
    (readLine text).args.length ≤ debugShellMaxargs := by
  have hbound := read_args_le (text.length = commandSize) text 0 .start
  have hmax : debugShellMaxargs = 32 := rfl
  have hstart : Reading.start.args.length = 0 ∧ Reading.start.word.args.length = 0 := ⟨rfl, rfl⟩
  rw [readLine]
  omega

/-- Only a line that ends in a quote has a word open behind its end. -/
theorem read_overrun {short : Bool} {rest : List UInt8} {skip : Nat} {r : Reading}
    (hskip : skip ≤ rest.length) (h : (read short skip r rest).overrun = true) :
    ∃ q, rest.getLast? = some q ∧ isQuote q = true := by
  induction rest generalizing skip r with
  | nil =>
    rw [Nat.le_zero.mp hskip] at h
    simp [read, Reading.finish] at h
  | cons c rest ih =>
    have hlast : (∃ q, rest.getLast? = some q ∧ isQuote q = true) →
        ∃ q, (c :: rest).getLast? = some q ∧ isQuote q = true := by
      rintro ⟨q, hq, hquote⟩
      exact ⟨q, by rw [List.getLast?_cons, hq]; rfl, hquote⟩
    cases skip with
    | succ skip =>
      rw [read] at h
      exact hlast (ih (Nat.le_of_succ_le_succ hskip) h)
    | zero =>
      rw [read] at h
      split at h
      case isTrue => simp [Reading.finish] at h
      split at h
      case isTrue hquote =>
        cases hq : quoted r.cut c rest with
        | none =>
          rw [hq] at h
          cases h
        | some content =>
          rw [hq] at h
          obtain ⟨-, hat, -⟩ := quoted_eq_some hq
          have hlt := (List.getElem?_eq_some_iff.mp hat).1
          by_cases hend : content.length + 2 ≤ rest.length
          case pos => exact hlast (ih hend h)
          case neg =>
            -- its closing quote is the last byte
            have hindex : rest.length - 1 = content.length := by omega
            exact hlast ⟨c, by rw [List.getLast?_eq_getElem?, hindex, hat], hquote⟩
      split at h
      case isTrue => exact hlast (ih (Nat.zero_le _) h)
      case isFalse => exact hlast (ih (Nat.zero_le _) h)

end UsbSpdt
