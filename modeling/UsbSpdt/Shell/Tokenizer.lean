import UsbSpdt.Library.CString

/-!
# The tokenizer of the debug shell

`cmdParse` splits its line in place: it stores the offset of every argument in `args` and a NUL
behind each of them.
-/

namespace UsbSpdt

def debugShellMaxargs : Nat := 32

def commandSize : Nat := 127

def isQuote (c : UInt8) : Bool := c = 0x22 ∨ c = 0x27

def isBlank (c : UInt8) : Bool := c = 0x20 ∨ c = 0x09

/-- A line as the buffer of `vDebugShell` can hold it. Its offsets fit in a `signed short`. -/
structure Line where
  text : List UInt8
  noNul : 0 ∉ text
  length_le : text.length ≤ 1021

/-- The line in its buffer, with whatever is left behind it. -/
def Line.memory (l : Line) (beyond : List UInt8) : List UInt8 := l.text ++ 0 :: beyond

/-- The buffer and the locals of `cmdParse`. Pointers into the buffer are offsets. -/
structure Tokenizer where
  cmdstr : List UInt8
  /-- The pointers stored so far. The first went to `args[0]`, and `argi` is their number. -/
  args : List Nat
  argstart : Option Nat
  jj : Nat
  /-- The offsets at which a NUL has been written. -/
  nuls : List Nat
  /-- The quote that a parse error reports. -/
  unmatched : Option UInt8

namespace Tokenizer

def start (cmdstr : List UInt8) : Tokenizer := ⟨cmdstr, [], none, 0, [], none⟩

def storeNul (t : Tokenizer) (i : Nat) : Tokenizer :=
  { t with cmdstr := t.cmdstr.set i 0, nuls := t.nuls ++ [i] }

def storeArg (t : Tokenizer) (p : Nat) : Tokenizer := { t with args := t.args ++ [p] }

/-- The scan for the closing quote from `kk`, with `n` bytes before `len`. -/
def closingQuote (cmdstr : List UInt8) (quote : UInt8) : Nat → Nat → Nat
  | 0, kk => kk
  | n + 1, kk => if cmdstr.getD kk 0 = quote then kk else closingQuote cmdstr quote n (kk + 1)

/-- The cases of the two quotes. -/
def swallow (t : Tokenizer) (quote : UInt8) : Tokenizer :=
  let len := CString.strlen t.cmdstr
  let kk := closingQuote t.cmdstr quote (len - (t.jj + 1)) (t.jj + 1)
  if t.cmdstr.getD kk 0 ≠ quote then
    { t with unmatched := some quote } -- ran off the end
  else
    { (t.storeNul kk).storeArg (t.jj + 1) with jj := kk + 1 }

/-- The case of a delimiter. -/
def delimit (t : Tokenizer) : Tokenizer :=
  match t.argstart with
  | some p => { (t.storeNul t.jj).storeArg p with argstart := none }
  | none => t

/-- The default case. -/
def accumulate (t : Tokenizer) : Tokenizer :=
  match t.argstart with
  | some _ => t
  | none => { t with argstart := some t.jj }

/-- The body of the loop, and its increment. -/
def step (t : Tokenizer) : Tokenizer :=
  let c := t.cmdstr.getD t.jj 0
  let t := if isQuote c then t.swallow c else if isBlank c then t.delimit else t.accumulate
  { t with jj := t.jj + 1 }

/-- The loop. It runs at most `wholeLength` times, since `jj` grows every time. -/
def scan (wholeLength : Nat) : Nat → Tokenizer → Tokenizer
  | 0, t => t
  | n + 1, t =>
    if t.jj < wholeLength ∧ t.unmatched = none then scan wholeLength n t.step else t

/-- Behind the loop, which a parse error leaves for `ERR_RET`. -/
def finish (t : Tokenizer) : Tokenizer :=
  match t.unmatched, t.argstart with
  | none, some p => (t.storeNul t.jj).storeArg p
  | _, _ => t

def argc (t : Tokenizer) : Nat := t.args.length

/-- The strings that a command finds in `args`. -/
def argv (t : Tokenizer) : List (List UInt8) :=
  (t.args.take debugShellMaxargs).map (CString.stringAt t.cmdstr)

end Tokenizer

/-- `cmdParse` up to the dispatch. -/
def tokenize (cmdstr : List UInt8) : Tokenizer :=
  let len := CString.strlen cmdstr
  let wholeLength := if len = commandSize then commandSize - 1 else len
  (Tokenizer.scan wholeLength wholeLength (.start cmdstr)).finish

namespace Tokenizer

/-- The scan stops at the next quote, or at the end of the bytes that it looks at. -/
theorem closingQuote_eq {cmdstr l tail : List UInt8} {quote : UInt8} {kk : Nat}
    (h : cmdstr.drop kk = l ++ tail) :
    closingQuote cmdstr quote l.length kk = kk + l.idxOf quote := by
  induction l generalizing kk with
  | nil => rfl
  | cons c l ih =>
    have hget : cmdstr.getD kk 0 = c := by
      rw [List.getD_eq_getElem?_getD, ← List.head?_drop, h]
      rfl
    have hdrop : cmdstr.drop (kk + 1) = l ++ tail := by
      rw [← List.tail_drop, h]
      rfl
    rw [List.length_cons, closingQuote, hget]
    by_cases hc : c = quote
    case pos => rw [if_pos hc, hc, List.idxOf_cons_self, Nat.add_zero]
    case neg =>
      rw [if_neg hc, ih hdrop, List.idxOf_cons, beq_false_of_ne hc, cond_false]
      omega

theorem scan_of_le {wholeLength : Nat} {t : Tokenizer} (h : wholeLength ≤ t.jj) (n : Nat) :
    scan wholeLength n t = t := by
  cases n with
  | zero => rfl
  | succ n => rw [scan, if_neg (by omega)]

theorem scan_of_unmatched {t : Tokenizer} (h : t.unmatched ≠ none) (wholeLength n : Nat) :
    scan wholeLength n t = t := by
  cases n with
  | zero => rfl
  | succ n => rw [scan, if_neg fun hand => h hand.2]

theorem scan_of_lt {wholeLength : Nat} {t : Tokenizer} (h : t.jj < wholeLength)
    (hun : t.unmatched = none) (n : Nat) :
    scan wholeLength (n + 1) t = scan wholeLength n t.step := by
  rw [scan, if_pos ⟨h, hun⟩]

end Tokenizer

end UsbSpdt
