import UsbSpdt.Shell.InPlace

/-!
# Quoted arguments

Arguments written bare or in quotes, with single spaces between them. Once an argument has been
closed, `strlen` sees a line that ends there: a quoted string behind it is found only when it is
empty.
-/

namespace UsbSpdt

/-- An argument as it is written: bare, or between two quotes that it does not contain. -/
inductive Written where
  | bare (w : List UInt8) (nonempty : w ≠ [])
      (plain : ∀ c ∈ w, c ≠ 0 ∧ isBlank c = false ∧ isQuote c = false)
  | quoted (q : UInt8) (content : List UInt8) (quote : isQuote q = true) (noNul : 0 ∉ content)
      (noQuote : q ∉ content)

namespace Written

def arg : Written → List UInt8
  | bare w _ _ => w
  | quoted _ content _ _ _ => content

def isQuoted : Written → Bool
  | bare .. => false
  | quoted .. => true

def text : Written → List UInt8
  | bare w _ _ => w
  | quoted q content _ _ _ => q :: content ++ [q]

/-- The arguments as one line. -/
def line (args : List Written) : List UInt8 := [0x20].intercalate (args.map text)

theorem line_singleton (a : Written) : line [a] = a.text := List.intercalate_singleton

theorem line_cons_cons (a b : Written) (args : List Written) :
    line (a :: b :: args) = a.text ++ 0x20 :: line (b :: args) := by
  rw [line, List.map_cons, List.map_cons, List.intercalate_cons_cons, List.append_assoc]
  rfl

theorem noNul_text (a : Written) : 0 ∉ a.text := by
  cases a with
  | bare w _ plain => exact fun hmem => (plain 0 hmem).1 rfl
  | quoted q content quote noNul noQuote =>
    have hq : q ≠ 0 := by
      rintro rfl
      exact absurd quote (by decide)
    simp [text, noNul, Ne.symm hq]

theorem noNul_line (args : List Written) : 0 ∉ line args := by
  induction args with
  | nil => exact List.not_mem_nil
  | cons a args ih =>
    cases args with
    | nil =>
      rw [line_singleton]
      exact a.noNul_text
    | cons b args =>
      rw [line_cons_cons, List.mem_append, List.mem_cons, not_or, not_or]
      exact ⟨a.noNul_text, by decide, ih⟩

/-- Whether the tokenizer finds the argument, once the buffer is cut or before. -/
def Found (cut : Bool) (a : Written) : Prop := cut = true → a.isQuoted = true → a.arg = []

end Written

theorem read_plain {w : List UInt8} (hw : ∀ c ∈ w, isBlank c = false ∧ isQuote c = false)
    (v : List UInt8) (done : List (List UInt8)) (cut : Bool) (rest : List UInt8) :
    read false 0 ⟨done, .growing v, cut⟩ (w ++ rest) =
      read false 0 ⟨done, .growing (v ++ w), cut⟩ rest := by
  induction w generalizing v with
  | nil => simp
  | cons c w ih =>
    obtain ⟨hblank, hquote⟩ := hw c (List.mem_cons_self ..)
    have hnext := ih (fun c' hc' => hw c' (List.mem_cons_of_mem c hc')) (v ++ [c])
    rw [List.append_assoc, List.singleton_append] at hnext
    rw [List.cons_append, read_letter hquote hblank]
    exact hnext

theorem read_skip (short : Bool) (r : Reading) (skip : Nat) (l rest : List UInt8) :
    read short (l.length + skip) r (l ++ rest) = read short skip r rest := by
  induction l with
  | nil => rw [List.length_nil, Nat.zero_add, List.nil_append]
  | cons c l ih =>
    rw [List.length_cons, Nat.succ_add_eq_add_succ, Nat.add_succ, List.cons_append, read, ih]

theorem quoted_found {q : UInt8} {content : List UInt8} (hq : q ∉ content) {cut : Bool}
    (h : cut = true → content = []) (rest : List UInt8) :
    quoted cut q (content ++ q :: rest) = some content := by
  have hindex : closingIndex cut q (content ++ q :: rest) = content.length := by
    rw [closingIndex]
    split
    case isTrue hcut => rw [h hcut, List.length_nil]
    case isFalse => rw [List.idxOf_append_of_notMem hq, List.idxOf_cons_self, Nat.add_zero]
  rw [quoted, hindex, if_pos (by simp), List.take_left]

theorem quoted_lost {q : UInt8} {content : List UInt8} (hq : q ∉ content) (h : content ≠ [])
    (rest : List UInt8) : quoted true q (content ++ q :: rest) = none := by
  cases content with
  | nil => exact absurd rfl h
  | cons c content =>
    have hc : c ≠ q := fun hc => hq (hc ▸ List.mem_cons_self ..)
    rw [quoted, if_neg]
    simpa [closingIndex] using hc

namespace Written

variable {done : List (List UInt8)} {cut : Bool}

/-- A bare argument is open behind its text, a quoted one done. -/
theorem read_bare {w : List UInt8} (nonempty : w ≠ [])
    (plain : ∀ c ∈ w, c ≠ 0 ∧ isBlank c = false ∧ isQuote c = false) (rest : List UInt8) :
    read false 0 ⟨done, .none, cut⟩ (w ++ rest) = read false 0 ⟨done, .growing w, cut⟩ rest := by
  cases w with
  | nil => exact absurd rfl nonempty
  | cons c w =>
    obtain ⟨-, hblank, hquote⟩ := plain c (List.mem_cons_self ..)
    have hrest := read_plain (fun c' hc' => (plain c' (List.mem_cons_of_mem c hc')).2) [c] done cut
      rest
    rw [List.cons_append, read_letter hquote hblank]
    exact hrest

theorem read_found {q : UInt8} {content : List UInt8} (quote : isQuote q = true)
    (noQuote : q ∉ content) (h : cut = true → content = []) (rest : List UInt8) :
    read false 0 ⟨done, .none, cut⟩ (q :: content ++ [q] ++ rest) =
      read false 1 ⟨done ++ [content], .none, true⟩ rest := by
  have hskip := read_skip false ⟨done ++ [content], .none, true⟩ 1 (content ++ [q]) rest
  rw [List.length_append, List.length_singleton, Nat.add_assoc, List.append_assoc,
    List.singleton_append] at hskip
  rw [List.append_assoc, List.singleton_append, List.cons_append,
    read_quoted quote (quoted_found noQuote h rest)]
  exact hskip

theorem read_lost {q : UInt8} {content : List UInt8} (quote : isQuote q = true)
    (noQuote : q ∉ content) (h : content ≠ []) (rest : List UInt8) :
    read false 0 ⟨done, .none, true⟩ (q :: content ++ [q] ++ rest) = ⟨done, some q, false⟩ := by
  rw [List.append_assoc, List.singleton_append, List.cons_append,
    read_unmatched quote (quoted_lost noQuote h rest)]

/-- An argument that is found, with a space behind it. -/
theorem read_text_space {a : Written} (h : a.Found cut) (rest : List UInt8) :
    read false 0 ⟨done, .none, cut⟩ (a.text ++ 0x20 :: rest) =
      read false 0 ⟨done ++ [a.arg], .none, true⟩ rest := by
  cases a with
  | bare w nonempty plain =>
    rw [text, read_bare nonempty plain, read_blank (by decide) (by decide)]
    simp [Reading.blank, OpenWord.args, arg]
  | quoted q content quote noNul noQuote =>
    rw [text, read_found quote noQuote (fun hcut => h hcut rfl), read]
    rfl

/-- The last argument of the line, when it is found. -/
theorem read_text_end {a : Written} (h : a.Found cut) :
    read false 0 ⟨done, .none, cut⟩ a.text = ⟨done ++ [a.arg], none, false⟩ := by
  rw [← List.append_nil a.text]
  cases a with
  | bare w nonempty plain =>
    rw [text, read_bare nonempty plain, read]
    simp [Reading.finish, OpenWord.args, arg]
  | quoted q content quote noNul noQuote =>
    rw [text, read_found quote noQuote (fun hcut => h hcut rfl), read]
    simp [Reading.finish, OpenWord.args, arg]

theorem read_text_lost {a : Written} (h : ¬ a.Found cut) (done : List (List UInt8))
    (rest : List UInt8) : (read false 0 ⟨done, .none, cut⟩ (a.text ++ rest)).unmatched ≠ none := by
  cases a with
  | bare w nonempty plain => exact absurd (fun _ hquoted => Bool.noConfusion hquoted) h
  | quoted q content quote noNul noQuote =>
    have hcut : cut = true := by
      refine Classical.byContradiction fun hne => h fun hcut => absurd hcut hne
    have hne : content ≠ [] := fun hnil => h fun _ _ => hnil
    rw [hcut, text, read_lost quote noQuote hne]
    exact Option.some_ne_none q

/-- A written line is read back when all its arguments are found. -/
theorem read_line_iff (a : Written) (args : List Written) (done : List (List UInt8)) (cut : Bool) :
    ((read false 0 ⟨done, .none, cut⟩ (line (a :: args))).unmatched = none ∧
        (read false 0 ⟨done, .none, cut⟩ (line (a :: args))).args =
          done ++ (a :: args).map arg) ↔
      a.Found cut ∧ ∀ b ∈ args, b.Found true := by
  induction args generalizing a done cut with
  | nil =>
    rw [line_singleton]
    by_cases ha : a.Found cut
    case pos =>
      rw [read_text_end ha]
      exact iff_of_true ⟨rfl, rfl⟩ ⟨ha, fun b hb => absurd hb List.not_mem_nil⟩
    case neg =>
      have hlost := read_text_lost ha done []
      rw [List.append_nil] at hlost
      exact iff_of_false (fun hread => hlost hread.1) fun hfound => ha hfound.1
  | cons b args ih =>
    rw [line_cons_cons]
    by_cases ha : a.Found cut
    case pos =>
      have hrest := ih b (done ++ [a.arg]) true
      rw [List.append_assoc, List.singleton_append] at hrest
      rw [read_text_space ha, List.forall_mem_cons]
      exact hrest.trans ⟨fun hfound => ⟨ha, hfound⟩, fun hfound => hfound.2⟩
    case neg =>
      have hlost := read_text_lost ha done (0x20 :: line (b :: args))
      exact iff_of_false (fun hread => hlost hread.1) fun hfound => ha hfound.1

end Written

/-- Written arguments are read back exactly when every quoted one after the first is empty. -/
theorem quoting_undone_iff (args : List Written) (hne : args ≠ [])
    (hargs : args.length ≤ debugShellMaxargs) (hline : (Written.line args).length < commandSize)
    (beyond : List UInt8) :
    ((tokenize (Written.line args ++ 0 :: beyond)).unmatched = none ∧
        (tokenize (Written.line args ++ 0 :: beyond)).argv = args.map Written.arg ∧
        (tokenize (Written.line args ++ 0 :: beyond)).argc = args.length) ↔
      ∀ b ∈ args.tail, b.isQuoted = true → b.arg = [] := by
  have h127 : commandSize = 127 := rfl
  let l : Line := ⟨Written.line args, Written.noNul_line args, by omega⟩
  have hread : readLine l.text = read false 0 ⟨[], .none, false⟩ (Written.line args) := by
    have hshort : ¬ (Written.line args).length = commandSize := by omega
    rw [readLine, decide_eq_false hshort]
    rfl
  obtain ⟨a, rest, rfl⟩ := List.exists_cons_of_ne_nil hne
  have hiff := Written.read_line_iff a rest [] false
  have hfirst : a.Found false := fun hcut => Bool.noConfusion hcut
  rw [← hread, List.nil_append] at hiff
  change ((tokenize (l.memory beyond)).unmatched = none ∧ (tokenize (l.memory beyond)).argv = _ ∧
    (tokenize (l.memory beyond)).argc = _) ↔ _
  have hws : ((a :: rest).map Written.arg).length ≤ debugShellMaxargs := by
    rwa [List.length_map]
  rw [← List.length_map Written.arg, handed_iff l beyond hws, (tokenize_agrees l beyond).unmatched]
  refine hiff.trans ⟨fun hfound b hb hquoted => hfound.2 b hb rfl hquoted, fun hempty => ?_⟩
  exact ⟨hfirst, fun b hb _ hquoted => hempty b hb hquoted⟩

/-- `"hv" 1`. -/
def Written.hvOn : List Written :=
  [.quoted 0x22 [0x68, 0x76] (by decide) (by decide) (by decide),
    .bare [0x31] (by decide) (by simp [isBlank, isQuote])]

theorem quoting_undone_hv :
    (tokenize (Written.line Written.hvOn ++ [0])).argv = [[0x68, 0x76], [0x31]] :=
  ((quoting_undone_iff Written.hvOn (by decide) (by decide) (by decide) []).mpr (by decide)).2.1

/-- In `a "b c"` the quoted string is not found. -/
theorem quoted_string_lost :
    ¬ ∀ (args : List Written) (beyond : List UInt8), args ≠ [] →
      args.length ≤ debugShellMaxargs → (Written.line args).length < commandSize →
      (tokenize (Written.line args ++ 0 :: beyond)).unmatched = none ∧
        (tokenize (Written.line args ++ 0 :: beyond)).argv = args.map Written.arg ∧
        (tokenize (Written.line args ++ 0 :: beyond)).argc = args.length := by
  intro h
  have hread := h [.bare [0x61] (by decide) (by simp [isBlank, isQuote]),
    .quoted 0x22 [0x62, 0x20, 0x63] (by decide) (by decide) (by decide)] [] (by simp) (by decide)
    (by decide)
  exact absurd hread.1 (by decide)

end UsbSpdt
