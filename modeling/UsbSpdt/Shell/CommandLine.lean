import UsbSpdt.Shell.Dispatch
import UsbSpdt.Shell.InPlace
import UsbSpdt.Shell.Session

/-!
# From the keys to the command

The three parts of the shell together: what is typed at the prompt is edited, split in the buffer
and dispatched.
-/

namespace UsbSpdt

namespace Tokenizer

theorem length_step (t : Tokenizer) : t.step.cmdstr.length = t.cmdstr.length := by
  rw [step]
  dsimp only
  split
  · rw [swallow]
    dsimp only
    split
    · rfl
    · exact List.length_set
  · split
    · rw [delimit]
      split
      · exact List.length_set
      · rfl
    · rw [accumulate]
      split
      · rfl
      · rfl

theorem length_scan (wholeLength n : Nat) (t : Tokenizer) :
    (scan wholeLength n t).cmdstr.length = t.cmdstr.length := by
  induction n generalizing t with
  | zero => rfl
  | succ n ih =>
    rw [scan]
    split
    · rw [ih, length_step]
    · rfl

theorem length_finish (t : Tokenizer) : t.finish.cmdstr.length = t.cmdstr.length := by
  rw [finish]
  split
  · exact List.length_set
  · rfl

end Tokenizer

theorem length_tokenize (cmdstr : List UInt8) :
    (tokenize cmdstr).cmdstr.length = cmdstr.length := by
  rw [tokenize, Tokenizer.length_finish, Tokenizer.length_scan]
  rfl

variable {σ : Type} (tables : List (List (DispatchEntry σ)))

/-- `cmdParse` on the buffer of `vDebugShell`, which it leaves split. -/
def shellParse (s : ShellState σ) (line : LineBuffer) : ShellState σ × LineBuffer :=
  ((cmdParse tables line.bytes s).state,
    ⟨(tokenize line.bytes).cmdstr, by rw [length_tokenize, line.length_eq]⟩)

/-- A line is dispatched with the arguments that it is read as, at most 32 of them in `args`. -/
theorem cmdParse_line (l : Line) (beyond : List UInt8) (s : ShellState σ)
    (h : (readLine l.text).unmatched = none) :
    cmdParse tables (l.memory beyond) s =
      dispatch tables (readLine l.text).args.length
        { s with argv := (readLine l.text).args.take debugShellMaxargs } := by
  have hunmatched := (tokenize_agrees l beyond).unmatched
  rw [h] at hunmatched
  rw [cmdParse, hunmatched, argv_eq, argc_eq]

/-- What an orderly line is edited to is a line for the tokenizer. -/
def editedLine (typed : List UInt8) (hnul : 0 ∉ typed)
    (hord : LineEdit.Orderly erases 1022 typed) : Line where
  text := LineEdit.edit erases typed
  noNul := fun hmem => hnul (LineEdit.mem_of_mem_edit hmem)
  length_le := Nat.le_of_lt_succ hord.length_edit_lt

/-- A line typed at the prompt runs the command that it is read as. -/
theorem typed_line_dispatched (line : LineBuffer) (s : ShellState σ)
    (passed : List (List UInt8)) {typed : List UInt8} (hcr : 0x0d ∉ typed) (hnul : 0 ∉ typed)
    (hord : LineEdit.Orderly erases 1022 typed)
    (hread : (readLine (LineEdit.edit erases typed)).unmatched = none) :
    ((typed ++ [0x0d]).foldl (DebugShell.rx (shellParse tables)) (.prompt line s passed)).world =
      (dispatch tables (readLine (LineEdit.edit erases typed)).args.length
        { s with
          argv := (readLine (LineEdit.edit erases typed)).args.take debugShellMaxargs }).state := by
  obtain ⟨left, beyond, hbytes, hrun⟩ :=
    DebugShell.foldl_line (shellParse tables) line s passed hcr hnul hord
  have hline := cmdParse_line tables (editedLine typed hnul hord) beyond s hread
  rw [Line.memory] at hline
  rw [hrun]
  change (cmdParse tables left.bytes s).state = _
  rw [hbytes]
  exact congrArg Dispatch.state hline

end UsbSpdt
