import UsbSpdt.Library.CString
import UsbSpdt.Shell.LineInput

/-!
# A session of the debug shell

`vDebugShell` prompts, reads a line into its one buffer, cuts off the CR LF and gives the line to
`cmdParse`, for ever. What `cmdParse` and the commands do, to the buffer too, is left open here.
-/

namespace UsbSpdt

/-- `vDebugShell` where `cmd_term_get` waits for a byte. -/
structure DebugShell (σ : Type) where
  input : LineInput
  world : σ
  /-- The strings that `cmdParse` has been called with. -/
  passed : List (List UInt8)

namespace DebugShell

variable {σ : Type}

/-- A call of `cmd_term_get` begins: index zero is below its limit. -/
def prompt (line : LineBuffer) (world : σ) (passed : List (List UInt8)) : DebugShell σ :=
  ⟨⟨line, 0, []⟩, world, passed⟩

variable (cmdParse : σ → LineBuffer → σ × LineBuffer)

def rx (sh : DebugShell σ) (rxbyte : UInt8) : DebugShell σ :=
  match TermGet.rx 1023 sh.input rxbyte with
  | .reading s => { sh with input := s }
  | .returned len s =>
    let line := s.line.set (len - 2).toNat 0
    let (world, left) := cmdParse sh.world line
    prompt left world (sh.passed ++ [CString.stringAt line.bytes 0])

end DebugShell

open DebugShell

/-- The task from its start, with the bytes that it reads. -/
def vDebugShell {σ : Type} (cmdParse : σ → LineBuffer → σ × LineBuffer) (line : LineBuffer)
    (world : σ) (input : List UInt8) : DebugShell σ :=
  input.foldl (rx cmdParse) (prompt line world [])

namespace DebugShell

variable {σ : Type} (cmdParse : σ → LineBuffer → σ × LineBuffer) {sh : DebugShell σ}
  {kept l : List UInt8} {passed : List (List UInt8)}

theorem holds_prompt (line : LineBuffer) (world : σ) :
    (prompt line world passed).input.Holds [] := LineInput.holds_fresh line []

theorem rx_edits (h : sh.input.Holds kept) (hlt : kept.length < 1022) {b : UInt8} (hb : b ≠ 0x0d)
    (hne : erases b = true → kept ≠ []) (hroom : (LineEdit.key erases kept b).length < 1022) :
    ∃ s, rx cmdParse sh b = { sh with input := s } ∧ s.Holds (LineEdit.key erases kept b) := by
  obtain ⟨s, hrx, hholds, -⟩ := TermGet.rx_reading h hlt hb hne hroom
  exact ⟨s, by rw [rx, hrx], hholds⟩

/-- An orderly line only changes the buffer. -/
theorem foldl_edits (h : sh.input.Holds kept) (hcr : 0x0d ∉ l)
    (hord : LineEdit.OrderlyFrom erases 1022 kept l) :
    ∃ s, l.foldl (rx cmdParse) sh = { sh with input := s } ∧
      s.Holds (l.foldl (LineEdit.key erases) kept) := by
  induction l generalizing sh kept with
  | nil => exact ⟨sh.input, rfl, h⟩
  | cons b l ih =>
    rw [List.mem_cons, not_or] at hcr
    obtain ⟨hlt, hne, hord⟩ := hord
    obtain ⟨s, hrx, hholds⟩ := rx_edits cmdParse h hlt (Ne.symm hcr.1) hne hord.length_lt
    have hnext : ({ sh with input := s } : DebugShell σ).input.Holds _ := hholds
    obtain ⟨s', hrest, hholds'⟩ := ih hnext hcr.2 hord
    exact ⟨s', by rw [List.foldl_cons, hrx, hrest], hholds'⟩

/-- The carriage return passes the kept text on, and the next line starts from nothing. -/
theorem rx_cr (h : sh.input.Holds kept) (hlt : kept.length < 1022) (hnul : 0 ∉ kept) :
    ∃ line : LineBuffer, ∃ beyond, line.bytes = kept ++ 0 :: beyond ∧
      rx cmdParse sh 0x0d =
        prompt (cmdParse sh.world line).2 (cmdParse sh.world line).1 (sh.passed ++ [kept]) := by
  obtain ⟨len, t, hrx, hlen, -, hline⟩ := TermGet.rx_cr h hlt
  have h2 : (2 : UInt32).toNat = 2 := rfl
  have hlen32 := len.toNat_lt
  have hindex : (len - 2).toNat = kept.length := by
    rw [UInt32.toNat_sub, h2]
    omega
  have htake : t.line.bytes.take kept.length = kept := by
    rw [hline, LineBuffer.set_bytes, LineBuffer.set_bytes, LineBuffer.set_bytes,
      List.take_set_of_le (by omega), List.take_set_of_le (by omega),
      List.take_set_of_le (Nat.le_refl _), h.text]
  have hbytes : (t.line.set (len - 2).toNat 0).bytes =
      kept ++ 0 :: t.line.bytes.drop (kept.length + 1) := by
    rw [hindex]
    exact LineBuffer.set_nul htake (by omega)
  have hstring : CString.stringAt (t.line.set (len - 2).toNat 0).bytes 0 = kept :=
    CString.stringAt_of_drop hnul hbytes
  refine ⟨_, _, hbytes, ?_⟩
  rw [rx, hrx]
  dsimp only
  rw [hstring]

/-- A line typed at the prompt is passed to `cmdParse` in the buffer, edited. -/
theorem foldl_line (line : LineBuffer) (world : σ) (passed : List (List UInt8))
    (hcr : 0x0d ∉ l) (hnul : 0 ∉ l) (hord : LineEdit.Orderly erases 1022 l) :
    ∃ left : LineBuffer, ∃ beyond, left.bytes = LineEdit.edit erases l ++ 0 :: beyond ∧
      (l ++ [0x0d]).foldl (rx cmdParse) (prompt line world passed) =
        prompt (cmdParse world left).2 (cmdParse world left).1
          (passed ++ [LineEdit.edit erases l]) := by
  obtain ⟨s, hrun, hholds⟩ := foldl_edits cmdParse (holds_prompt line world) hcr hord
  have hkept : 0 ∉ LineEdit.edit erases l := fun hmem => hnul (LineEdit.mem_of_mem_edit hmem)
  have hedited : ({ prompt line world passed with input := s } : DebugShell σ).input.Holds
      (LineEdit.edit erases l) := hholds
  rw [List.foldl_append, hrun]
  exact rx_cr cmdParse hedited hord.length_edit_lt hkept

/-- The task at the prompt, `passed` having been passed so far. -/
def AtPrompt (sh : DebugShell σ) (passed : List (List UInt8)) : Prop :=
  ∃ line world, sh = prompt line world passed

theorem AtPrompt.line (h : sh.AtPrompt passed) (hcr : 0x0d ∉ l) (hnul : 0 ∉ l)
    (hord : LineEdit.Orderly erases 1022 l) :
    ((l ++ [0x0d]).foldl (rx cmdParse) sh).AtPrompt (passed ++ [LineEdit.edit erases l]) := by
  obtain ⟨line, world, rfl⟩ := h
  obtain ⟨left, -, -, hrun⟩ := foldl_line cmdParse line world passed hcr hnul hord
  exact ⟨_, _, hrun⟩

/-- What has been passed stays passed. -/
theorem passed_kept (input : List UInt8) (sh : DebugShell σ) :
    sh.passed <+: (input.foldl (rx cmdParse) sh).passed := by
  induction input generalizing sh with
  | nil => exact List.prefix_rfl
  | cons b input ih =>
    refine List.IsPrefix.trans ?_ (ih (rx cmdParse sh b))
    rw [rx]
    split
    case h_1 => exact List.prefix_rfl
    case h_2 => exact List.prefix_append ..

/-- From the prompt, the terminated lines are passed in turn, each as it was edited. -/
theorem AtPrompt.run (h : sh.AtPrompt passed) {input : List UInt8}
    (hnul : 0 ∉ input)
    (hord : ∀ l ∈ LineEdit.terminated 0x0d input, LineEdit.Orderly erases 1022 l) :
    passed ++ (LineEdit.terminated 0x0d input).map (LineEdit.edit erases) <+:
        (input.foldl (rx cmdParse) sh).passed ∧
      (LineEdit.Orderly erases 1022 (LineEdit.unfinished 0x0d input) →
        (input.foldl (rx cmdParse) sh).passed =
          passed ++ (LineEdit.terminated 0x0d input).map (LineEdit.edit erases)) := by
  induction input using LineEdit.lines_induction (0x0d : UInt8) generalizing sh passed with
  | unfinished l hcr =>
    obtain ⟨line, world, rfl⟩ := h
    rw [LineEdit.terminated_of_notMem hcr, LineEdit.unfinished_of_notMem hcr, List.map_nil,
      List.append_nil]
    refine ⟨passed_kept cmdParse l (prompt line world passed), fun htail => ?_⟩
    obtain ⟨s, hrun, -⟩ := foldl_edits cmdParse (holds_prompt line world) hcr htail
    rw [hrun]
    rfl
  | line l rest hcr ih =>
    rw [LineEdit.terminated_append_cons hcr] at hord ⊢
    rw [List.mem_append, List.mem_cons, not_or, not_or] at hnul
    have hnext := h.line cmdParse hcr hnul.1 (hord l (List.mem_cons_self ..))
    have hrest := ih hnext hnul.2.2 fun l' hl' => hord l' (List.mem_cons_of_mem _ hl')
    rw [LineEdit.unfinished_append_cons hcr, List.append_cons, List.foldl_append, List.map_cons,
      List.append_cons]
    exact hrest

end DebugShell

/-- The shell passes the edited lines to `cmdParse`, whatever earlier lines and the commands leave
in the buffer. Nothing else is passed as long as the line being typed is orderly too. -/
theorem shell_passes_edited_lines {σ : Type} (cmdParse : σ → LineBuffer → σ × LineBuffer)
    (line : LineBuffer) (world : σ) (input : List UInt8) (hnul : 0 ∉ input)
    (hord : ∀ l ∈ LineEdit.terminated 0x0d input, LineEdit.Orderly erases 1022 l) :
    (LineEdit.terminated 0x0d input).map (LineEdit.edit erases) <+:
        (vDebugShell cmdParse line world input).passed ∧
      (LineEdit.Orderly erases 1022 (LineEdit.unfinished 0x0d input) →
        (vDebugShell cmdParse line world input).passed =
          (LineEdit.terminated 0x0d input).map (LineEdit.edit erases)) := by
  have hstart : (prompt line world []).AtPrompt [] := ⟨line, world, rfl⟩
  exact hstart.run cmdParse hnul hord

/-- `timex`, a backspace and `r`; the shorter line `hv`; and the beginning of a third line. -/
def timerThenHv : List UInt8 :=
  [0x74, 0x69, 0x6d, 0x65, 0x78, 0x08, 0x72, 0x0d, 0x68, 0x76, 0x0d, 0x73]

theorem shell_passes_hv : (vDebugShell Prod.mk .zeroed () timerThenHv).passed =
    [[0x74, 0x69, 0x6d, 0x65, 0x72], [0x68, 0x76]] :=
  (shell_passes_edited_lines Prod.mk .zeroed () timerThenHv (by decide) (by decide)).2 (by decide)

end UsbSpdt
