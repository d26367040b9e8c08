import UsbSpdt.Console.Lossless
import UsbSpdt.Library.Terminal
import UsbSpdt.Printf.Refinement
import UsbSpdt.Shell.Meaning

/-!
# What the operator sees

The shell echoes what it reads and prompts for the next line. On a terminal wide enough for its
lines the row in which a line is entered shows the line that is passed to `cmdParse`.
-/

namespace UsbSpdt

open Console Terminal

/-- What `cmd_term_get` writes for a byte. -/
def TermGet.echo (rxbyte : UInt8) : List UInt8 :=
  if rxbyte = 0x0d then [0x0d, 0x0a]
  else if erases rxbyte then [0x08, 0x20, 0x08]
  else [rxbyte]

/-- `"%s> "` -/
def promptFormat : Printf.Format where
  pieces := [
    .directive ⟨false, 0, 0, 0x73, by decide, by decide, by decide, fun _ _ _ => by decide⟩,
    .char 0x3e (by decide), .char 0x20 (by decide)]
  stray := false

def promptText (currentContext : List UInt8) : List UInt8 := currentContext ++ [0x3e, 0x20]

theorem spell_promptFormat : promptFormat.spell = ascii "%s> " := by decide

/-- `myprintf("%s> ",currentContext)`, the context at an address other than zero. -/
theorem render_promptFormat (strings : Strings) {p : UInt32} (hp : p ≠ 0) :
    Printf.render strings promptFormat.pieces [p] = some (promptText (strings.string p)) := by
  have hkind : Printf.Kind.ofByte 0x73 = some .string := rfl
  simp [promptFormat, promptText, Printf.render, Printf.Directive.render, hkind,
    Printf.Kind.Meaningful, Printf.Kind.render, Printf.Directive.pad, Printf.Pad.field, hp,
    List.leftpad]

/-- A line that has been entered, and the lines that were printed for it. -/
structure Entry where
  context : List UInt8
  passed : List UInt8
  printed : List (List UInt8)

namespace DebugShell

/- Every handler ends what it prints with a newline. -/
variable {σ : Type} (cmdParse : σ → LineBuffer → σ × LineBuffer) (currentContext : σ → List UInt8)
  (printed : σ → LineBuffer → List (List UInt8))

/-- The line that a byte ends. -/
def taken (sh : DebugShell σ) (rxbyte : UInt8) : Option Entry :=
  match TermGet.rx 1023 sh.input rxbyte with
  | .reading _ => none
  | .returned len s =>
    let line := s.line.set (len - 2).toNat 0
    some ⟨currentContext sh.world, CString.stringAt line.bytes 0, printed sh.world line⟩

/-- What the task writes between this byte and the next. -/
def writes (sh : DebugShell σ) (rxbyte : UInt8) : List UInt8 :=
  TermGet.echo rxbyte ++
    match sh.taken currentContext printed rxbyte with
    | none => []
    | some e => e.printed.flatMap (· ++ [newline]) ++
        promptText (currentContext (sh.rx cmdParse rxbyte).world)

def entries (sh : DebugShell σ) : List UInt8 → List Entry
  | [] => []
  | b :: input => (sh.taken currentContext printed b).toList ++ entries (sh.rx cmdParse b) input

def written (sh : DebugShell σ) : List UInt8 → List UInt8
  | [] => []
  | b :: input => sh.writes cmdParse currentContext printed b ++ written (sh.rx cmdParse b) input

end DebugShell

/-- All that `vDebugShell` writes. -/
def shellOutput {σ : Type} (cmdParse : σ → LineBuffer → σ × LineBuffer)
    (currentContext : σ → List UInt8) (printed : σ → LineBuffer → List (List UInt8))
    (line : LineBuffer) (world : σ) (input : List UInt8) : List UInt8 :=
  promptText (currentContext world) ++
    (DebugShell.prompt line world []).written cmdParse currentContext printed input

/-! ### Rows -/

/-- The cells behind a line that had been typed in and were erased. -/
def erasedCells (typed : List UInt8) : Nat :=
  typed.foldl (fun n b => if erases b then n + 1 else n - 1) 0

/-- The rows of what is printed. -/
def printedRows (printed : List (List UInt8)) : List (List UInt8) :=
  ((fresh []).feed (onlcr (printed.flatMap (· ++ [newline])))).above

/-- The rows from the prompt of a line to the next. -/
def Entry.rows (e : Entry) (typed : List UInt8) : List (List UInt8) :=
  (promptText e.context ++ e.passed ++ List.replicate (erasedCells typed) blank) ::
    printedRows e.printed

/-- Printable characters and erasures, no more erasures than there is to erase. -/
structure Typed (typed : List UInt8) : Prop where
  keys : ∀ b ∈ typed, erases b = true ∨ printable b = true
  orderly : LineEdit.Orderly erases 1022 typed

theorem onlcr_of_notMem {bytes : List UInt8} (h : newline ∉ bytes) : onlcr bytes = bytes := by
  induction bytes with
  | nil => rfl
  | cons b bytes ih =>
    rw [List.mem_cons, not_or] at h
    rw [onlcr_cons, if_neg (Ne.symm h.1), ih h.2]
    rfl

theorem feed_printed (rows printed : List (List UInt8)) :
    (fresh rows).feed (onlcr (printed.flatMap (· ++ [newline]))) =
      fresh (rows ++ printedRows printed) := by
  have hfresh (rows : List (List UInt8)) : ∃ above,
      (fresh rows).feed (onlcr (printed.flatMap (· ++ [newline]))) = fresh above := by
    induction printed generalizing rows with
    | nil => exact ⟨rows, rfl⟩
    | cons text printed ih =>
      have hcrlf : onlcr [newline] = [0x0d, 0x0a] := rfl
      rw [List.flatMap_cons, onlcr_append, onlcr_append, hcrlf, feed_append, feed_append, feed_crlf]
      exact ih _
  obtain ⟨above, habove⟩ := hfresh []
  rw [fresh_feed, printedRows, habove]
  rfl

theorem echo_erase {b : UInt8} (h : erases b = true) : TermGet.echo b = [0x08, blank, 0x08] := by
  have hcr : b ≠ 0x0d := by
    rintro rfl
    exact absurd h (by decide)
  rw [TermGet.echo, if_neg hcr, if_pos h]
  rfl

theorem printable_spec {b : UInt8} (h : printable b = true) :
    b ≠ 0 ∧ b ≠ 0x0d ∧ b ≠ newline ∧ erases b = false := by
  simp only [printable, decide_eq_true_eq, UInt8.le_iff_toNat_le, UInt8.lt_iff_toNat_lt] at h
  have hne {c : UInt8} (hc : c.toNat < 0x20 ∨ 0x7f ≤ c.toNat) : b ≠ c := by
    rintro rfl
    change 0x20 ≤ b.toNat ∧ b.toNat < 0x7f at h
    omega
  refine ⟨hne (by decide), hne (by decide), hne (by decide), ?_⟩
  simp [erases, hne (c := 0x08) (by decide), hne (c := 0x7f) (by decide)]

theorem echo_printable {b : UInt8} (h : printable b = true) : TermGet.echo b = [b] := by
  obtain ⟨-, hcr, -, herases⟩ := printable_spec h
  rw [TermGet.echo, if_neg hcr, if_neg (by simp [herases])]

theorem newline_notMem_echo {typed : List UInt8}
    (hkeys : ∀ b ∈ typed, erases b = true ∨ printable b = true) :
    newline ∉ typed.flatMap TermGet.echo := by
  intro hmem
  obtain ⟨b, hb, hecho⟩ := List.mem_flatMap.mp hmem
  cases hkeys b hb with
  | inl herases =>
    rw [echo_erase herases] at hecho
    exact absurd hecho (by decide)
  | inr hprintable =>
    rw [echo_printable hprintable, List.mem_singleton] at hecho
    exact (printable_spec hprintable).2.2.1 hecho.symm

theorem shows_promptText {context : List UInt8} (rows : List (List UInt8))
    (h : ∀ b ∈ context, printable b = true) :
    ((fresh rows).feed (onlcr (promptText context))).Shows rows (promptText context) 0 := by
  have hprintable : ∀ b ∈ promptText context, printable b = true := by
    intro b hb
    rw [promptText, List.mem_append] at hb
    cases hb with
    | inl hb => exact h b hb
    | inr hb =>
      have hall : (ascii "> ").all printable = true := by decide
      exact List.all_eq_true.mp hall b hb
  have hnewline : newline ∉ promptText context := by
    intro hmem
    exact (printable_spec (hprintable newline hmem)).2.2.1 rfl
  have hshows := (shows_fresh rows).feed hprintable
  rw [List.nil_append, Nat.zero_sub] at hshows
  rwa [onlcr_of_notMem hnewline]

/-- The echo of a line keeps the row as the editor keeps the line. -/
theorem feed_echo {typed : List UInt8} (hkeys : ∀ b ∈ typed, erases b = true ∨ printable b = true)
    {left kept : List UInt8} (hord : LineEdit.OrderlyFrom erases 1022 kept typed) {t : Terminal}
    {rows : List (List UInt8)} {spare : Nat} (ht : t.Shows rows (left ++ kept) spare) :
    (t.feed (typed.flatMap TermGet.echo)).Shows rows
      (left ++ typed.foldl (LineEdit.key erases) kept)
      (typed.foldl (fun n b => if erases b then n + 1 else n - 1) spare) := by
  induction typed generalizing t kept spare with
  | nil => exact ht
  | cons b typed ih =>
    obtain ⟨-, hne, hrest⟩ := hord
    rw [List.flatMap_cons, feed_append, List.foldl_cons, List.foldl_cons]
    refine ih (fun c hc => hkeys c (List.mem_cons_of_mem b hc)) hrest ?_
    cases hkeys b List.mem_cons_self with
    | inl herases =>
      have hkept := List.dropLast_append_getLast (hne herases)
      rw [← hkept, ← List.append_assoc] at ht
      rw [echo_erase herases, LineEdit.key, if_pos herases, if_pos herases]
      exact ht.rubout
    | inr hprintable =>
      have herases := (printable_spec hprintable).2.2.2
      rw [echo_printable hprintable, LineEdit.key, if_neg (by simp [herases]),
        if_neg (by simp [herases]), ← List.append_assoc]
      exact ht.put hprintable

namespace DebugShell

variable {σ : Type} (cmdParse : σ → LineBuffer → σ × LineBuffer) (currentContext : σ → List UInt8)
  (printed : σ → LineBuffer → List (List UInt8))

theorem written_append (sh : DebugShell σ) (xs ys : List UInt8) :
    sh.written cmdParse currentContext printed (xs ++ ys) =
      sh.written cmdParse currentContext printed xs ++
        (xs.foldl (rx cmdParse) sh).written cmdParse currentContext printed ys := by
  induction xs generalizing sh with
  | nil => rfl
  | cons b xs ih => simp only [List.cons_append, written, ih, List.foldl_cons, List.append_assoc]

theorem entries_append (sh : DebugShell σ) (xs ys : List UInt8) :
    sh.entries cmdParse currentContext printed (xs ++ ys) =
      sh.entries cmdParse currentContext printed xs ++
        (xs.foldl (rx cmdParse) sh).entries cmdParse currentContext printed ys := by
  induction xs generalizing sh with
  | nil => rfl
  | cons b xs ih => simp only [List.cons_append, entries, ih, List.foldl_cons, List.append_assoc]

/-- While a line is typed nothing but its echo is written. -/
theorem written_edits {sh : DebugShell σ} {kept typed : List UInt8} (h : sh.input.Holds kept)
    (hkeys : ∀ b ∈ typed, erases b = true ∨ printable b = true)
    (hord : LineEdit.OrderlyFrom erases 1022 kept typed) :
    sh.written cmdParse currentContext printed typed = typed.flatMap TermGet.echo ∧
      sh.entries cmdParse currentContext printed typed = [] := by
  induction typed generalizing sh kept with
  | nil => exact ⟨rfl, rfl⟩
  | cons b typed ih =>
    obtain ⟨hlt, hne, hrest⟩ := hord
    have hcr : b ≠ 0x0d := by
      rintro rfl
      exact absurd (hkeys 0x0d List.mem_cons_self) (by decide)
    obtain ⟨s, hreading, hholds, -⟩ := TermGet.rx_reading h hlt hcr hne hrest.length_lt
    have hrx : sh.rx cmdParse b = { sh with input := s } := by rw [rx, hreading]
    have htaken : sh.taken currentContext printed b = none := by rw [taken, hreading]
    have hheld : ({ sh with input := s } : DebugShell σ).input.Holds (LineEdit.key erases kept b) :=
      hholds
    obtain ⟨hwritten, hentries⟩ :=
      ih hheld (fun c hc => hkeys c (List.mem_cons_of_mem b hc)) hrest
    constructor
    · rw [written, writes, htaken, hrx, hwritten, List.append_nil, List.flatMap_cons]
    · rw [entries, htaken, hrx, hentries]
      rfl

/-- The carriage return: what is passed on is what is held. -/
theorem taken_cr {sh : DebugShell σ} {kept : List UInt8} (h : sh.input.Holds kept)
    (hlt : kept.length < 1022) (hnul : 0 ∉ kept) :
    ∃ line, sh.taken currentContext printed 0x0d =
        some ⟨currentContext sh.world, kept, printed sh.world line⟩ ∧
      sh.rx cmdParse 0x0d = prompt (cmdParse sh.world line).2 (cmdParse sh.world line).1
        (sh.passed ++ [kept]) := by
  obtain ⟨len, s, hreturned, -⟩ := TermGet.rx_cr h hlt
  -- a world that holds on to the buffer of the last call
  let keeping : DebugShell (σ × LineBuffer) := ⟨sh.input, (sh.world, s.line), sh.passed⟩
  have hheld : keeping.input.Holds kept := h
  obtain ⟨line, -, -, hrx⟩ := rx_cr (fun w line => ((w.1, line), line)) hheld hlt hnul
  rw [rx, hreturned] at hrx
  have hline : s.line.set (len - 2).toNat 0 = line := congrArg (·.world.2) hrx
  have hpassed : sh.passed ++ [CString.stringAt (s.line.set (len - 2).toNat 0).bytes 0] =
      sh.passed ++ [kept] := congrArg (·.passed) hrx
  have hkept := List.singleton_inj.mp ((List.append_right_inj sh.passed).mp hpassed)
  refine ⟨line, ?_, ?_⟩
  · rw [taken, hreturned]
    dsimp only
    rw [hkept, hline]
  · rw [rx, hreturned, ← hline, ← hpassed]

variable {world : σ} {typed : List UInt8} {t : Terminal} {rows : List (List UInt8)}

/-- From one prompt to the next. -/
theorem line_shown (line : LineBuffer) (passed : List (List UInt8)) (h : Typed typed)
    (hcontext : ∀ line, ∀ b ∈ currentContext (cmdParse world line).1, printable b = true)
    (ht : t.Shows rows (promptText (currentContext world)) 0) :
    ∃ (e : Entry) (left : LineBuffer),
      e.context = currentContext world ∧ e.passed = LineEdit.edit erases typed ∧
      (prompt line world passed).entries cmdParse currentContext printed (typed ++ [0x0d]) = [e] ∧
      (typed ++ [0x0d]).foldl (rx cmdParse) (prompt line world passed) =
        prompt (cmdParse world left).2 (cmdParse world left).1 (passed ++ [e.passed]) ∧
      (t.feed (onlcr ((prompt line world passed).written cmdParse currentContext printed
        (typed ++ [0x0d])))).Shows (rows ++ e.rows typed)
          (promptText (currentContext (cmdParse world left).1)) 0 := by
  have hcr : 0x0d ∉ typed := by
    intro hmem
    exact absurd (h.keys 0x0d hmem) (by decide)
  have hnul : 0 ∉ LineEdit.edit erases typed := by
    intro hmem
    exact absurd (h.keys 0 (LineEdit.mem_of_mem_edit hmem)) (by decide)
  have hprompt : (prompt line world passed).input.Holds [] := holds_prompt line world
  obtain ⟨s, hrun, hholds⟩ := foldl_edits cmdParse hprompt hcr h.orderly
  obtain ⟨hwritten, hentries⟩ := written_edits cmdParse currentContext printed hprompt h.keys
    h.orderly
  have hedited : ({ prompt line world passed with input := s } : DebugShell σ).input.Holds
      (LineEdit.edit erases typed) := hholds
  obtain ⟨left, htaken, hrx⟩ := taken_cr cmdParse currentContext printed hedited
    h.orderly.length_edit_lt hnul
  refine ⟨⟨currentContext world, LineEdit.edit erases typed, printed world left⟩, left, rfl, rfl,
    ?_, ?_, ?_⟩
  · rw [entries_append, hentries, hrun, entries, htaken]
    rfl
  · rw [List.foldl_append, hrun]
    exact hrx
  · have horderly : LineEdit.OrderlyFrom erases 1022 [] typed := h.orderly
    have hrow := feed_echo h.keys horderly (by rwa [List.append_nil])
    have hend : (t.feed (typed.flatMap TermGet.echo)).feed (onlcr (TermGet.echo 0x0d)) =
        fresh (rows ++ [promptText (currentContext world) ++ LineEdit.edit erases typed ++
          List.replicate (erasedCells typed) blank]) := by
      rw [← hrow.above, erasedCells, LineEdit.edit, ← hrow.row]
      rfl
    rw [written_append, hwritten, hrun, written, writes, htaken, hrx]
    dsimp only
    rw [written, List.append_nil, onlcr_append, onlcr_append, onlcr_append,
      onlcr_of_notMem (newline_notMem_echo h.keys), feed_append, feed_append, feed_append, hend,
      feed_printed, List.append_assoc]
    exact shows_promptText _ (hcontext left)

/-- A session, as long as the context is printable. -/
theorem session_shown {Top : σ → Prop} (hstep : ∀ w line, Top w → Top (cmdParse w line).1)
    (hprintable : ∀ w, Top w → ∀ b ∈ currentContext w, printable b = true)
    {lines : List (List UInt8)} (h : ∀ typed ∈ lines, Typed typed) (line : LineBuffer)
    (passed : List (List UInt8)) (hworld : Top world)
    (ht : t.Shows rows (promptText (currentContext world)) 0) :
    let input := lines.flatMap (· ++ [0x0d])
    let es := (prompt line world passed).entries cmdParse currentContext printed input
    ∃ world', Top world' ∧ (∀ e ∈ es, ∃ w, Top w ∧ e.context = currentContext w) ∧
      es.map (·.passed) = lines.map (LineEdit.edit erases) ∧
      (input.foldl (rx cmdParse) (prompt line world passed)).passed = passed ++ es.map (·.passed) ∧
      (t.feed (onlcr ((prompt line world passed).written cmdParse currentContext printed
        input))).Shows (rows ++ (es.zip lines).flatMap fun p => p.1.rows p.2)
          (promptText (currentContext world')) 0 := by
  induction lines generalizing line world passed t rows with
  | nil =>
    refine ⟨world, hworld, nofun, rfl, (List.append_nil _).symm, ?_⟩
    simpa [written, entries] using ht
  | cons typed lines ih =>
    obtain ⟨e, left, hcontext, hpassed, hentries, hrun, hshows⟩ := line_shown cmdParse
      currentContext printed line passed (h typed List.mem_cons_self)
      (fun line => hprintable _ (hstep world line hworld)) ht
    obtain ⟨world', hworld', hcontexts, hedits, hpasseds, hrest⟩ :=
      ih (fun l hl => h l (List.mem_cons_of_mem typed hl)) (cmdParse world left).2
        (passed ++ [e.passed]) (hstep world left hworld) hshows
    dsimp only
    rw [List.flatMap_cons, entries_append, written_append, hentries, hrun, List.foldl_append, hrun,
      onlcr_append, feed_append]
    refine ⟨world', hworld', ?_, ?_, ?_, ?_⟩
    · intro e' he'
      cases List.mem_append.mp he' with
      | inl hhead =>
        rw [List.mem_singleton.mp hhead]
        exact ⟨world, hworld, hcontext⟩
      | inr htail => exact hcontexts e' htail
    · rw [List.map_append, hedits, List.map_cons, List.map_nil, hpassed, List.map_cons]
      rfl
    · rw [hpasseds, List.map_append, List.map_cons, List.map_nil, List.append_assoc]
    · rw [List.singleton_append, List.zip_cons_cons, List.flatMap_cons, ← List.append_assoc]
      exact hrest

end DebugShell

/-! ### The firmware -/

theorem call_entry_top (argc : Nat) {d : Dispatch (List Action)} (c : ShellCommand)
    (h : d.state.currentContext = []) : (d.call argc c.entry).state.currentContext = [] := by
  rw [Dispatch.call_of_some (e := c.entry) _ rfl]
  dsimp only
  split
  · simp only [ShellState.acted, h, contextAfter_top]
  · exact h

/-- No command leaves the top of the shell. -/
theorem shellParse_top {s : ShellState (List Action)} (h : s.currentContext = [])
    (line : LineBuffer) : (shellParse firmwareTables s line).1.currentContext = [] := by
  have hscan (argc : Nat) (table : List ShellCommand) {d : Dispatch (List Action)}
      (hd : d.state.currentContext = []) :
      (d.scanTable argc (table.map ShellCommand.entry)).state.currentContext = [] := by
    induction table with
    | nil => exact hd
    | cons c table ih =>
      rw [List.map_cons, Dispatch.scanTable]
      split
      · exact call_entry_top argc c hd
      · exact ih
  have htables (argc : Nat) (tables : List (List ShellCommand)) {d : Dispatch (List Action)}
      (hd : d.state.currentContext = []) :
      ((tables.map (·.map ShellCommand.entry)).foldl (Dispatch.scanTable argc)
        d).state.currentContext = [] := by
    induction tables generalizing d with
    | nil => exact hd
    | cons table tables ih => exact ih (hscan argc table hd)
  change (cmdParse firmwareTables line.bytes s).state.currentContext = []
  unfold cmdParse
  dsimp only
  split
  · rw [dispatch]
    split
    · exact h
    · rw [finish_state]
      exact htables _ dispatchTableTable h
  · exact h

end UsbSpdt
