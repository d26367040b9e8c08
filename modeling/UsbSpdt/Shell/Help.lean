import UsbSpdt.Library.Scan
import UsbSpdt.Shell.CommandLine
import UsbSpdt.Shell.Commands
import UsbSpdt.Shell.Words

/-!
# Help

`cmd_help` over any tables. The rule that makes an entry match is written out in it twice, once for
the list of commands and once for a single one, and a third time in `cmdParse`. The searches for one
command go on through the tables behind a match, in the state that the match leaves.
-/

namespace UsbSpdt

variable {σ : Type}

def DispatchEntry.visible (e : DispatchEntry σ) (currentContext : List UInt8) : Bool :=
  currentContext = e.context ∨ e.context.head? = some 0x2a

/-- An entry with what `cmd_help` takes from it. -/
structure HelpEntry (σ : Type) extends DispatchEntry σ where
  shortHelp : Option (List UInt8)
  helpfunc : Option (ShellState σ → ShellState σ)

/-- `argv[1]`. -/
def ShellState.args1 (s : ShellState σ) : List UInt8 := s.argv.getD 1 s.atZero

inductive HelpLine where
  | command (cmd : List UInt8) (shortHelp : Option (List UInt8))
  | unknown (command : List UInt8)

/-- `cmd_help` on its way, with what it has printed. -/
structure Help (σ : Type) where
  state : ShellState σ
  hit : Bool
  printed : List HelpLine

namespace Help

def start (s : ShellState σ) : Help σ := ⟨s, false, []⟩

def print (h : Help σ) (line : HelpLine) : Help σ := { h with printed := h.printed ++ [line] }

def listEntry (h : Help σ) (e : HelpEntry σ) : Help σ :=
  if e.visible h.state.currentContext then h.print (.command e.cmd e.shortHelp) else h

def listTable (h : Help σ) (table : List (HelpEntry σ)) : Help σ := table.foldl listEntry h

/-- A match of the command in `argv[1]`, whose help function may change anything. -/
def found (h : Help σ) (e : HelpEntry σ) : Help σ where
  state :=
    match e.helpfunc with
    | some helpfunc => helpfunc h.state
    | none => h.state
  hit := true
  printed := h.printed ++ [.command h.state.args1 e.shortHelp]

/-- The loop over one table for a single command. -/
def seekTable (h : Help σ) : List (HelpEntry σ) → Help σ
  | [] => h
  | e :: table =>
    if h.state.args1 = e.cmd ∧ e.visible h.state.currentContext then h.found e
    else seekTable h table

end Help

def cmdHelp (tables : List (List (HelpEntry σ))) (argc : Nat) (s : ShellState σ) :
    Int32 × Help σ :=
  if argc = 1 then (0, tables.foldl Help.listTable (.start s))
  else
    let h := tables.foldl Help.seekTable (.start s)
    if h.hit then (0, h) else (1, h.print (.unknown h.state.args1))

/-- The tables as `cmdParse` reads them. -/
def dispatchTables (tables : List (List (HelpEntry σ))) : List (List (DispatchEntry σ)) :=
  tables.map fun table => table.map HelpEntry.toDispatchEntry

/-- Some entry for the command is visible in the context. -/
def Available (tables : List (List (HelpEntry σ))) (currentContext cmd : List UInt8) : Prop :=
  ∃ table ∈ tables, ∃ e ∈ table, cmd = e.cmd ∧ e.visible currentContext = true

/-- The entry is for the command in `argv[1]`, here or in every context. -/
def HelpEntry.isFor (e : HelpEntry σ) (s : ShellState σ) : Bool :=
  s.args1 = e.cmd ∧ e.visible s.currentContext = true

namespace Help

theorem foldl_listEntry (entries : List (HelpEntry σ)) (h : Help σ) :
    entries.foldl listEntry h = { h with
      printed := h.printed ++ (entries.filter (·.visible h.state.currentContext)).map fun e =>
        .command e.cmd e.shortHelp } := by
  induction entries generalizing h with
  | nil => rw [List.foldl_nil, List.filter_nil, List.map_nil, List.append_nil]
  | cons e entries ih =>
    rw [List.foldl_cons, ih, List.filter_cons, listEntry]
    by_cases hvisible : e.visible h.state.currentContext = true
    · simp [hvisible, print]
    · simp [hvisible]

theorem foldl_listTable (tables : List (List (HelpEntry σ))) (h : Help σ) :
    tables.foldl listTable h = tables.flatten.foldl listEntry h :=
  List.foldl_flatten.symm

theorem seekTable_eq (h : Help σ) (table : List (HelpEntry σ)) :
    seekTable h table = (table.find? (·.isFor h.state)).elim h h.found := by
  induction table with
  | nil => rfl
  | cons e table ih =>
    rw [seekTable, List.find?_cons, HelpEntry.isFor]
    by_cases hmatch : h.state.args1 = e.cmd ∧ e.visible h.state.currentContext = true
    · rw [if_pos hmatch, decide_eq_true hmatch]
      rfl
    · rw [if_neg hmatch, decide_eq_false hmatch, ih]

theorem found_hit (h : Help σ) (e : HelpEntry σ) : (h.found e).hit = true := rfl

theorem foldl_seekTable_hit (tables : List (List (HelpEntry σ))) (s : ShellState σ) :
    (tables.foldl seekTable (.start s)).hit = true ↔ Available tables s.currentContext s.args1 := by
  have hscan : (tables.foldl seekTable (.start s)).hit = true ↔
      ∃ table ∈ tables, ∃ e ∈ table, e.isFor s = true :=
    Scan.foldl_find_iff Help.hit seekTable_eq found_hit rfl tables
  simp only [HelpEntry.isFor, decide_eq_true_eq] at hscan
  exact hscan

end Help

theorem Dispatch.call_hit (argc : Nat) (d : Dispatch σ) (e : DispatchEntry σ) :
    (d.call argc e).hit = true := by
  rw [call]
  split
  case h_1 => rfl
  case h_2 => rfl

theorem dispatchTables_hits (tables : List (List (HelpEntry σ))) (s : ShellState σ) :
    (∃ table ∈ dispatchTables tables, ∃ e ∈ table, e.hits s = true) ↔
      Available tables s.currentContext s.args0 := by
  simp only [dispatchTables, Available, DispatchEntry.hits, DispatchEntry.visible, List.mem_map,
    exists_exists_and_eq_and, decide_eq_true_eq]

theorem dispatch_hit_iff (tables : List (List (HelpEntry σ))) (argc : Nat) {s : ShellState σ}
    (h : s.dropped = false) :
    (dispatch (dispatchTables tables) argc s).hit = true ↔
      Available tables s.currentContext s.args0 := by
  have hfind (d : Dispatch σ) (table : List (DispatchEntry σ)) : d.scanTable argc table =
      (table.find? (·.hits d.state)).elim d (d.call argc) := by
    rw [Dispatch.scanTable_eq]
    cases table.find? (·.hits d.state) with
    | none => rfl
    | some e => rfl
  have hscan : ((dispatchTables tables).foldl (Dispatch.scanTable argc) (.start s)).hit = true ↔
      ∃ table ∈ dispatchTables tables, ∃ e ∈ table, e.hits s = true :=
    Scan.foldl_find_iff Dispatch.hit hfind (Dispatch.call_hit argc) rfl (dispatchTables tables)
  rw [← dispatchTables_hits, ← hscan]
  rw [dispatch, if_neg (by rw [h]; exact Bool.false_ne_true), Dispatch.finish]
  split
  case isTrue => rfl
  case isFalse => rfl

theorem listed_iff (tables : List (List (HelpEntry σ))) (s : ShellState σ) (cmd : List UInt8) :
    (∃ shortHelp, .command cmd shortHelp ∈ (cmdHelp tables 1 s).2.printed) ↔
      Available tables s.currentContext cmd := by
  rw [cmdHelp, if_pos rfl, Help.foldl_listTable, Help.foldl_listEntry]
  simp only [Help.start, List.nil_append, List.mem_map, List.mem_filter, List.mem_flatten,
    HelpLine.command.injEq, Available]
  constructor
  · rintro ⟨_, e, ⟨⟨table, htable, he⟩, hvisible⟩, rfl, -⟩
    exact ⟨table, htable, e, he, rfl, hvisible⟩
  · rintro ⟨table, htable, e, he, rfl, hvisible⟩
    exact ⟨e.shortHelp, e, ⟨⟨table, htable, he⟩, hvisible⟩, rfl, rfl⟩

theorem cmdHelp_succeeds_iff (tables : List (List (HelpEntry σ))) {argc : Nat} (hargc : argc ≠ 1)
    (s : ShellState σ) :
    (cmdHelp tables argc s).1 = 0 ↔ Available tables s.currentContext s.args1 := by
  rw [cmdHelp, if_neg hargc, ← Help.foldl_seekTable_hit]
  dsimp only
  split
  case isTrue h => exact iff_of_true rfl h
  case isFalse h => exact iff_of_false (show (1 : Int32) ≠ 0 by decide) h

/-- A command that can be typed as a line of one word. -/
structure CommandName where
  text : List UInt8
  nonempty : text ≠ []
  noNul : 0 ∉ text
  length_lt : text.length < 127
  noBlank : ∀ c ∈ text, isBlank c = false
  noQuote : ∀ c ∈ text, isQuote c = false
  notDropped : text.head? ≠ some 0xb0

namespace CommandName

variable (name : CommandName)

def line : Line := ⟨name.text, name.noNul, Nat.le_of_lt (Nat.lt_trans name.length_lt (by decide))⟩

theorem readLine_text : readLine name.text = ⟨[name.text], none, false⟩ := by
  have hshort : name.text.length ≠ commandSize := Nat.ne_of_lt name.length_lt
  have hwords : words name.text = [name.text] := by
    rw [words, Runs.runs_of_forall name.noBlank]
    exact List.filter_eq_self.mpr fun w hw => by
      rw [List.mem_singleton.mp hw]
      simp [name.nonempty]
  rw [readLine_words name.noQuote, scanned, if_neg hshort, hwords]

theorem cmdParse_text (tables : List (List (DispatchEntry σ))) (beyond : List UInt8)
    (s : ShellState σ) : cmdParse tables (name.line.memory beyond) s =
      dispatch tables 1 { s with argv := [name.text] } := by
  have hread := name.readLine_text
  have hparse := cmdParse_line tables name.line beyond s (by rw [line, hread])
  rw [line, hread] at hparse
  exact hparse

end CommandName

/-- The list of commands, the help on one command and the dispatcher agree on what there is. -/
theorem help_agrees (tables : List (List (HelpEntry σ))) (s : ShellState σ) (name : CommandName)
    (help beyond : List UInt8) :
    ((∃ shortHelp, .command name.text shortHelp ∈ (cmdHelp tables 1 s).2.printed) ↔
        (cmdHelp tables 2 { s with argv := [help, name.text] }).1 = 0) ∧
      ((cmdHelp tables 2 { s with argv := [help, name.text] }).1 = 0 ↔
        (cmdParse (dispatchTables tables) (name.line.memory beyond) s).hit = true) := by
  have hhelp := cmdHelp_succeeds_iff tables (show (2 : Nat) ≠ 1 by decide)
    { s with argv := [help, name.text] }
  have hkept : ({ s with argv := [name.text] } : ShellState σ).dropped = false := by
    simp [ShellState.dropped, ShellState.args0, name.nonempty, name.notDropped]
  have hdispatch := dispatch_hit_iff tables 1 hkept
  rw [name.cmdParse_text, listed_iff, hhelp, hdispatch]
  exact ⟨Iff.rfl, Iff.rfl⟩

/-! ### The tables of the firmware -/

/-- Without help functions the state stays as it is, and each table shows its first match. -/
theorem Help.foldl_seekTable_quiet {tables : List (List (HelpEntry σ))}
    (hquiet : ∀ table ∈ tables, ∀ e ∈ table, e.helpfunc = none) (h : Help σ) :
    tables.foldl seekTable h =
      { h with
        hit := h.hit || !(tables.filterMap fun table => table.find? (·.isFor h.state)).isEmpty
        printed := h.printed ++
          (tables.filterMap fun table => table.find? (·.isFor h.state)).map fun e =>
            .command h.state.args1 e.shortHelp } := by
  induction tables generalizing h with
  | nil => simp
  | cons table tables ih =>
    have hrest : ∀ t ∈ tables, ∀ e ∈ t, e.helpfunc = none :=
      fun t ht => hquiet t (List.mem_cons_of_mem table ht)
    rw [List.foldl_cons, seekTable_eq, List.filterMap_cons]
    cases hfind : table.find? (·.isFor h.state) with
    | none => exact ih hrest h
    | some e =>
      have hnone := hquiet table List.mem_cons_self e (List.mem_of_find?_eq_some hfind)
      have hfound : h.found e =
          { h with hit := true, printed := h.printed ++ [.command h.state.args1 e.shortHelp] } := by
        rw [found, hnone]
      rw [Option.elim_some, hfound, ih hrest]
      simp only [Bool.true_or, List.isEmpty_cons, Bool.not_false, Bool.or_true,
        List.map_cons, List.append_assoc, List.singleton_append]

def ShellCommand.helpEntry (c : ShellCommand) : HelpEntry (List Action) :=
  { c.entry with shortHelp := some (ascii c.shortHelp), helpfunc := none }

def helpTables : List (List (HelpEntry (List Action))) :=
  dispatchTableTable.map fun table => table.map ShellCommand.helpEntry

theorem available_hv : Available helpTables [] [0x68, 0x76] := by
  have hany : (helpTables.any fun table =>
      table.any fun e => [0x68, 0x76] = e.cmd ∧ e.visible [] = true) = true := by
    decide +kernel
  simpa only [Available, List.any_eq_true, decide_eq_true_eq] using hany

/-- The list of the firmware names `hv`, so there is help on it, and a line finds it. -/
theorem help_agrees_hv : ∃ hv : CommandName, hv.text = ascii "hv" ∧
    (cmdHelp helpTables 2 ⟨[], [ascii "help", hv.text], [], []⟩).1 = 0 ∧
      (cmdParse (dispatchTables helpTables) (hv.line.memory []) ⟨[], [], [], []⟩).hit = true := by
  let hv : CommandName :=
    { text := [0x68, 0x76]
      nonempty := List.cons_ne_nil _ _
      noNul := by decide
      length_lt := by decide
      noBlank := List.forall_mem_cons.mpr ⟨rfl, List.forall_mem_singleton.mpr rfl⟩
      noQuote := List.forall_mem_cons.mpr ⟨rfl, List.forall_mem_singleton.mpr rfl⟩
      notDropped := by decide }
  obtain ⟨hlisted, hhelp⟩ := help_agrees helpTables ⟨[], [], [], []⟩ hv (ascii "help") []
  have hfound := hlisted.mp ((listed_iff helpTables ⟨[], [], [], []⟩ _).mpr available_hv)
  exact ⟨hv, rfl, hfound, hhelp.mp hfound⟩

/-- What the action shows, when it is one of `cmd_help`. -/
def Action.helpLine : Action → Option HelpLine
  | .printCommand cmd shortHelp => some (.command cmd (some (ascii shortHelp)))
  | .printUnknown command => some (.unknown command)
  | _ => none

theorem helpTables_quiet : ∀ table ∈ helpTables, ∀ e ∈ table, e.helpfunc = none := by
  intro table htable e he
  obtain ⟨commands, -, rfl⟩ := List.mem_map.mp htable
  obtain ⟨c, -, rfl⟩ := List.mem_map.mp he
  rfl

theorem find_helpTables (s : ShellState (List Action)) :
    helpTables.filterMap (fun table => table.find? (·.isFor s)) =
      (dispatchTableTable.filterMap fun table =>
        table.find? fun c => s.args1 = c.cmd ∧ c.visible s.currentContext).map
          ShellCommand.helpEntry := by
  rw [helpTables, List.filterMap_map, List.map_filterMap]
  congr 1
  funext table
  exact List.find?_map ..

/-- On the tables of the firmware this is the handler of `help`. -/
theorem cmdHelp_firmware {slots : Nat} (hslots : 1 < slots) (argc : Nat)
    (s : ShellState (List Action)) : ∃ actions,
      Bounded.Runs (Handler.cmdHelp slots argc s.currentContext) s.slots
        ((cmdHelp helpTables argc s).1, actions) s.slots ∧
      actions.map Action.helpLine = (cmdHelp helpTables argc s).2.printed.map some := by
  rw [Handler.cmdHelp, cmdHelp]
  by_cases hargc : argc = 1
  · rw [if_pos hargc, if_pos hargc]
    refine ⟨_, Bounded.runs_pure _ _, ?_⟩
    rw [Help.foldl_listTable, Help.foldl_listEntry, helpTables, ← List.map_flatten,
      List.filter_map]
    simp only [List.map_map, Help.start, List.nil_append]
    rfl
  · rw [if_neg hargc, if_neg hargc, Help.foldl_seekTable_quiet helpTables_quiet]
    dsimp only [Help.start]
    rw [find_helpTables]
    have hload : Bounded.Runs (arg slots 1) s.slots s.args1 s.slots :=
      Bounded.runs_load slots () hslots s.slots
    generalize hfound : (dispatchTableTable.filterMap fun table =>
      table.find? fun c => s.args1 = c.cmd ∧ c.visible s.currentContext) = found
    cases found with
    | nil =>
      refine ⟨[.printUnknown s.args1], hload.bind ?_, rfl⟩
      rw [if_pos hfound]
      exact Bounded.runs_pure _ _
    | cons c found =>
      refine ⟨(c :: found).map fun c => .printCommand s.args1 c.shortHelp, hload.bind ?_, ?_⟩
      · rw [hfound, if_neg (List.cons_ne_nil c found)]
        exact Bounded.runs_pure _ _
      · change _ = (((c :: found).map ShellCommand.helpEntry).map fun e =>
          HelpLine.command s.args1 e.shortHelp).map some
        rw [List.map_map, List.map_map, List.map_map]
        rfl

end UsbSpdt
