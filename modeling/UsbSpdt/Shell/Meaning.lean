import Mathlib.Data.List.Find
import UsbSpdt.Shell.CommandLine
import UsbSpdt.Shell.PresentArgs

/-!
# What the lines of a session do

The commands of the firmware by their words, without tables, slots and contexts. A session at the
top of the shell does what its lines say, one after the other.
-/

namespace UsbSpdt

/-- The entries for a command in all the tables. -/
def entriesFor (command : List UInt8) : List ShellCommand :=
  dispatchTableTable.flatten.filter fun c => command = c.cmd

namespace Handler

/-- The width of an access by the name of its command. -/
def accessBits (letter : UInt8) (name : List UInt8) : Option Nat :=
  if name = letter :: ascii "8" then some 8
  else if name = letter :: ascii "16" then some 16
  else if name = letter :: ascii "32" then some 32
  else none

/-- What a command does with its words, its own name being the first. -/
def meaning : Handler → List (List UInt8) → List Action
  | buildInfo, _ => [.printBuildInfo]
  | buildSha1, _ => [.printBuildSha1]
  | hardfault, _ => [.hardfault]
  | timer, _ => [.timer]
  | hv, [_] => [.showHv]
  | hv, [_, val] => [.hvOn (if (CString.strtoul val).toUInt16 ≠ 0 then 1 else 0)]
  | hv, _ => [.print "usage: hv 1|0 \n"]
  | aux, [_, switchN, val] =>
    if (CString.strtoul switchN).toNat < 4 then
      [.aux (CString.strtoul switchN).toNat (CString.strtoul val)]
    else [.print "Aux can be 0,1,2,3,or 4\n"]
  | aux, _ => [.print "Usage: aux <switch number> 1|0\n"]
  | sw1, ws => (switchArg ws).elim [.print "usage: s1 A|B \n"] fun on => [.s1J1sel on]
  | sw2, ws => (switchArg ws).elim [.print "usage: s2 A|B \n"] fun on => [.s2J1sel on]
  | testee, _ => [.eeprom9366Test]
  | eraseee, _ => [.eeprom9366EraseAll]
  | identify, _ => [.print "USB Attenuator/Switch Controller\n", .printId]
  | read, name :: a :: _ =>
    (accessBits 0x72 name).elim [] fun bits => [.peek bits (CString.strtoul a)]
  | read, _ => []
  | write, name :: a :: val :: _ =>
    (accessBits 0x77 name).elim [] fun bits =>
      [.poke bits (CString.strtoul a) (CString.strtoul val)]
  | write, _ => []
  | stack, _ => [.vTaskList]
  | taskstats, _ => [.vTaskGetRunTimeStats]
  | mallocstats, _ => [.mallinfo]
  | reboot, _ => [.resetSystem]
  | exit, _ => []
  | help, _ :: command :: _ =>
    if entriesFor command = [] then [.printUnknown command]
    else (entriesFor command).map fun c => .printCommand command c.shortHelp
  | help, _ => dispatchTableTable.flatten.map fun c => .printCommand c.cmd c.shortHelp

end Handler

def commandOf (name : List UInt8) : Option Handler :=
  (dispatchTableTable.flatten.find? fun c => c.cmd = name).map (·.cmdp)

/-- What a line does with its words. -/
def meaning (ws : List (List UInt8)) : List Action :=
  ws.head?.elim [] fun name => (commandOf name).elim [] fun h => h.meaning ws

open Bounded

/-! ### The handlers -/

/-- A command table without two entries of one name. -/
theorem find?_toList_of_nodup {name : List UInt8} {table : List ShellCommand}
    (h : (table.map (·.cmd)).Nodup) :
    (table.find? fun c => name = c.cmd).toList = table.filter fun c => name = c.cmd := by
  induction table with
  | nil => rfl
  | cons c table ih =>
    rw [List.map_cons, List.nodup_cons] at h
    rw [List.find?_cons, List.filter_cons]
    by_cases hc : name = c.cmd
    · have hrest : table.filter (fun c => name = c.cmd) = [] := by
        rw [List.filter_eq_nil_iff]
        intro c' hc' heq
        exact h.1 (hc ▸ of_decide_eq_true heq ▸ List.mem_map_of_mem hc')
      simp [hc, ← hrest]
    · simp [hc, ih h.2]

theorem visible_top {c : ShellCommand} (hc : c ∈ dispatchTableTable.flatten) :
    c.visible [] = true := by
  have hall : dispatchTableTable.flatten.all (·.visible []) = true := by decide
  exact List.all_eq_true.mp hall c hc

/-- No table has two entries of one name. -/
theorem filterMap_find?_eq (command : List UInt8) :
    (dispatchTableTable.filterMap fun table => table.find? fun c =>
      command = c.cmd ∧ c.visible []) = entriesFor command := by
  have hnodup : ∀ table ∈ dispatchTableTable, (table.map (·.cmd)).Nodup := by decide
  have hfind : ∀ table ∈ dispatchTableTable,
      (table.find? fun c => command = c.cmd ∧ c.visible []) =
        table.find? fun c => command = c.cmd := by
    intro table htable
    apply List.find?_congr
    intro c hc
    have hvisible := visible_top (List.mem_flatten.mpr ⟨table, htable, hc⟩)
    simp [hvisible]
  rw [entriesFor, List.filterMap_eq_flatMap_toList, List.filter_flatten, List.flatMap_def]
  congr 1
  apply List.map_congr_left
  intro table htable
  rw [hfind table htable, find?_toList_of_nodup (hnodup table htable)]

namespace Handler

variable (s : ShellState (List Action))

theorem runs_access (letter : UInt8) (name : List UInt8) (act : Nat → Action)
    (m : Stores Unit (List UInt8)) :
    Runs (if name = letter :: ascii "8" then pure ((0 : Int32), [act 8])
      else if name = letter :: ascii "16" then pure (0, [act 16])
      else if name = letter :: ascii "32" then pure (0, [act 32])
      else pure (0, [])) m (0, (accessBits letter name).elim [] fun bits => [act bits]) m := by
  unfold accessBits
  split
  · exact runs_pure _ _
  split
  · exact runs_pure _ _
  split
  · exact runs_pure _ _
  · exact runs_pure _ _

/-- A handler with the arguments that it needs does what its words mean. -/
theorem runs_meaning (h : Handler) (hleast : h.least ≤ s.argv.length) :
    ∃ rval, Runs (h.run s.argv.length s.argv.length []) s.slots (rval, h.meaning s.argv)
      s.slots := by
  have hload : ∀ i < s.argv.length, Runs (arg s.argv.length i) s.slots (s.argv.getD i s.atZero)
      s.slots := fun i hi => runs_load s.argv.length () hi s.slots
  have hsw (select : Int → Action) (usage : String) : ∃ rval,
      Runs (cmdSw s.argv.length s.argv.length select usage) s.slots
        (rval, (switchArg s.argv).elim [.print usage] fun on => [select on]) s.slots := by
    have hruns := runs_cmdSw s select usage
    cases hon : switchArg s.argv with
    | none =>
      rw [hon] at hruns
      exact ⟨1, hruns⟩
    | some on =>
      rw [hon] at hruns
      exact ⟨0, hruns⟩
  cases h with
  | hv =>
    rcases hargv : s.argv with _ | ⟨name, _ | ⟨val, _ | ⟨w, ws⟩⟩⟩
    · simp [hargv, least] at hleast
    · exact ⟨0, runs_pure _ _⟩
    · have h1 := hload 1 (by simp [hargv])
      rw [hargv] at h1
      exact ⟨0, h1.bind (runs_pure _ _)⟩
    · exact ⟨1, runs_pure _ _⟩
  | aux =>
    rcases hargv : s.argv with _ | ⟨name, _ | ⟨switchN, _ | ⟨val, _ | ⟨w, ws⟩⟩⟩⟩
    · simp [hargv, least] at hleast
    · exact ⟨1, runs_pure _ _⟩
    · exact ⟨1, runs_pure _ _⟩
    · have h1 := hload 1 (by simp [hargv])
      have h2 := hload 2 (by simp [hargv])
      rw [hargv] at h1 h2
      by_cases hlt : (CString.strtoul switchN).toNat < 4
      · refine ⟨0, h1.bind (h2.bind ?_)⟩
        simp [hlt, meaning, Runs, pure]
      · refine ⟨1, h1.bind (h2.bind ?_)⟩
        simp [hlt, meaning, Runs, pure]
    · exact ⟨1, runs_pure _ _⟩
  | sw1 => exact hsw .s1J1sel _
  | sw2 => exact hsw .s2J1sel _
  | read =>
    rcases hargv : s.argv with _ | ⟨name, _ | ⟨a, ws⟩⟩
    · simp [hargv, least] at hleast
    · simp [hargv, least] at hleast
    · have h0 := hload 0 (by simp [hargv])
      have h1 := hload 1 (by simp [hargv])
      rw [hargv] at h0 h1
      refine ⟨0, h1.bind (h0.bind ?_)⟩
      exact runs_access 0x72 name (fun bits => .peek bits (CString.strtoul a)) _
  | write =>
    rcases hargv : s.argv with _ | ⟨name, _ | ⟨a, _ | ⟨val, ws⟩⟩⟩
    · simp [hargv, least] at hleast
    · simp [hargv, least] at hleast
    · simp [hargv, least] at hleast
    · have h0 := hload 0 (by simp [hargv])
      have h1 := hload 1 (by simp [hargv])
      have h2 := hload 2 (by simp [hargv])
      rw [hargv] at h0 h1 h2
      refine ⟨0, h1.bind (h2.bind (h0.bind ?_))⟩
      exact runs_access 0x77 name (fun bits => .poke bits (CString.strtoul a)
        (CString.strtoul val)) _
  | help =>
    rcases hargv : s.argv with _ | ⟨name, _ | ⟨command, ws⟩⟩
    · simp [hargv, least] at hleast
    · have hall : dispatchTableTable.flatten.filter (·.visible []) = dispatchTableTable.flatten :=
        List.filter_eq_self.mpr fun c hc => visible_top hc
      have hhelp : cmdHelp 1 1 [] = pure (0, dispatchTableTable.flatten.map fun c =>
          .printCommand c.cmd c.shortHelp) := by
        rw [cmdHelp, if_pos rfl, hall]
      refine ⟨0, ?_⟩
      change Runs (cmdHelp 1 1 []) _ _ _
      rw [hhelp]
      exact runs_pure _ _
    · have h1 := hload 1 (by simp [hargv])
      rw [hargv] at h1
      have hhelp : cmdHelp (name :: command :: ws).length (name :: command :: ws).length [] =
          arg (name :: command :: ws).length 1 >>= fun command =>
            if entriesFor command = [] then pure (1, [.printUnknown command])
            else pure (0, (entriesFor command).map fun c =>
              .printCommand command c.shortHelp) := by
        simp only [cmdHelp, filterMap_find?_eq, List.length_cons]
        rw [if_neg (by omega)]
      change ∃ rval, Runs (cmdHelp _ _ []) _ _ _
      rw [hhelp]
      by_cases hfound : entriesFor command = []
      · refine ⟨1, h1.bind ?_⟩
        simp [hfound, meaning, Runs, pure]
      · refine ⟨0, h1.bind ?_⟩
        simp [hfound, meaning, Runs, pure]
  | _ => exact ⟨0, runs_pure _ _⟩

end Handler

/-! ### The dispatch -/

/-- The tables of the firmware as `cmdParse` searches them. -/
def firmwareTables : List (List (DispatchEntry (List Action))) :=
  dispatchTableTable.map (·.map ShellCommand.entry)

/-- The command of a table at the top of the shell. -/
theorem find?_hits {table : List ShellCommand} (htable : table ∈ dispatchTableTable)
    {s : ShellState (List Action)} (hcontext : s.currentContext = []) {name : List UInt8}
    {ws : List (List UInt8)} (hargv : s.argv = name :: ws) :
    (table.map ShellCommand.entry).find? (·.hits s) =
      (table.find? fun c => c.cmd = name).map ShellCommand.entry := by
  rw [List.find?_map]
  congr 1
  apply List.find?_congr
  intro c hc
  have hvisible := visible_top (List.mem_flatten.mpr ⟨table, htable, hc⟩)
  have hslot : s.slots () 0 = name := by simp [ShellState.slots, hargv]
  rw [Function.comp_apply, hits_entry, hcontext, hslot, ShellCommand.hit]
  simp [hvisible, eq_comm]

theorem contextAfter_top (h : Handler) : h.contextAfter [] = [] := by
  cases h <;> rfl

/-- A command that is called does what its words mean. -/
theorem call_entry {c : ShellCommand} {d : Dispatch (List Action)}
    (hcontext : d.state.currentContext = []) (hleast : c.cmdp.least ≤ d.state.argv.length) :
    (d.call d.state.argv.length c.entry).state =
      { d.state with memory := d.state.memory ++ c.cmdp.meaning d.state.argv } := by
  obtain ⟨rval, hruns⟩ := c.cmdp.runs_meaning d.state hleast
  have hwide : c.cmdp.run (d.state.argv.length + debugShellMaxargs) d.state.argv.length []
      d.state.slots = some ((rval, c.cmdp.meaning d.state.argv), d.state.slots) :=
    (c.cmdp.readsOnly_run d.state.argv.length [] (Nat.le_add_right _ debugShellMaxargs) hruns).2
  rw [Dispatch.call_of_some (e := c.entry) _ rfl]
  simp only [hcontext, hwide, ShellState.acted, contextAfter_top]

/-- No name is in both tables. -/
theorem common_find?_none {c : ShellCommand} (hc : c ∈ mainCommands) :
    (commonCommands.find? fun c' => c'.cmd = c.cmd) = none := by
  have hall : mainCommands.all fun c =>
      (commonCommands.find? fun c' => c'.cmd = c.cmd).isNone := by decide
  simpa using List.all_eq_true.mp hall c hc

theorem finish_state {σ : Type} (d : Dispatch σ) : d.finish.state = d.state := by
  rw [Dispatch.finish]
  split
  · rfl
  · rfl

/-- The needs of the command that a name stands for. -/
theorem least_le {name : List UInt8} {argc : Nat} (hargs : required [] name ≤ argc)
    {table : List ShellCommand} (htable : table ∈ dispatchTableTable) {c : ShellCommand}
    (hfind : (table.find? fun c => c.cmd = name) = some c) : c.cmdp.least ≤ argc := by
  have hmem := List.mem_of_find?_eq_some hfind
  have hname : c.cmd = name := by simpa using List.find?_some hfind
  have hvisible := visible_top (List.mem_flatten.mpr ⟨table, htable, hmem⟩)
  simp only [dispatchTableTable, List.mem_cons, List.not_mem_nil, or_false] at htable
  obtain rfl | rfl := htable
  · have hpos := required_pos [] name
    rw [(main_least c hmem).1]
    omega
  · rw [least_of_visible hmem hvisible, hname]
    exact hargs

/-- One table does what the command in it that the first word names does, if it has one. -/
theorem scanTable_meaning {table : List ShellCommand} (htable : table ∈ dispatchTableTable)
    {name : List UInt8} {ws : List (List UInt8)} (hargs : required [] name ≤ (name :: ws).length)
    {atZero : List UInt8} {memory : List Action} {d : Dispatch (List Action)}
    (hd : d.state = ⟨[], name :: ws, atZero, memory⟩) :
    (Dispatch.scanTable (name :: ws).length d (table.map ShellCommand.entry)).state =
      ⟨[], name :: ws, atZero, memory ++
        (table.find? fun c => c.cmd = name).elim [] fun c => c.cmdp.meaning (name :: ws)⟩ := by
  have hargv : d.state.argv = name :: ws := by rw [hd]
  have hcontext : d.state.currentContext = [] := by rw [hd]
  rw [Dispatch.scanTable_eq, find?_hits htable hcontext hargv]
  cases hfind : table.find? fun c => c.cmd = name with
  | none => simp [hd]
  | some c =>
    have hcall := call_entry hcontext (hargv ▸ least_le hargs htable hfind)
    rw [hd] at hcall
    exact hcall

/-- A name that is dropped is no command. -/
theorem find?_none_of_dropped {name : List UInt8} (h : name = [] ∨ name.head? = some 0xb0)
    {table : List ShellCommand} (htable : table ∈ dispatchTableTable) :
    (table.find? fun c => c.cmd = name) = none := by
  have hnames : ∀ table ∈ dispatchTableTable, ∀ c ∈ table,
      ¬ (c.cmd = [] ∨ c.cmd.head? = some 0xb0) := by decide
  rw [List.find?_eq_none]
  intro c hc heq
  have hcmd : c.cmd = name := of_decide_eq_true heq
  exact hnames table htable c hc (hcmd ▸ h)

theorem meaning_cons (name : List UInt8) (ws : List (List UInt8)) :
    meaning (name :: ws) =
      ((mainCommands.find? fun c => c.cmd = name).elim [] fun c => c.cmdp.meaning (name :: ws)) ++
        (commonCommands.find? fun c => c.cmd = name).elim [] fun c =>
          c.cmdp.meaning (name :: ws) := by
  have hflatten : dispatchTableTable.flatten = mainCommands ++ commonCommands := by
    simp [dispatchTableTable]
  rw [meaning, List.head?_cons, Option.elim_some, commandOf, hflatten, List.find?_append]
  cases hmain : mainCommands.find? fun c => c.cmd = name with
  | none =>
    cases commonCommands.find? fun c => c.cmd = name <;> rfl
  | some c =>
    have hname : c.cmd = name := by simpa using List.find?_some hmain
    have hcommon := common_find?_none (List.mem_of_find?_eq_some hmain)
    rw [hname] at hcommon
    rw [hcommon]
    simp

/-- A line with the arguments that its command needs does what its words mean. -/
theorem dispatch_meaning {s : ShellState (List Action)} (hcontext : s.currentContext = [])
    (hargs : required [] (s.argv.headD []) ≤ s.argv.length) :
    (dispatch firmwareTables s.argv.length s).state =
      { s with memory := s.memory ++ meaning s.argv } := by
  obtain ⟨context, argv, atZero, memory⟩ := s
  obtain rfl : context = [] := hcontext
  cases argv with
  | nil => exact absurd hargs (Nat.not_le_of_lt (required_pos [] []))
  | cons name ws =>
    have hmain : mainCommands ∈ dispatchTableTable := by simp [dispatchTableTable]
    have hcommon : commonCommands ∈ dispatchTableTable := by simp [dispatchTableTable]
    have hneeds : required [] name ≤ (name :: ws).length := hargs
    dsimp only
    rw [meaning_cons]
    by_cases hdropped : name = [] ∨ name.head? = some 0xb0
    · have hdrop : (⟨[], name :: ws, atZero, memory⟩ : ShellState (List Action)).dropped = true :=
        decide_eq_true hdropped
      rw [dispatch, if_pos hdrop, find?_none_of_dropped hdropped hmain,
        find?_none_of_dropped hdropped hcommon]
      simp [Dispatch.start]
    · have hdrop : ¬ (⟨[], name :: ws, atZero, memory⟩ : ShellState (List Action)).dropped = true :=
        fun h => hdropped (of_decide_eq_true h)
      have htables : firmwareTables =
          [mainCommands.map ShellCommand.entry, commonCommands.map ShellCommand.entry] := rfl
      have hfirst := scanTable_meaning hmain hneeds
        (d := .start ⟨[], name :: ws, atZero, memory⟩) rfl
      have hsecond := scanTable_meaning hcommon hneeds hfirst
      rw [dispatch, if_neg hdrop, finish_state, htables, List.foldl_cons, List.foldl_cons,
        List.foldl_nil, hsecond, List.append_assoc]

/-! ### Sessions -/

/-- The words of a line as it was typed. -/
def typedWords (typed : List UInt8) : List (List UInt8) :=
  (readLine (LineEdit.edit erases typed)).args

/-- A line of a session: every character has its place, every argument that is looked at is there,
and the command returns. -/
structure Entered (typed : List UInt8) : Prop where
  noCr : 0x0d ∉ typed
  noNul : 0 ∉ typed
  orderly : LineEdit.Orderly erases 1022 typed
  matched : (readLine (LineEdit.edit erases typed)).unmatched = none
  fits : (typedWords typed).length ≤ debugShellMaxargs
  present : required [] ((typedWords typed).headD []) ≤ (typedWords typed).length
  returns : commandOf ((typedWords typed).headD []) ≠ some .reboot ∧
    commandOf ((typedWords typed).headD []) ≠ some .hardfault

theorem Entered.line {typed : List UInt8} (h : Entered typed) (line : LineBuffer)
    {s : ShellState (List Action)} (hcontext : s.currentContext = [])
    (passed : List (List UInt8)) :
    ∃ line' passed', (typed ++ [0x0d]).foldl (DebugShell.rx (shellParse firmwareTables))
        (.prompt line s passed) = .prompt line'
          { s with
            argv := typedWords typed
            memory := s.memory ++ meaning (typedWords typed) } passed' := by
  have hargv : (typedWords typed).take debugShellMaxargs = typedWords typed :=
    List.take_of_length_le h.fits
  have hworld := typed_line_dispatched firmwareTables line s passed h.noCr h.noNul h.orderly
    h.matched
  rw [← typedWords, hargv, dispatch_meaning (s := { s with argv := typedWords typed }) hcontext
    h.present] at hworld
  obtain ⟨left, -, -, hrun⟩ := DebugShell.foldl_line (shellParse firmwareTables) line s passed
    h.noCr h.noNul h.orderly
  rw [hrun] at hworld ⊢
  exact ⟨_, _, by rw [← hworld]; rfl⟩

theorem Entered.lines {lines : List (List UInt8)} (h : ∀ typed ∈ lines, Entered typed)
    (line : LineBuffer) {s : ShellState (List Action)} (hcontext : s.currentContext = [])
    (passed : List (List UInt8)) :
    ∃ line' s' passed', (lines.flatMap (· ++ [0x0d])).foldl
        (DebugShell.rx (shellParse firmwareTables)) (.prompt line s passed) =
          .prompt line' s' passed' ∧ s'.currentContext = [] ∧
        s'.memory = s.memory ++ lines.flatMap (meaning ∘ typedWords) := by
  induction lines generalizing line s passed with
  | nil => exact ⟨line, s, passed, rfl, hcontext, (List.append_nil _).symm⟩
  | cons typed lines ih =>
    obtain ⟨line', passed', hline⟩ := (h typed List.mem_cons_self).line line hcontext passed
    obtain ⟨line'', s'', passed'', hrest, hcontext'', hmemory⟩ :=
      ih (fun l hl => h l (List.mem_cons_of_mem typed hl)) line'
        (s := { s with
          argv := typedWords typed
          memory := s.memory ++ meaning (typedWords typed) }) hcontext passed'
    refine ⟨line'', s'', passed'', ?_, hcontext'', ?_⟩
    · rw [List.flatMap_cons, List.foldl_append, hline, hrest]
    · rw [hmemory, List.flatMap_cons, List.append_assoc]
      rfl

end UsbSpdt
