import UsbSpdt.Firmware.Shell
import UsbSpdt.Shell.Commands
import UsbSpdt.Shell.InPlace

/-!
# Arguments that are there

`cmdParse` looks at `args[0]` of every line and its handlers look at more. Which lines have all the
arguments that are looked at.
-/

namespace UsbSpdt

open Bounded

/-! ### What the handlers read -/

namespace Handler

/-- How many arguments a handler needs, its own name among them. -/
def least : Handler → Nat
  | read => 2
  | write => 3
  | _ => 1

variable {argc : Nat} (m : Stores Unit (List UInt8))

theorem defined_cmdHv : Defined (cmdHv argc argc) m := by
  simp only [cmdHv, arg, defined_ite_iff, defined_load_bind_iff, defined_pure, implies_true,
    and_true, true_and]
  omega

theorem defined_cmdSw (select : Int → Action) (usage : String) :
    Defined (cmdSw argc argc select usage) m := by
  simp only [cmdSw, arg, defined_ite_iff, defined_load_bind_iff, defined_pure, implies_true,
    and_true]
  omega

theorem defined_cmdAux : Defined (cmdAux argc argc) m := by
  simp only [cmdAux, arg, defined_ite_iff, defined_load_bind_iff, defined_pure, implies_true,
    and_true]
  omega

theorem defined_cmdHelp (hpos : 0 < argc) (currentContext : List UInt8) :
    Defined (cmdHelp argc argc currentContext) m := by
  simp only [cmdHelp, arg, defined_ite_iff, defined_load_bind_iff, defined_pure, implies_true,
    and_true, true_and]
  omega

theorem defined_cmdRead_iff : Defined (cmdRead argc) m ↔ 2 ≤ argc := by
  simp only [cmdRead, arg, defined_ite_iff, defined_load_bind_iff, defined_pure, implies_true,
    and_true]
  omega

theorem defined_cmdWrite_iff : Defined (cmdWrite argc) m ↔ 3 ≤ argc := by
  simp only [cmdWrite, arg, defined_ite_iff, defined_load_bind_iff, defined_pure, implies_true,
    and_true]
  omega

theorem defined_run_iff (h : Handler) (hpos : 0 < argc) (currentContext : List UInt8) :
    Defined (h.run argc argc currentContext) m ↔ h.least ≤ argc := by
  cases h with
  | hv => exact iff_of_true (defined_cmdHv m) hpos
  | aux => exact iff_of_true (defined_cmdAux m) hpos
  | sw1 | sw2 => exact iff_of_true (defined_cmdSw m _ _) hpos
  | help => exact iff_of_true (defined_cmdHelp m hpos currentContext) hpos
  | read => exact defined_cmdRead_iff m
  | write => exact defined_cmdWrite_iff m
  | _ => exact iff_of_true (defined_pure _ m) hpos

theorem readsOnly_run (h : Handler) (argc : Nat) (currentContext : List UInt8) :
    ReadsOnly fun slots => h.run slots argc currentContext := by
  have hpure (r : Int32 × List Action) : ReadsOnly fun _ => (pure r : ArgReader _) :=
    readsOnly_pure r
  have harg (i : Nat) : ReadsOnly fun slots => arg slots i := readsOnly_load () i
  have hsw (select : Int → Action) (usage : String) :
      ReadsOnly fun slots => cmdSw slots argc select usage :=
    ReadsOnly.ite ((harg 1).bind fun _ => .ite (hpure _) (.ite (hpure _) (hpure _))) (hpure _)
  cases h with
  | hv => exact .ite (hpure _) (.ite ((harg 1).bind fun _ => hpure _) (hpure _))
  | aux =>
    exact .ite ((harg 1).bind fun _ => (harg 2).bind fun _ => .ite (hpure _) (hpure _)) (hpure _)
  | sw1 => exact hsw _ _
  | sw2 => exact hsw _ _
  | help => exact .ite (hpure _) ((harg 1).bind fun _ => .ite (hpure _) (hpure _))
  | read =>
    exact (harg 1).bind fun _ => (harg 0).bind fun _ =>
      .ite (hpure _) (.ite (hpure _) (.ite (hpure _) (hpure _)))
  | write =>
    exact (harg 1).bind fun _ => (harg 2).bind fun _ => (harg 0).bind fun _ =>
      .ite (hpure _) (.ite (hpure _) (.ite (hpure _) (hpure _)))
  | _ => exact hpure _

/-- The switch commands select what `switchArg` says. -/
theorem runs_cmdSw {σ : Type} (s : ShellState σ) (select : Int → Action) (usage : String) :
    Runs (cmdSw s.argv.length s.argv.length select usage) s.slots
      ((switchArg s.argv).elim (1, [.print usage]) fun on => (0, [select on])) s.slots := by
  obtain ⟨context, argv, atZero, memory⟩ := s
  match argv with
  | [] | [_] | _ :: _ :: _ :: _ => exact runs_pure _ _
  | [name, word] =>
    have hload : Runs (arg 2 1) (ShellState.slots ⟨context, [name, word], atZero, memory⟩) word _ :=
      runs_load 2 () (by decide) _
    refine hload.bind ?_
    change Runs (if _ then _ else if _ then _ else _) _ _ _
    rw [switchArg]
    by_cases hA : word.headD 0 = 0x41 ∨ word.headD 0 = 0x61
    · rw [if_pos hA, if_pos hA]
      exact runs_pure _ _
    by_cases hB : word.headD 0 = 0x42 ∨ word.headD 0 = 0x62
    · rw [if_neg hA, if_pos hB, if_neg hA, if_pos hB]
      exact runs_pure _ _
    · rw [if_neg hA, if_neg hB, if_neg hA, if_neg hB]
      exact runs_pure _ _

end Handler

/-! ### What the search reads -/

def ShellCommand.hit (args0 currentContext : List UInt8) (c : ShellCommand) : Bool :=
  args0 = c.cmd ∧ c.visible currentContext

theorem ShellCommand.hit_iff {args0 currentContext : List UInt8} {c : ShellCommand} :
    c.hit args0 currentContext = true ↔ args0 = c.cmd ∧ c.visible currentContext :=
  decide_eq_true_iff

section Search

variable {argc : Nat}

theorem readsOnly_readTable (d : Dispatch (List Action)) (table : List ShellCommand) :
    ReadsOnly fun slots => readTable slots argc d table := by
  induction table with
  | nil => exact readsOnly_pure d
  | cons c table ih =>
    exact (readsOnly_load () 0).bind fun _ =>
      .ite ((c.cmdp.readsOnly_run argc _).bind fun _ => readsOnly_pure _) ih

theorem readsOnly_readTables (d : Dispatch (List Action)) (tables : List (List ShellCommand)) :
    ReadsOnly fun slots => readTables slots argc d tables := by
  induction tables generalizing d with
  | nil => exact readsOnly_pure d
  | cons table tables ih => exact (readsOnly_readTable d table).bind fun d' => ih d'

theorem readsOnly_readCommand (s : ShellState (List Action)) :
    ReadsOnly fun slots => readCommand slots argc s :=
  (readsOnly_load () 0).bind fun _ => .ite (readsOnly_pure _)
    ((readsOnly_readTables _ _).bind fun _ => readsOnly_pure _)

/-- The search in a table comes to an end exactly when the handler that it finds, if any, has the
arguments that it needs. -/
theorem defined_readTable_iff (hpos : 0 < argc) (d : Dispatch (List Action))
    (table : List ShellCommand) (m : Stores Unit (List UInt8)) :
    Defined (readTable argc argc d table) m ↔
      ∀ c, table.find? (·.hit (m () 0) d.state.currentContext) = some c →
        c.cmdp.least ≤ argc := by
  induction table with
  | nil => exact iff_of_true (defined_pure d m) nofun
  | cons c table ih =>
    rw [readTable, arg, defined_load_bind_iff, and_iff_right hpos, List.find?_cons]
    by_cases hhit : m () 0 = c.cmd ∧ c.visible d.state.currentContext
    · have hfound : c.hit (m () 0) d.state.currentContext = true := decide_eq_true hhit
      rw [if_pos hhit, hfound, defined_bind_total_iff m fun _ m' => defined_pure _ m',
        c.cmdp.defined_run_iff m hpos]
      simp
    · have hmissed : c.hit (m () 0) d.state.currentContext = false := decide_eq_false hhit
      rw [if_neg hhit, hmissed, ih]

theorem context_of_readTable {slots : Nat} {d d' : Dispatch (List Action)}
    {table : List ShellCommand} {m m' : Stores Unit (List UInt8)}
    (hkeep : ∀ c ∈ table, c.cmdp ≠ .exit) (h : Runs (readTable slots argc d table) m d' m') :
    d'.state.currentContext = d.state.currentContext := by
  induction table generalizing m with
  | nil =>
    obtain ⟨rfl, -⟩ : d = d' ∧ m = m' := by simpa [Runs, readTable, pure] using h
    rfl
  | cons c table ih =>
    obtain ⟨args0, m₁, -, h⟩ := runs_bind_iff.mp h
    split at h
    · obtain ⟨r, m₂, -, h⟩ := runs_bind_iff.mp h
      obtain ⟨rfl, -⟩ : _ = d' ∧ m₂ = m' := by simpa [Runs, pure] using h
      have hne := hkeep c List.mem_cons_self
      change c.cmdp.contextAfter d.state.currentContext = _
      cases hc : c.cmdp <;> first | rfl | exact absurd hc hne
    · exact ih (fun c' hc' => hkeep c' (List.mem_cons_of_mem c hc')) h

end Search

/-! ### Agreement with the dispatch -/

theorem hits_entry (c : ShellCommand) (s : ShellState (List Action)) :
    c.entry.hits s = c.hit (s.slots () 0) s.currentContext := by
  cases hargv : s.argv <;>
    simp [DispatchEntry.hits, ShellCommand.hit, ShellCommand.visible, ShellCommand.entry,
      ShellState.args0, ShellState.slots, hargv]

/-- The search of the dispatch does what this one does. -/
theorem scanTable_of_readTable {argc : Nat} {d d' : Dispatch (List Action)}
    {table : List ShellCommand} {m' : Stores Unit (List UInt8)}
    (h : Runs (readTable (argc + debugShellMaxargs) argc d table) d.state.slots d' m') :
    Dispatch.scanTable argc d (table.map ShellCommand.entry) = d' ∧
      d'.state.slots = d.state.slots := by
  induction table with
  | nil =>
    obtain ⟨rfl, -⟩ : d = d' ∧ d.state.slots = m' := by simpa [Runs, readTable, pure] using h
    exact ⟨rfl, rfl⟩
  | cons c table ih =>
    obtain ⟨args0, m₁, hload, h⟩ := runs_bind_iff.mp h
    obtain ⟨rfl, rfl⟩ : d.state.slots () 0 = args0 ∧ d.state.slots = m₁ := by
      have hpos : 0 < argc + debugShellMaxargs := Nat.lt_add_left argc (by decide)
      simpa using (runs_load _ () hpos d.state.slots).symm.trans hload
    rw [List.map_cons, Dispatch.scanTable, hits_entry]
    by_cases hhit : d.state.slots () 0 = c.cmd ∧ c.visible d.state.currentContext
    · rw [if_pos hhit] at h
      obtain ⟨r, m₂, hrun, h⟩ := runs_bind_iff.mp h
      obtain ⟨rfl, -⟩ : _ = d' ∧ m₂ = m' := by simpa [Runs, pure] using h
      rw [ShellCommand.hit, decide_eq_true hhit, if_pos rfl]
      refine ⟨?_, rfl⟩
      rw [Dispatch.call, ShellCommand.entry]
      dsimp only
      rw [hrun]
    · rw [if_neg hhit] at h
      rw [ShellCommand.hit, decide_eq_false hhit, if_neg Bool.false_ne_true]
      exact ih h

theorem foldl_of_readTables {argc : Nat} {d d' : Dispatch (List Action)}
    {tables : List (List ShellCommand)} {m' : Stores Unit (List UInt8)}
    (h : Runs (readTables (argc + debugShellMaxargs) argc d tables) d.state.slots d' m') :
    (tables.map (·.map ShellCommand.entry)).foldl (Dispatch.scanTable argc) d = d' := by
  induction tables generalizing d with
  | nil =>
    obtain ⟨rfl, -⟩ : d = d' ∧ d.state.slots = m' := by simpa [Runs, readTables, pure] using h
    rfl
  | cons table tables ih =>
    obtain ⟨d₁, m₁, hscan, h⟩ := runs_bind_iff.mp h
    obtain ⟨rfl, -⟩ := readsOnly_readTable d table (Nat.le_refl _) hscan
    obtain ⟨hd, hslots⟩ := scanTable_of_readTable hscan
    rw [List.map_cons, List.foldl_cons, hd]
    exact ih (hslots ▸ h)

theorem dispatch_of_readCommand {argc : Nat} {s : ShellState (List Action)}
    {d : Dispatch (List Action)} {m' : Stores Unit (List UInt8)}
    (h : Runs (readCommand argc argc s) s.slots d m') :
    dispatch (dispatchTableTable.map (·.map ShellCommand.entry)) argc s = d := by
  obtain ⟨-, h⟩ := readsOnly_readCommand s (Nat.le_add_right argc debugShellMaxargs) h
  obtain ⟨args0, m₁, hload, h⟩ := runs_bind_iff.mp h
  obtain ⟨rfl, rfl⟩ : s.slots () 0 = args0 ∧ s.slots = m₁ := by
    have hpos : 0 < argc + debugShellMaxargs := Nat.lt_add_left argc (by decide)
    simpa using (runs_load _ () hpos s.slots).symm.trans hload
  have hargs0 : s.slots () 0 = s.args0 := by
    cases hargv : s.argv <;> simp [ShellState.args0, ShellState.slots, hargv]
  rw [hargs0] at h
  rw [dispatch, ShellState.dropped]
  by_cases hdropped : s.args0 = [] ∨ s.args0.head? = some 0xb0
  · rw [if_pos hdropped] at h
    rw [if_pos (decide_eq_true hdropped)]
    simpa [Runs, pure] using h
  · rw [if_neg hdropped] at h
    rw [if_neg (by simpa using hdropped)]
    obtain ⟨d₁, m₁, hscan, h⟩ := runs_bind_iff.mp h
    obtain ⟨rfl, -⟩ : d₁.finish = d ∧ m₁ = s.slots := by simpa [Runs, pure] using h
    exact congrArg Dispatch.finish (foldl_of_readTables hscan)

/-- Where all the arguments are there, this is what the dispatch makes of the line. -/
theorem cmdParse_of_cmdParseArgs {cmdstr : List UInt8} {s : ShellState (List Action)}
    {d : Dispatch (List Action)} (h : cmdParseArgs cmdstr s = some d) :
    cmdParse (dispatchTableTable.map (·.map ShellCommand.entry)) cmdstr s = d := by
  cases hun : (tokenize cmdstr).unmatched with
  | none =>
    simp only [cmdParseArgs, hun] at h
    obtain ⟨⟨d', m'⟩, hrun, rfl⟩ := Option.map_eq_some_iff.mp h
    rw [cmdParse, hun]
    exact dispatch_of_readCommand hrun
  | some quote =>
    simp only [cmdParseArgs, hun] at h
    rw [cmdParse, hun]
    exact Option.some.inj h

/-! ### Which lines have them -/

/-- How many arguments a line needs, its command among them. -/
def required (currentContext args0 : List UInt8) : Nat :=
  if currentContext = [] ∧ args0 ∈ [ascii "r8", ascii "r16", ascii "r32"] then 2
  else if currentContext = [] ∧ args0 ∈ [ascii "w8", ascii "w16", ascii "w32"] then 3
  else 1

theorem required_of_ne {currentContext : List UInt8} (h : currentContext ≠ [])
    (args0 : List UInt8) : required currentContext args0 = 1 := by
  rw [required, if_neg fun hand => h hand.1, if_neg fun hand => h hand.1]

theorem required_pos (currentContext args0 : List UInt8) : 1 ≤ required currentContext args0 := by
  unfold required
  split
  · decide
  split
  · decide
  · exact Nat.le_refl 1

/-- Behind the top context only commands without arguments are visible. -/
theorem least_of_visible {c : ShellCommand} (hc : c ∈ commonCommands)
    {currentContext : List UInt8} (hvisible : c.visible currentContext) :
    c.cmdp.least = required currentContext c.cmd := by
  have htop : commonCommands.all fun c => c.cmdp.least = required [] c.cmd := by decide
  have helse : commonCommands.all fun c => c.context = [] ∨ c.cmdp.least = 1 := by decide
  by_cases hctx : currentContext = []
  · subst hctx
    exact of_decide_eq_true (List.all_eq_true.mp htop c hc)
  · rw [required_of_ne hctx]
    rcases of_decide_eq_true (List.all_eq_true.mp helse c hc) with hnil | hleast
    · simp [ShellCommand.visible, hnil, hctx] at hvisible
    · exact hleast

theorem required_of_not_found {currentContext args0 : List UInt8}
    (h : commonCommands.find? (·.hit args0 currentContext) = none) :
    required currentContext args0 = 1 := by
  unfold required
  split
  case isTrue hreads =>
    obtain ⟨rfl, hmem⟩ := hreads
    simp only [List.mem_cons, List.not_mem_nil, or_false] at hmem
    rcases hmem with rfl | rfl | rfl <;> exact absurd h (by decide)
  split
  case isTrue hwrites =>
    obtain ⟨rfl, hmem⟩ := hwrites
    simp only [List.mem_cons, List.not_mem_nil, or_false] at hmem
    rcases hmem with rfl | rfl | rfl <;> exact absurd h (by decide)
  case isFalse => rfl

theorem required_of_dropped {currentContext args0 : List UInt8}
    (h : args0 = [] ∨ args0.head? = some 0xb0) : required currentContext args0 = 1 := by
  apply required_of_not_found
  apply List.find?_eq_none.mpr
  intro c hc hhit
  have hnames : commonCommands.all fun c => ¬ (c.cmd = [] ∨ c.cmd.head? = some 0xb0) := by decide
  rw [(ShellCommand.hit_iff.mp hhit).1] at h
  exact of_decide_eq_true (List.all_eq_true.mp hnames c hc) h

theorem common_least_iff {argc : Nat} (hpos : 0 < argc) (currentContext args0 : List UInt8) :
    (∀ c, commonCommands.find? (·.hit args0 currentContext) = some c → c.cmdp.least ≤ argc) ↔
      required currentContext args0 ≤ argc := by
  cases hfind : commonCommands.find? (·.hit args0 currentContext) with
  | none =>
    rw [required_of_not_found hfind]
    exact iff_of_true nofun hpos
  | some c =>
    obtain ⟨hargs, hvisible⟩ := ShellCommand.hit_iff.mp (List.find?_some hfind)
    rw [hargs, ← least_of_visible (List.mem_of_find?_eq_some hfind) hvisible]
    simp

theorem main_least : ∀ c ∈ mainCommands, c.cmdp.least = 1 ∧ c.cmdp ≠ .exit := by
  have hall : mainCommands.all fun c => c.cmdp.least = 1 ∧ c.cmdp ≠ .exit := by decide
  intro c hc
  exact of_decide_eq_true (List.all_eq_true.mp hall c hc)

/-- Only the second table has handlers that may lack an argument. -/
theorem defined_readTables_iff {argc : Nat} (hpos : 0 < argc) (s : ShellState (List Action))
    (m : Stores Unit (List UInt8)) :
    Defined (readTables argc argc (.start s) dispatchTableTable) m ↔
      required s.currentContext (m () 0) ≤ argc := by
  have hmain : Defined (readTable argc argc (.start s) mainCommands) m := by
    rw [defined_readTable_iff hpos]
    intro c hc
    rw [(main_least c (List.mem_of_find?_eq_some hc)).1]
    exact hpos
  obtain ⟨d, m', hrun⟩ := hmain.runs
  obtain ⟨rfl, -⟩ := readsOnly_readTable _ _ (Nat.le_refl argc) hrun
  have hcontext : d.state.currentContext = s.currentContext :=
    context_of_readTable (fun c hc => (main_least c hc).2) hrun
  change Defined (readTable argc argc (.start s) mainCommands >>= fun d =>
    readTables argc argc d [commonCommands]) m' ↔ _
  have hend (e : Dispatch (List Action)) (m : Stores Unit (List UInt8)) :
      Defined (readTables argc argc e []) m := defined_pure e m
  rw [hrun.defined_bind_iff, readTables, defined_bind_total_iff m' hend,
    defined_readTable_iff hpos, hcontext]
  exact common_least_iff hpos s.currentContext (m' () 0)

theorem defined_readCommand_iff (argc : Nat) (s : ShellState (List Action)) :
    Defined (readCommand argc argc s) s.slots ↔
      required s.currentContext (s.slots () 0) ≤ argc := by
  have hrequired := required_pos s.currentContext (s.slots () 0)
  rw [readCommand, arg, defined_load_bind_iff, defined_ite_iff]
  by_cases hpos : 0 < argc
  case neg => exact iff_of_false (fun h => hpos h.1) (by omega)
  by_cases hdropped : s.slots () 0 = [] ∨ (s.slots () 0).head? = some 0xb0
  case pos =>
    rw [required_of_dropped hdropped]
    exact iff_of_true ⟨hpos, fun _ => defined_pure _ _, fun h => absurd hdropped h⟩ hpos
  case neg =>
    have htables := defined_readTables_iff hpos s s.slots
    rw [← defined_bind_total_iff s.slots fun (d : Dispatch (List Action)) m' =>
      defined_pure d.finish m'] at htables
    rw [← htables]
    exact ⟨fun h => h.2.2 hdropped, fun h => ⟨hpos, fun hd => absurd hd hdropped, fun _ => h⟩⟩

/-- A line comes to its end with no look at an argument that is not there exactly when it has an
open quote or as many arguments as its command looks at. -/
theorem arguments_present_iff (l : Line) (beyond : List UInt8) (s : ShellState (List Action)) :
    (cmdParseArgs (l.memory beyond) s).isSome ↔
      ((readLine l.text).unmatched = none →
        required s.currentContext ((readLine l.text).args.headD []) ≤
          (readLine l.text).args.length) := by
  have hunmatched := (tokenize_agrees l beyond).unmatched
  cases hread : (readLine l.text).unmatched with
  | some quote =>
    rw [hread] at hunmatched
    simp only [cmdParseArgs, hunmatched]
    exact iff_of_true rfl nofun
  | none =>
    rw [hread] at hunmatched
    have hcommand := defined_readCommand_iff (tokenize (l.memory beyond)).argc
      { s with argv := (tokenize (l.memory beyond)).argv }
    simp only [cmdParseArgs, hunmatched, Option.isSome_map, forall_const]
    rw [argc_eq, argv_eq] at hcommand ⊢
    refine hcommand.trans ?_
    cases hargs : (readLine l.text).args with
    | nil =>
      have hpos := required_pos s.currentContext
      exact iff_of_false (Nat.not_le_of_lt (hpos _)) (Nat.not_le_of_lt (hpos _))
    | cons args0 args => exact Iff.rfl

/-- `r8` without an address. -/
theorem address_missing :
    ¬ ∀ (l : Line) (beyond : List UInt8) (s : ShellState (List Action)),
      (cmdParseArgs (l.memory beyond) s).isSome := by
  intro h
  have hr8 := h ⟨ascii "r8", by decide, by decide⟩ [] ⟨[], [], [], []⟩
  exact absurd hr8 (by decide)

end UsbSpdt
