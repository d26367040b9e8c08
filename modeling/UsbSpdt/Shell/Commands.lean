import UsbSpdt.Library.Bounded
import UsbSpdt.Shell.Dispatch

/-!
# The commands of the firmware

The handlers of `command.c` and `debug_shell.c`, and the tables that name them. A handler reads its
arguments through `args`, as a program with a bound on the slots that it may read, and comes to its
return value and to what it does besides.
-/

namespace UsbSpdt

def ascii (s : String) : List UInt8 := s.toList.map fun c => UInt8.ofNat c.toNat

/-- What a handler does with what it has read. -/
inductive Action where
  | print (text : String)
  | printCommand (cmd : List UInt8) (shortHelp : String)
  | printUnknown (command : List UInt8)
  | printBuildInfo | printBuildSha1 | printId
  | hardfault | timer | showHv | vTaskList | vTaskGetRunTimeStats | mallinfo | resetSystem
  | hvOn (on : Int)
  | s1J1sel (on : Int)
  | s2J1sel (on : Int)
  | aux (switchN : Nat) (on : UInt32)
  | eeprom9366Test | eeprom9366EraseAll
  | peek (bits : Nat) (a : UInt32)
  | poke (bits : Nat) (a val : UInt32)

inductive Handler where
  | buildInfo | buildSha1 | hardfault | timer | hv | aux | sw1 | sw2 | testee | eraseee
  | identify | read | write | stack | taskstats | mallocstats | reboot | exit | help
  deriving DecidableEq

structure ShellCommand where
  context : List UInt8
  cmd : List UInt8
  shortHelp : String
  cmdp : Handler

def ShellCommand.visible (c : ShellCommand) (currentContext : List UInt8) : Bool :=
  currentContext = c.context ∨ c.context.head? = some 0x2a

def mainCommands : List ShellCommand :=
  [⟨[], ascii "buildInfo", "                      Show build info", .buildInfo⟩,
    ⟨[], ascii "build_sha1", "                      Show SHA1 info", .buildSha1⟩,
    ⟨[], ascii "hardfault", "                      Cause a hard fault", .hardfault⟩,
    ⟨[], ascii "timer", "                      Test the hires timer", .timer⟩,
    ⟨[], ascii "hv", "[1|0]                 Turn high voltage on/off", .hv⟩,
    ⟨[], ascii "aux", "auxnum 1|0            Turn aux bit on/off", .aux⟩,
    ⟨[], ascii "s1", "[A|B                  Turn switch 1 to A or B", .sw1⟩,
    ⟨[], ascii "s2", "[A|B                  Turn switch 2 to A or B", .sw2⟩,
    ⟨[], ascii "testee", "                      Test eeprom", .testee⟩,
    ⟨[], ascii "eraseee", "                      Erase entire eeprom", .eraseee⟩]

def commonCommands : List ShellCommand :=
  [⟨[], ascii "i", "                      Identify the board and build", .identify⟩,
    ⟨[], ascii "r8", "Addr                  read one byte from Addr", .read⟩,
    ⟨[], ascii "r16", "Addr                  read one short from Addr", .read⟩,
    ⟨[], ascii "r32", "Addr                  read one word from Addr", .read⟩,
    ⟨[], ascii "w8", "Addr DD               write byte DD to Addr", .write⟩,
    ⟨[], ascii "w16", "Addr DDDD             write short DDDD to Addr", .write⟩,
    ⟨[], ascii "w32", "Addr DDDDDDDD         write word DDDDDDDD to Addr", .write⟩,
    ⟨[], ascii "stack", "                      Dump stack stats.", .stack⟩,
    ⟨[], ascii "tasks", "                      Dump task stats.", .taskstats⟩,
    ⟨[], ascii "heap", "                      Dump heap stats.", .mallocstats⟩,
    ⟨[], ascii "reboot", "                      Reboot.", .reboot⟩,
    ⟨ascii "*", ascii "exit", "                      Exit the current context (no-op if at top)",
      .exit⟩,
    ⟨ascii "*", ascii "help", "[cmd]                 This help, or help on a specific command",
      .help⟩,
    ⟨ascii "*", ascii "h", "[cmd]                 This help, or help on a specific command", .help⟩,
    ⟨ascii "*", ascii "?", "[cmd]                 This help, or help on a specific command", .help⟩]

def dispatchTableTable : List (List ShellCommand) := [mainCommands, commonCommands]

/-! ### The handlers -/

/-- Programs over `args`, of which only the first slots may be read through. -/
abbrev ArgReader := Bounded Unit (List UInt8)

def arg (slots i : Nat) : ArgReader (List UInt8) := Bounded.load slots () i

namespace Handler

variable (slots argc : Nat)

def cmdHv : ArgReader (Int32 × List Action) :=
  if argc = 1 then pure (0, [.showHv])
  else if argc = 2 then do
    let val := (CString.strtoul (← arg slots 1)).toUInt16
    pure (0, [.hvOn (if val ≠ 0 then 1 else 0)])
  else pure (1, [.print "usage: hv 1|0 \n"])

/-- `cmd_sw1` and `cmd_sw2`. -/
def cmdSw (select : Int → Action) (usage : String) : ArgReader (Int32 × List Action) :=
  if argc = 2 then do
    let ch := (← arg slots 1).headD 0
    if ch = 0x41 ∨ ch = 0x61 then pure (0, [select 1])
    else if ch = 0x42 ∨ ch = 0x62 then pure (0, [select 0])
    else pure (1, [.print usage])
  else pure (1, [.print usage])

def cmdSw1 : ArgReader (Int32 × List Action) := cmdSw slots argc .s1J1sel "usage: s1 A|B \n"

def cmdSw2 : ArgReader (Int32 × List Action) := cmdSw slots argc .s2J1sel "usage: s2 A|B \n"

def cmdAux : ArgReader (Int32 × List Action) :=
  if argc = 3 then do
    let switchN := CString.strtoul (← arg slots 1)
    let val := CString.strtoul (← arg slots 2)
    if switchN.toNat < 4 then pure (0, [.aux switchN.toNat val])
    else pure (1, [.print "Aux can be 0,1,2,3,or 4\n"])
  else pure (1, [.print "Usage: aux <switch number> 1|0\n"])

/-- Unlike its siblings it does not look at `argc`. -/
def cmdRead : ArgReader (Int32 × List Action) := do
  let a := CString.strtoul (← arg slots 1)
  let name ← arg slots 0
  if name = ascii "r8" then pure (0, [.peek 8 a])
  else if name = ascii "r16" then pure (0, [.peek 16 a])
  else if name = ascii "r32" then pure (0, [.peek 32 a])
  else pure (0, [])

def cmdWrite : ArgReader (Int32 × List Action) := do
  let a := CString.strtoul (← arg slots 1)
  let val32 := CString.strtoul (← arg slots 2)
  let name ← arg slots 0
  if name = ascii "w8" then pure (0, [.poke 8 a val32])
  else if name = ascii "w16" then pure (0, [.poke 16 a val32])
  else if name = ascii "w32" then pure (0, [.poke 32 a val32])
  else pure (0, [])

def cmdHelp (currentContext : List UInt8) : ArgReader (Int32 × List Action) :=
  if argc = 1 then
    pure (0, (dispatchTableTable.flatten.filter (·.visible currentContext)).map fun c =>
      .printCommand c.cmd c.shortHelp)
  else do
    let command ← arg slots 1
    let found := dispatchTableTable.filterMap fun table =>
      table.find? fun c => command = c.cmd ∧ c.visible currentContext
    if found = [] then pure (1, [.printUnknown command])
    else pure (0, found.map fun c => .printCommand command c.shortHelp)

def run (currentContext : List UInt8) : Handler → ArgReader (Int32 × List Action)
  | buildInfo => pure (0, [.printBuildInfo])
  | buildSha1 => pure (0, [.printBuildSha1])
  | hardfault => pure (0, [.hardfault])
  | timer => pure (0, [.timer])
  | hv => cmdHv slots argc
  | aux => cmdAux slots argc
  | sw1 => cmdSw1 slots argc
  | sw2 => cmdSw2 slots argc
  | testee => pure (0, [.eeprom9366Test])
  | eraseee => pure (0, [.eeprom9366EraseAll])
  | identify => pure (0, [.print "USB Attenuator/Switch Controller\n", .printId])
  | read => cmdRead slots
  | write => cmdWrite slots
  | stack => pure (0, [.vTaskList])
  | taskstats => pure (0, [.vTaskGetRunTimeStats])
  | mallocstats => pure (0, [.mallinfo])
  | reboot => pure (0, [.resetSystem])
  | exit => pure (0, [])
  | help => cmdHelp slots argc currentContext

/-- `cmd_exit` leaves the context, and no other handler touches it. -/
def contextAfter : Handler → List UInt8 → List UInt8
  | exit, _ => []
  | _, currentContext => currentContext

end Handler

/-! ### Looking a command up -/

def ShellState.acted (s : ShellState (List Action)) (h : Handler) (actions : List Action) :
    ShellState (List Action) :=
  { s with currentContext := h.contextAfter s.currentContext, memory := s.memory ++ actions }

/-- What is found through each slot; a slot without an argument holds the address zero. -/
def ShellState.slots {σ : Type} (s : ShellState σ) : Stores Unit (List UInt8) :=
  fun _ i => s.argv.getD i s.atZero

/-- The command as an entry of a table, under a bound that no handler reaches. -/
def ShellCommand.entry (c : ShellCommand) : DispatchEntry (List Action) where
  context := c.context
  cmd := c.cmd
  cmdp := some fun argc s =>
    match c.cmdp.run (argc + debugShellMaxargs) argc s.currentContext s.slots with
    | some ((rval, actions), _) => (rval, s.acted c.cmdp actions)
    | none => (0, s)

variable (slots argc : Nat)

/-- The loop over one table, with what it reads through `args`. -/
def readTable (d : Dispatch (List Action)) : List ShellCommand → ArgReader (Dispatch (List Action))
  | [] => pure d
  | c :: table => do
    let args0 ← arg slots 0
    if args0 = c.cmd ∧ c.visible d.state.currentContext then
      let (rval, actions) ← c.cmdp.run slots argc d.state.currentContext
      pure ⟨d.state.acted c.cmdp actions, rval, true, d.calls ++ [c.entry]⟩
    else readTable d table

def readTables (d : Dispatch (List Action)) :
    List (List ShellCommand) → ArgReader (Dispatch (List Action))
  | [] => pure d
  | table :: tables => do
    let d ← readTable slots argc d table
    readTables d tables

/-- `cmdParse` behind the tokenizer, over the tables of the firmware. -/
def readCommand (s : ShellState (List Action)) : ArgReader (Dispatch (List Action)) := do
  let args0 ← arg slots 0
  if args0 = [] ∨ args0.head? = some 0xb0 then pure (.start s)
  else do
    let d ← readTables slots argc (.start s) dispatchTableTable
    pure d.finish

/-- `cmdParse`, which has no result when it or a handler reads through a slot without an argument of
the line. -/
def cmdParseArgs (cmdstr : List UInt8) (s : ShellState (List Action)) :
    Option (Dispatch (List Action)) :=
  let t := tokenize cmdstr
  let s := { s with argv := t.argv }
  match t.unmatched with
  | none => (readCommand t.argc t.argc s s.slots).map Prod.fst
  | some _ => some ⟨s, 0xff, false, []⟩

end UsbSpdt
