import Mathlib.Data.Fintype.Basic
import UsbSpdt.Board.Spdt
import UsbSpdt.Eeprom.Refinement

/-!
# The debug shell

The commands of `command.c` that operate the switches and the EEPROM. The shell is a task beside
the instrument task, of the same priority.
-/

namespace UsbSpdt

inductive FirmwareTask where
  | instrument | shell
  deriving DecidableEq, Repr

instance : Fintype FirmwareTask where
  elems := {.instrument, .shell}
  complete := by
    intro i
    cases i <;> decide

/-- The argument of `s1` and `s2`: the first character of the one word after the command. -/
def switchArg : List (List UInt8) → Option Int
  | [_, word] =>
    let ch := word.headD 0
    if ch = 0x41 ∨ ch = 0x61 then some 1
    else if ch = 0x42 ∨ ch = 0x62 then some 0
    else none
  | _ => none

def cmdSw1 (argv : List (List UInt8)) : Program Board Unit :=
  match switchArg argv with
  | some on => s1J1sel on
  | none => pure () -- prints its usage

def cmdSw2 (argv : List (List UInt8)) : Program Board Unit :=
  match switchArg argv with
  | some on => s2J1sel on
  | none => pure ()

def readBlock : List UInt16 → Program EepromBus (List UInt8)
  | [] => pure []
  | a :: as => do
    let d ← eeprom9366Read a
    let ds ← readBlock as
    pure (d :: ds)

/-- `eeprom9366_test`, with the bytes that it prints. -/
def eeprom9366Test : Program EepromBus (List UInt8) := do
  eeprom9366EraseAll
  let erased ← eeprom9366Read 0x10
  eeprom9366Write 0x10 0x41
  let written ← eeprom9366Read 0x10
  let beside ← eeprom9366Read 0x11
  eeprom9366Write 0x11 0x01
  eeprom9366Write 0x12 0x2
  eeprom9366Write 0x13 0x3
  let block ← readBlock [0x10, 0x11, 0x12, 0x13, 0x14]
  eeprom9366Erase 0x10
  let cleared ← eeprom9366Read 0x10
  pure ([erased, written, beside] ++ block ++ [cleared])

def cmdTestee : Program EepromBus (List UInt8) := eeprom9366Test

def cmdEraseee : Program EepromBus Unit := eeprom9366EraseAll

/-- The calls of the driver that `testee` makes. -/
def testeeOps : List EepromOp :=
  [.eraseAll, .read 0x10, .write 0x10 0x41, .read 0x10, .read 0x11, .write 0x11 0x01,
    .write 0x12 0x2, .write 0x13 0x3] ++
    [0x10, 0x11, 0x12, 0x13, 0x14].map .read ++ [.erase 0x10, .read 0x10]

/-- The test calls `testeeOps` in that order, whatever its four routines do. -/
theorem run_test_with {σ : Type} {read : UInt16 → Program σ UInt8}
    {write : UInt16 → UInt8 → Program σ Unit} {erase : UInt16 → Program σ Unit}
    {eraseAll : Program σ Unit} {body : EepromOp → Program σ (Option UInt8)}
    (hread : ∀ a, body (.read a) = (do pure (some (← read a))))
    (hwrite : ∀ a d, body (.write a d) = (do write a d; pure none))
    (herase : ∀ a, body (.erase a) = (do erase a; pure none))
    (heraseAll : body .eraseAll = (do eraseAll; pure none)) (bus : σ) :
    (do
      eraseAll
      let erased ← read 0x10
      write 0x10 0x41
      let written ← read 0x10
      let beside ← read 0x11
      write 0x11 0x01
      write 0x12 0x2
      write 0x13 0x3
      let d0 ← read 0x10
      let d1 ← read 0x11
      let d2 ← read 0x12
      let d3 ← read 0x13
      let d4 ← read 0x14
      erase 0x10
      let cleared ← read 0x10
      pure [erased, written, beside, d0, d1, d2, d3, d4, cleared]).run bus =
    ((Service.run (fun bus o => (body o).run bus) bus testeeOps).1.filterMap id,
      (Service.run (fun bus o => (body o).run bus) bus testeeOps).2) := by
  simp only [testeeOps, List.map_cons, List.map_nil, List.cons_append, List.nil_append,
    Service.run_cons, Service.run_nil, hread, hwrite, herase, heraseAll, Program.run_bind,
    Program.run_pure, List.filterMap_cons, List.filterMap_nil, id]

theorem run_cmdTestee (bus : EepromBus) :
    cmdTestee.run bus = ((driverRun bus testeeOps).1.filterMap id, (driverRun bus testeeOps).2) :=
  run_test_with (fun _ => rfl) (fun _ _ => rfl) (fun _ => rfl) rfl bus

/-- The test passes on every EEPROM at rest: it prints the bytes that its own text announces. -/
theorem testee_prints (e : Eeprom) :
    (cmdTestee.run e.bus).1 = [0xFF, 0x41, 0xFF, 0x41, 1, 2, 3, 0xFF, 0xFF] := by
  have hresults := (driverRun_refines ⟨e, rfl, rfl⟩ testeeOps).1
  rw [run_cmdTestee, hresults]
  rfl

end UsbSpdt
