import UsbSpdt.Eeprom.Driver
import UsbSpdt.Library.Service

/-!
# The driver refines a memory

Sequences of driver calls against an array of 512 bytes addressed modulo its size.
-/

namespace UsbSpdt

inductive EepromOp where
  | write (address : UInt16) (data : UInt8)
  | read (address : UInt16)
  | erase (address : UInt16)
  | eraseAll

namespace EepromOp

def body : EepromOp → Program EepromBus (Option UInt8)
  | .write address data => do
    eeprom9366Write address data
    pure none
  | .read address => do pure (some (← eeprom9366Read address))
  | .erase address => do
    eeprom9366Erase address
    pure none
  | .eraseAll => do
    eeprom9366EraseAll
    pure none

/-- What the operation means for an array of bytes. -/
def onArray (cells : Image) : EepromOp → Option UInt8 × Image
  | .write address data => (none, Function.update cells (Fin.ofNat 512 address.toNat) data)
  | .read address => (some (cells (Fin.ofNat 512 address.toNat)), cells)
  | .erase address => (none, Function.update cells (Fin.ofNat 512 address.toNat) 0xFF)
  | .eraseAll => (none, fun _ => 0xFF)

end EepromOp

/-- The bus is that of an EEPROM at rest whose memory is `cells`. -/
def EepromBus.Holds (bus : EepromBus) (cells : Image) : Prop :=
  ∃ e : Eeprom, e.bus = bus ∧ e.image = cells

theorem EepromOp.body_refines (bus : EepromBus) (cells : Image) (o : EepromOp)
    (h : bus.Holds cells) :
    (o.body.run bus).1 = (o.onArray cells).1 ∧ (o.body.run bus).2.Holds (o.onArray cells).2 := by
  obtain ⟨e, rfl, rfl⟩ := h
  cases o with
  | write address data =>
    simp only [body, Program.run_bind, Program.run_pure]
    exact ⟨rfl, e.write address data, rfl, e.write_image address data⟩
  | read address =>
    simp only [body, Program.run_bind, Program.run_pure, e.run_read, e.read_eq]
    exact ⟨rfl, e, rfl, rfl⟩
  | erase address =>
    simp only [body, Program.run_bind, Program.run_pure]
    exact ⟨rfl, e.erase address, rfl, e.erase_image address⟩
  | eraseAll =>
    simp only [body, Program.run_bind, Program.run_pure]
    exact ⟨rfl, e.eraseAll, rfl, e.eraseAll_image⟩

/-- The driver's routines called one after another. -/
def driverRun (bus : EepromBus) (os : List EepromOp) : List (Option UInt8) × EepromBus :=
  Service.run (fun bus o => o.body.run bus) bus os

def arrayRun (cells : Image) (os : List EepromOp) : List (Option UInt8) × Image :=
  Service.run EepromOp.onArray cells os

theorem driverRun_refines {bus : EepromBus} {cells : Image} (h : bus.Holds cells)
    (os : List EepromOp) :
    (driverRun bus os).1 = (arrayRun cells os).1 ∧
      (driverRun bus os).2.Holds (arrayRun cells os).2 :=
  Service.run_simulates EepromOp.body_refines h os

theorem driver_refines_array (cells : Image) (os : List EepromOp) :
    (driverRun ⟨Chip.powerUp cells, 0⟩ os).1 = (arrayRun cells os).1 ∧
      (driverRun ⟨Chip.powerUp cells, 0⟩ os).2.chip.cells = (arrayRun cells os).2 := by
  have hholds : (⟨Chip.powerUp cells, 0⟩ : EepromBus).Holds cells :=
    ⟨Eeprom.powerUp cells, rfl, Eeprom.powerUp_image cells⟩
  obtain ⟨hresults, e, hbus, himage⟩ := driverRun_refines hholds os
  constructor
  · exact hresults
  · rw [← hbus, ← himage]
    rfl

end UsbSpdt
