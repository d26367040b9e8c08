import UsbSpdt.Boot.ReadEEprom

/-!
# Reading the configuration step by step

`readEEprom` as the task that runs it: every edge on the bus of the EEPROM is a step of its own, and
the task is blocked wherever the driver waits.
-/

namespace UsbSpdt

/-- What `readEEprom` reads and writes. -/
structure BootGlobals where
  bus : EepromBus
  board : Board
  identity : Identity
  stores : List Store

def Boot.globals (b : Boot) : BootGlobals := ⟨b.eeprom.bus, b.board, b.identity, b.stores⟩

namespace BootTask

open Program

def onBus {α : Type} (p : Program EepromBus α) : Program BootGlobals α :=
  p.within BootGlobals.bus fun f s => { s with bus := f s.bus }

def onBoard {α : Type} (p : Program Board α) : Program BootGlobals α :=
  p.within BootGlobals.board fun f s => { s with board := f s.board }

def eeprom9366Read (address : UInt16) : Program BootGlobals UInt8 :=
  onBus (UsbSpdt.eeprom9366Read address)

def store (st : Store) : Program BootGlobals Unit :=
  Program.modify fun s => { s with stores := s.stores ++ [st] }

def copyLoop (dest : StringArray) (addr : UInt16) : List Nat → Program BootGlobals Unit
  | [] => pure ()
  | j :: js => do
    let byte ← eeprom9366Read (addr + UInt16.ofNat j)
    store ⟨dest, j, byte⟩
    copyLoop dest addr js

def copyFromEE (dest : StringArray) (addr : UInt16) (len : UInt8) : Program BootGlobals Unit := do
  copyLoop dest addr (List.range len.toNat)
  store ⟨dest, len.toNat, 0⟩

def readStrPtr (address : UInt16) : Program BootGlobals UInt16 := do
  let low ← eeprom9366Read address
  let high ← eeprom9366Read (address + 1)
  pure (LittleEndian.word low high)

def readVendorID : Program BootGlobals Unit := do
  let id ← readStrPtr 1
  if id ≠ 0 then
    Program.modify fun s =>
      { s with identity := { s.identity with idVendor := id, vendorID := id } }

def readProductID : Program BootGlobals Unit := do
  let id ← readStrPtr 3
  if id ≠ 0 then
    Program.modify fun s =>
      { s with identity := { s.identity with idProduct := id, productID := id } }

def readString (array : StringArray) : Program BootGlobals Unit := do
  let strPtr ← readStrPtr array.record
  let strLen ← eeprom9366Read (array.record + 2)
  if strPtr ≠ 0 ∧ strLen ≠ 0 then
    copyFromEE array strPtr strLen

def readPolarity (address : UInt16) (setPulseHigh : Int → Program Board Unit) :
    Program BootGlobals Unit := do
  let polarity ← eeprom9366Read address
  if polarity = 0 ∨ polarity = 1 then
    onBoard (setPulseHigh polarity.toNat)

def readEEprom : Program BootGlobals Unit := do
  let dataValid ← eeprom9366Read 0
  if dataValid = magic then do
    readVendorID
    readProductID
    readString .manufacturer
    readString .product
    readString .serialNumber
    readPolarity 0xE s1SetPulseHigh
    readPolarity 0xF s2SetPulseHigh

/-! ### Alone it does what `readEEprom` does -/

theorem run_onBus {α : Type} (p : Program EepromBus α) (s : BootGlobals) :
    (onBus p).run s = ((p.run s.bus).1, { s with bus := (p.run s.bus).2 }) := by
  rw [onBus, run_within]
  all_goals
    intros
    rfl

theorem run_onBoard {α : Type} (p : Program Board α) (s : BootGlobals) :
    (onBoard p).run s = ((p.run s.board).1, { s with board := (p.run s.board).2 }) := by
  rw [onBoard, run_within]
  all_goals
    intros
    rfl

@[simp]
theorem run_eeprom9366Read (address : UInt16) (b : Boot) :
    (eeprom9366Read address).run b.globals = (b.eeprom.read address, b.globals) := by
  have hread := b.eeprom.run_read address
  rw [eeprom9366Read, run_onBus]
  change (((UsbSpdt.eeprom9366Read address).run b.eeprom.bus).1,
    { b.globals with bus := ((UsbSpdt.eeprom9366Read address).run b.eeprom.bus).2 }) = _
  rw [hread]
  rfl

@[simp]
theorem run_store (st : Store) (b : Boot) :
    (store st).run b.globals = ((), { b with stores := b.stores ++ [st] }.globals) := rfl

theorem run_copyLoop (dest : StringArray) (addr : UInt16) (js : List Nat) (b : Boot) :
    (copyLoop dest addr js).run b.globals =
      ((), { b with
        stores := b.stores ++
          js.map (fun j => Store.mk dest j (b.eeprom.read (addr + UInt16.ofNat j))) }.globals) := by
  induction js generalizing b with
  | nil => simp [copyLoop]
  | cons j js ih =>
    rw [copyLoop, run_bind, run_eeprom9366Read, run_bind, run_store, ih]
    simp only [List.map_cons, List.append_assoc, List.singleton_append]

theorem run_copyFromEE (dest : StringArray) (addr : UInt16) (len : UInt8) (b : Boot) :
    (copyFromEE dest addr len).run b.globals =
      ((), { b with stores := b.stores ++ UsbSpdt.copyFromEE b.eeprom dest addr len }.globals) := by
  rw [copyFromEE, run_bind, run_copyLoop, run_store, UsbSpdt.copyFromEE]
  simp only [List.append_assoc]

@[simp]
theorem run_readStrPtr (address : UInt16) (b : Boot) :
    (readStrPtr address).run b.globals = (UsbSpdt.readStrPtr b.eeprom address, b.globals) := by
  rw [readStrPtr, run_bind, run_eeprom9366Read, run_bind, run_eeprom9366Read]
  rfl

theorem run_readVendorID (b : Boot) :
    readVendorID.run b.globals = ((), (UsbSpdt.readVendorID b).globals) := by
  rw [readVendorID, run_bind, run_readStrPtr, UsbSpdt.readVendorID]
  dsimp only
  split <;> rfl

theorem run_readProductID (b : Boot) :
    readProductID.run b.globals = ((), (UsbSpdt.readProductID b).globals) := by
  rw [readProductID, run_bind, run_readStrPtr, UsbSpdt.readProductID]
  dsimp only
  split <;> rfl

theorem run_readString (array : StringArray) (b : Boot) :
    (readString array).run b.globals = ((), (UsbSpdt.readString array b).globals) := by
  rw [readString, run_bind, run_readStrPtr, run_bind, run_eeprom9366Read, UsbSpdt.readString]
  dsimp only
  split
  · exact run_copyFromEE array _ _ b
  · rfl

theorem run_readPolarity (address : UInt16) (set : Int → Program Board Unit) (b : Boot) :
    (readPolarity address set).run b.globals =
      ((), (UsbSpdt.readPolarity address set b).globals) := by
  rw [readPolarity, run_bind, run_eeprom9366Read, UsbSpdt.readPolarity]
  dsimp only
  split
  · exact run_onBoard _ _
  · rfl

theorem run_readEEprom (b : Boot) :
    readEEprom.run b.globals = ((), (UsbSpdt.readEEprom b).globals) := by
  rw [readEEprom, run_bind, run_eeprom9366Read, UsbSpdt.readEEprom]
  dsimp only
  split
  · simp only [run_bind, run_readVendorID, run_readProductID, run_readString, run_readPolarity]
  · rfl

end BootTask

end UsbSpdt
