import UsbSpdt.Eeprom.Chip
import UsbSpdt.Platform

/-!
# The EEPROM driver

`eeprom9366.c`. The driver lays an instruction of the chip out in the bytes of the SPI bus; at rest
the chip is in standby, and it accepts writes whenever the driver's flag says so. `Eeprom` carries
both facts, and its operations are the driver's routines run on it.
-/

namespace UsbSpdt

structure EepromBus where
  chip : Chip
  writeEnabled : UInt32

def spiXfer (b : UInt8) : Program EepromBus UInt8 := do
  let bus ← Program.get
  let (sampled, chip) := bus.chip.shift (Bits.ofNat 8 b.toNat)
  Program.modify ({ · with chip := chip })
  pure (UInt8.ofNat (Bits.toNat sampled))

def assertCS : Program EepromBus Unit :=
  Program.modify fun bus => { bus with chip := bus.chip.select }

def deassertCS : Program EepromBus Unit := do
  delayms 1
  Program.modify fun bus => { bus with chip := bus.chip.deselect }

def spiTransaction (command : UInt8) (address : UInt16) (data : UInt8) :
    Program EepromBus UInt8 := do
  let b1 := UInt8.ofNat (command.toNat <<< 2 ||| (address.toNat &&& 0x180) >>> 7)
  let b2 := UInt8.ofNat ((address.toNat &&& 0x7f) <<< 1 ||| (data.toNat &&& 0x80) >>> 7)
  let b3 := UInt8.ofNat ((data.toNat &&& 0x7f) <<< 1)
  assertCS
  let _ ← spiXfer b1
  let _ ← spiXfer b2
  let rbyte ← spiXfer b3
  deassertCS
  pure rbyte

def spiCMD (command : UInt8) (address : UInt16) : Program EepromBus Unit := do
  let b1 := UInt8.ofNat (command.toNat <<< 1 ||| (address.toNat &&& 0x100) >>> 8)
  let b2 := UInt8.ofNat (address.toNat &&& 0xff)
  assertCS
  let _ ← spiXfer b1
  let _ ← spiXfer b2
  deassertCS

def writeEnable : Program EepromBus Unit := do
  if (← Program.get).writeEnabled = 0 then
    spiCMD 0x4 0x180
    Program.modify ({ · with writeEnabled := 1 })

def eeprom9366EraseAll : Program EepromBus Unit := do
  writeEnable
  spiCMD 0x4 0x100
  delayms 10

def eeprom9366Erase (address : UInt16) : Program EepromBus Unit := do
  writeEnable
  spiCMD 0x7 address
  delayms 10

def eeprom9366Write (address : UInt16) (data : UInt8) : Program EepromBus Unit := do
  writeEnable
  let _ ← spiTransaction 0x5 address data
  delayms 10

def eeprom9366Read (address : UInt16) : Program EepromBus UInt8 := spiTransaction 0x6 address 0

/-! ### The bytes on the bus -/

theorem bits_byte (n : Nat) : Bits.ofNat 8 (UInt8.ofNat n).toNat = Bits.ofNat 8 n := by
  rw [UInt8.toNat_ofNat', Bits.ofNat_mod n (Nat.le_refl 8)]

theorem byte_bits (b : UInt8) : UInt8.ofNat (Bits.toNat (Bits.ofNat 8 b.toNat)) = b := by
  rw [Bits.toNat_ofNat, Nat.mod_eq_of_lt b.toNat_lt, UInt8.ofNat_toNat]

theorem bits_b1_b2 (command address data : Nat) :
    Bits.ofNat 8 (command <<< 2 ||| (address &&& 0x180) >>> 7) ++
        Bits.ofNat 8 ((address &&& 0x7f) <<< 1 ||| (data &&& 0x80) >>> 7) =
      Bits.ofNat 6 command ++ Bits.ofNat 9 address ++ Bits.ofNat 1 (data >>> 7) := by
  have ha : (address &&& 0x180) >>> 7 = (address >>> 7) % 2 ^ 2 := Bits.and_field address 2 7
  have hl : address &&& 0x7f = address % 2 ^ 7 := Nat.and_two_pow_sub_one_eq_mod address 7
  have hd : (data &&& 0x80) >>> 7 = (data >>> 7) % 2 ^ 1 := Bits.and_field data 1 7
  rw [ha, hl, hd, Bits.ofNat_pack 6 2 _ _ (Nat.mod_lt _ (by decide)),
    Bits.ofNat_pack 7 1 _ _ (Nat.mod_lt _ (by decide)), Bits.ofNat_mod _ (Nat.le_refl 2),
    Bits.ofNat_mod _ (Nat.le_refl 7), Bits.ofNat_mod _ (Nat.le_refl 1), Bits.ofNat_add 2 7 address]
  simp only [List.append_assoc]

theorem bits_b3 (data : Nat) :
    Bits.ofNat 1 (data >>> 7) ++ Bits.ofNat 8 ((data &&& 0x7f) <<< 1) =
      Bits.ofNat 8 data ++ [false] := by
  have hd : data &&& 0x7f = data % 2 ^ 7 := Nat.and_two_pow_sub_one_eq_mod data 7
  have hp := Bits.ofNat_pack 7 1 (data % 2 ^ 7) 0 (by decide)
  rw [Nat.or_zero] at hp
  rw [hd, hp, Bits.ofNat_mod _ (Nat.le_refl 7), Bits.ofNat_add 1 7 data, List.append_assoc]
  rfl

theorem bits_command (command address : Nat) :
    Bits.ofNat 8 (command <<< 1 ||| (address &&& 0x100) >>> 8) ++ Bits.ofNat 8 (address &&& 0xff) =
      Bits.ofNat 7 command ++ Bits.ofNat 9 address := by
  have hh : (address &&& 0x100) >>> 8 = (address >>> 8) % 2 ^ 1 := Bits.and_field address 1 8
  have hl : address &&& 0xff = address % 2 ^ 8 := Nat.and_two_pow_sub_one_eq_mod address 8
  rw [hh, hl, Bits.ofNat_pack 7 1 _ _ (Nat.mod_lt _ (by decide)), Bits.ofNat_mod _ (Nat.le_refl 1),
    Bits.ofNat_mod _ (Nat.le_refl 8), Bits.ofNat_add 1 8 address, List.append_assoc]

/-! ### What a transaction does -/

def EepromBus.rest (cells : Image) (en : Bool) (flag : UInt32) : EepromBus :=
  ⟨⟨cells, en, .standby⟩, flag⟩

theorem run_spiXfer (b : UInt8) (bus : EepromBus) :
    (spiXfer b).run bus =
      (UInt8.ofNat (Bits.toNat (bus.chip.shift (Bits.ofNat 8 b.toNat)).1),
        { bus with chip := (bus.chip.shift (Bits.ofNat 8 b.toNat)).2 }) := rfl

/-- A transaction shifts the instruction and the data in, and samples while the last seven data
bits go out. -/
theorem run_spiTransaction (command : UInt8) (address : UInt16) (data : UInt8) (bus : EepromBus)
    (c : Chip) (hc : c = (bus.chip.select.shift (Bits.ofNat 6 command.toNat ++
      Bits.ofNat 9 address.toNat ++ Bits.ofNat 1 (data.toNat >>> 7))).2) :
    (spiTransaction command address data).run bus =
      (UInt8.ofNat (Bits.toNat (c.shift (Bits.ofNat 8 ((data.toNat &&& 0x7f) <<< 1))).1),
        ⟨(c.shift (Bits.ofNat 8 ((data.toNat &&& 0x7f) <<< 1))).2.deselect, bus.writeEnabled⟩) := by
  subst hc
  rw [← bits_b1_b2, Chip.shift_append]
  simp only [spiTransaction, assertCS, deassertCS, Program.run_bind, Program.run_modify,
    Program.run_pure, run_delayms, run_spiXfer, bits_byte]

theorem run_spiCMD (command : UInt8) (address : UInt16) (bus : EepromBus) :
    ((spiCMD command address).run bus).2 =
      ⟨(bus.chip.select.shift
        (Bits.ofNat 7 command.toNat ++ Bits.ofNat 9 address.toNat)).2.deselect,
        bus.writeEnabled⟩ := by
  rw [← bits_command, Chip.shift_append]
  simp only [spiCMD, assertCS, deassertCS, Program.run_bind, Program.run_modify, run_delayms,
    run_spiXfer, bits_byte]

theorem run_spiTransaction_write (cells : Image) (flag : UInt32) (address : UInt16)
    (data : UInt8) :
    ((spiTransaction 0x5 address data).run (.rest cells true flag)).2 =
      .rest (CyclicMemory.write cells address.toNat data) true flag := by
  have hwrite : CyclicMemory.write cells (address.toNat % 512) data =
      CyclicMemory.write cells address.toNat data :=
    CyclicMemory.write_congr cells data (Nat.mod_mod _ _)
  rw [run_spiTransaction _ _ _ _ _ rfl, ← Chip.shift_append_snd,
    List.append_assoc _ _ (Bits.ofNat 8 _), bits_b3]
  have hselect : (EepromBus.rest cells true flag).chip.select = ⟨cells, true, .selected⟩ := rfl
  rw [hselect, show (0x5 : UInt8).toNat = 5 from rfl, Chip.shift_write]
  change EepromBus.rest (CyclicMemory.write cells (address.toNat % 512) data) true flag = _
  rw [hwrite]

/-- The stream of a read command, and the byte that the chip sends during its last eight bits. -/
theorem shift_readStream (cells : Image) (en : Bool) (flag : UInt32) (address : UInt16) :
    ((EepromBus.rest cells en flag).chip.select.shift (Bits.ofNat 6 (0x6 : UInt8).toNat ++
        Bits.ofNat 9 address.toNat ++ Bits.ofNat 1 ((0 : UInt8).toNat >>> 7))).2.shift
          (Bits.ofNat 8 (((0 : UInt8).toNat &&& 0x7f) <<< 1)) =
      (Bits.ofNat 8 (CyclicMemory.read cells address.toNat).toNat, ⟨cells, en, .dataOut []⟩) := by
  have hselect : (EepromBus.rest cells en flag).chip.select = ⟨cells, en, .selected⟩ := rfl
  have hstream : Bits.ofNat 6 (0x6 : UInt8).toNat ++ Bits.ofNat 9 address.toNat ++
      Bits.ofNat 1 ((0 : UInt8).toNat >>> 7) =
        Bits.ofNat 6 6 ++ Bits.ofNat 9 address.toNat ++ [false] := rfl
  have hout := Chip.shift_dataOut cells en
    (Bits.ofNat 8 (CyclicMemory.read cells address.toNat).toNat) []
    (Bits.ofNat 8 (((0 : UInt8).toNat &&& 0x7f) <<< 1)) (by simp)
  rw [List.append_nil] at hout
  rw [hselect, hstream, Chip.shift_read, hout]

theorem run_eeprom9366Read (cells : Image) (en : Bool) (flag : UInt32) (address : UInt16) :
    (eeprom9366Read address).run (.rest cells en flag) =
      (CyclicMemory.read cells address.toNat, .rest cells en flag) := by
  rw [eeprom9366Read, run_spiTransaction _ _ _ _ _ rfl, shift_readStream, byte_bits]
  rfl

theorem run_writeEnable (cells : Image) (en : Bool) (flag : UInt32) (h : flag ≠ 0 → en = true) :
    (writeEnable.run (.rest cells en flag)).2 =
      .rest cells true (if flag = 0 then 1 else flag) := by
  by_cases hf : flag = 0
  · subst hf
    rfl
  · have hen := h hf
    subst hen
    simp [writeEnable, EepromBus.rest, hf]

theorem run_eeprom9366Write (cells : Image) (en : Bool) (flag : UInt32) (address : UInt16)
    (data : UInt8) (h : flag ≠ 0 → en = true) :
    ((eeprom9366Write address data).run (.rest cells en flag)).2 =
      .rest (CyclicMemory.write cells address.toNat data) true (if flag = 0 then 1 else flag) := by
  simp only [eeprom9366Write, Program.run_bind, run_delayms, run_writeEnable cells en flag h,
    run_spiTransaction_write]

theorem run_eeprom9366EraseAll (cells : Image) (en : Bool) (flag : UInt32)
    (h : flag ≠ 0 → en = true) :
    (eeprom9366EraseAll.run (.rest cells en flag)).2 =
      .rest (fun _ => 0xFF) true (if flag = 0 then 1 else flag) := by
  have hcmd : ((spiCMD 0x4 0x100).run (.rest cells true (if flag = 0 then 1 else flag))).2 =
      .rest (fun _ => 0xFF) true (if flag = 0 then 1 else flag) := by
    rw [run_spiCMD]
    rfl
  simp only [eeprom9366EraseAll, Program.run_bind, run_delayms, run_writeEnable cells en flag h,
    hcmd]

theorem run_eeprom9366Erase (cells : Image) (en : Bool) (flag : UInt32) (address : UInt16)
    (h : flag ≠ 0 → en = true) :
    ((eeprom9366Erase address).run (.rest cells en flag)).2 =
      .rest (CyclicMemory.write cells address.toNat 0xFF) true (if flag = 0 then 1 else flag) := by
  have hcmd (f : UInt32) : ((spiCMD 0x7 address).run (.rest cells true f)).2 =
      .rest (CyclicMemory.write cells address.toNat 0xFF) true f := by
    have hwrite : CyclicMemory.write cells (Bits.toNat (Bits.ofNat 9 address.toNat)) 0xFF =
        CyclicMemory.write cells address.toNat 0xFF :=
      CyclicMemory.write_congr cells _ (by rw [Bits.toNat_ofNat]; exact Nat.mod_mod _ _)
    rw [run_spiCMD]
    change (⟨((⟨cells, true, .selected⟩ : Chip).shift (List.replicate 4 false ++
      true :: (Bits.ofNat 2 3 ++ Bits.ofNat 9 address.toNat))).2.deselect, f⟩ : EepromBus) = _
    rw [Chip.shift_selected cells true 4 _ (by simp), ← hwrite]
    rfl
  simp only [eeprom9366Erase, Program.run_bind, run_delayms, run_writeEnable cells en flag h, hcmd]

/-! ### The EEPROM at rest -/

/-- Between two calls of the driver the chip is in standby, and a set flag is right. -/
structure Eeprom where
  bus : EepromBus
  standby : bus.chip.phase = .standby
  enabled : bus.writeEnabled ≠ 0 → bus.chip.writeEnabled = true

namespace Eeprom

def image (e : Eeprom) : Image := e.bus.chip.cells

def powerUp (cells : Image) : Eeprom := ⟨⟨Chip.powerUp cells, 0⟩, rfl, fun h => absurd rfl h⟩

theorem bus_eq (e : Eeprom) :
    e.bus = .rest e.image e.bus.chip.writeEnabled e.bus.writeEnabled := by
  obtain ⟨⟨⟨cells, en, phase⟩, flag⟩, hphase, _⟩ := e
  obtain rfl : phase = .standby := hphase
  rfl

/-- What a routine that leaves the bus at rest with writing enabled makes of the EEPROM. -/
def after (p : Program EepromBus Unit) (e : Eeprom) (cells : Image) (flag : UInt32)
    (h : (p.run e.bus).2 = .rest cells true flag) : Eeprom where
  bus := (p.run e.bus).2
  standby := by rw [h]; rfl
  enabled := by rw [h]; exact fun _ => rfl

def write (e : Eeprom) (address : UInt16) (data : UInt8) : Eeprom :=
  e.after (eeprom9366Write address data) (CyclicMemory.write e.image address.toNat data) _ (by
    rw [bus_eq e]
    exact run_eeprom9366Write _ _ _ address data e.enabled)

def erase (e : Eeprom) (address : UInt16) : Eeprom :=
  e.after (eeprom9366Erase address) (CyclicMemory.write e.image address.toNat 0xFF) _ (by
    rw [bus_eq e]
    exact run_eeprom9366Erase _ _ _ address e.enabled)

def eraseAll (e : Eeprom) : Eeprom :=
  e.after eeprom9366EraseAll (fun _ => 0xFF) _ (by
    rw [bus_eq e]
    exact run_eeprom9366EraseAll _ _ _ e.enabled)

def read (e : Eeprom) (address : UInt16) : UInt8 := ((eeprom9366Read address).run e.bus).1

/-- Reading leaves the bus as it was. -/
theorem run_read (e : Eeprom) (address : UInt16) :
    (eeprom9366Read address).run e.bus = (e.read address, e.bus) := by
  rw [read, bus_eq e, run_eeprom9366Read]

theorem after_image {p : Program EepromBus Unit} {e : Eeprom} {cells : Image} {flag : UInt32}
    (h : (p.run e.bus).2 = .rest cells true flag) : (e.after p cells flag h).image = cells := by
  change ((p.run e.bus).2).chip.cells = cells
  rw [h]
  rfl

@[simp] theorem powerUp_image (cells : Image) : (powerUp cells).image = cells := rfl

@[simp] theorem write_image (e : Eeprom) (address : UInt16) (data : UInt8) :
    (e.write address data).image = CyclicMemory.write e.image address.toNat data := after_image _

@[simp] theorem erase_image (e : Eeprom) (address : UInt16) :
    (e.erase address).image = CyclicMemory.write e.image address.toNat 0xFF := after_image _

@[simp] theorem eraseAll_image (e : Eeprom) : e.eraseAll.image = fun _ => 0xFF := after_image _

@[simp] theorem read_eq (e : Eeprom) (address : UInt16) :
    e.read address = CyclicMemory.read e.image address.toNat := by
  rw [read, bus_eq e, run_eeprom9366Read]

end Eeprom

end UsbSpdt
