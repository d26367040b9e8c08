import Mathlib.Algebra.Group.Int.Defs
import UsbSpdt.Host.Eeprom

/-!
# The host's EEPROM calls as an array

`readEE`, `writeEE` and `eraseAllEE` at any integer address: `pack("v", …)` keeps the low 16 bits of
it and the chip the low 9 bits of these, so the calls act on an array of 512 bytes.
-/

namespace UsbSpdt

namespace AttenSwitch

/-- `pack("v", …)` of an integer, Perl's while `$addr + $k` stays in its 64-bit integers. -/
def packVInt (n : Int) : List UInt8 :=
  [LittleEndian.low (UInt16.ofInt n), LittleEndian.high (UInt16.ofInt n)]

def readEEInt (addr : Int) : Nat → Session (List UInt8)
  | 0 => pure []
  | nbytes + 1 => do
    let (_, rxPacket) ← sendPacket (.make .readee (packVInt addr))
    let x := (rxPacket.payload.drop 2).take 1
    let rest ← readEEInt (addr + 1) nbytes
    pure (x ++ rest)

def writeEEInt (addr : Int) : List UInt8 → Session Unit
  | [] => pure ()
  | x :: val => do
    let _ ← sendPacket (.make .writeee (packVInt addr ++ [x]))
    writeEEInt (addr + 1) val

inductive EECall where
  | readEE (addr : Int) (nbytes : Nat)
  | writeEE (addr : Int) (val : List UInt8)
  | eraseAllEE

/-- The call, with the bytes it returns. -/
def EECall.session : EECall → Session (List UInt8)
  | .readEE addr nbytes => readEEInt addr nbytes
  | .writeEE addr val => do
    writeEEInt addr val
    pure []
  | .eraseAllEE => do
    let _ ← AttenSwitch.eraseAllEE
    pure []

end AttenSwitch

open AttenSwitch

/-! ### The array -/

def cellOf (addr : Int) : Fin 512 := Fin.ofNat 512 (addr % 512).toNat

def Image.putAt (cells : Image) (addr : Int) : List UInt8 → Image
  | [] => cells
  | x :: val => Image.putAt (Function.update cells (cellOf addr) x) (addr + 1) val

def AttenSwitch.EECall.onArray (cells : Image) : EECall → List UInt8 × Image
  | .readEE addr nbytes => ((List.range nbytes).map fun k : Nat => cells (cellOf (addr + k)), cells)
  | .writeEE addr val => ([], cells.putAt addr val)
  | .eraseAllEE => ([], fun _ => 0xFF)

/-! ### Integer addresses on the wire -/

theorem packVInt_eq (addr : Int) : packVInt addr = packV (addr % 2 ^ 16).toNat := rfl

theorem packVInt_natCast (addr : Nat) : packVInt addr = packV addr := by
  have hword : UInt16.ofInt addr = UInt16.ofNat addr := by
    apply UInt16.toNat.inj
    rw [UInt16.ofInt, UInt16.toNat_ofNat', UInt16.toNat_ofNat']
    omega
  rw [packVInt, packV, hword]

/-- The calls at a natural address are those that the rest of the module uses. -/
theorem readEEInt_natCast (addr n : Nat) : readEEInt addr n = readEE addr n := by
  induction n generalizing addr with
  | zero => rfl
  | succ n ih =>
    have hnext : (addr : Int) + 1 = ((addr + 1 : Nat) : Int) := rfl
    simp only [readEEInt, readEE, packVInt_natCast, hnext, ih]

theorem writeEEInt_natCast (addr : Nat) (val : List UInt8) :
    writeEEInt addr val = writeEE addr val := by
  induction val generalizing addr with
  | nil => rfl
  | cons x val ih =>
    have hnext : (addr : Int) + 1 = ((addr + 1 : Nat) : Int) := rfl
    simp only [writeEEInt, writeEE, packVInt_natCast, hnext, ih]

theorem ofNat_wire (addr : Int) : Fin.ofNat 512 (addr % 2 ^ 16).toNat = cellOf addr := by
  apply CyclicMemory.ofNat_eq_iff.mpr
  omega

theorem read_wire (cells : Image) (addr : Int) :
    CyclicMemory.read cells (addr % 2 ^ 16).toNat = cells (cellOf addr) := by
  rw [CyclicMemory.read, ofNat_wire]

theorem write_wire (cells : Image) (addr : Int) (x : UInt8) :
    CyclicMemory.write cells (addr % 2 ^ 16).toNat x =
      Function.update cells (cellOf addr) x := by
  rw [CyclicMemory.write, ofNat_wire]

/-! ### The calls -/

variable (residue : List UInt8 → List UInt8)

theorem ensures_readEEInt {d : Device} {m : Image} (h : d.At m) (addr : Int) (n : Nat) :
    Dialogue.Ensures (Device.serve residue) (readEEInt addr n) d
      fun bytes t =>
        bytes = (List.range n).map (fun k : Nat => m (cellOf (addr + k))) ∧ t.At m := by
  induction n generalizing addr d with
  | zero => exact Dialogue.ensures_pure ⟨rfl, h⟩
  | succ n ih =>
    apply Dialogue.ensures_bind
    have hbyte := ensures_readByte residue h (addr % 2 ^ 16).toNat
    rw [← packVInt_eq, read_wire] at hbyte
    apply hbyte.mono
    intro r t hr
    apply Dialogue.ensures_bind
    apply (ih hr.2 (addr + 1)).mono
    intro rest u hrest
    refine Dialogue.ensures_pure ⟨?_, hrest.2⟩
    rw [hr.1, hrest.1, List.range_succ_eq_map, List.map_cons, List.map_map]
    have hfirst : addr + ((0 : Nat) : Int) = addr := Int.add_zero addr
    have hrests (k : Nat) : addr + 1 + (k : Int) = addr + ((k + 1 : Nat) : Int) := by omega
    simp only [hfirst, hrests]
    rfl

theorem ensures_writeEEInt {d : Device} {m : Image} (h : d.At m) (addr : Int) (val : List UInt8) :
    Dialogue.Ensures (Device.serve residue) (writeEEInt addr val) d
      fun _ t => t.At (m.putAt addr val) := by
  induction val generalizing addr d m with
  | nil => exact Dialogue.ensures_pure h
  | cons x val ih =>
    apply Dialogue.ensures_bind
    have hbyte := ensures_writeByte residue h (addr % 2 ^ 16).toNat x
    rw [← packVInt_eq, write_wire] at hbyte
    exact hbyte.mono fun _ t ht => ih ht (addr + 1)

theorem ensures_call {d : Device} {m : Image} (call : EECall) (h : d.At m) :
    Dialogue.Ensures (Device.serve residue) call.session d
      fun bytes t => bytes = (call.onArray m).1 ∧ t.At (call.onArray m).2 := by
  cases call with
  | readEE addr nbytes => exact ensures_readEEInt residue h addr nbytes
  | writeEE addr val =>
    apply Dialogue.ensures_bind
    apply (ensures_writeEEInt residue h addr val).mono
    intro _ t ht
    exact Dialogue.ensures_pure ⟨rfl, ht⟩
  | eraseAllEE =>
    apply Dialogue.ensures_bind
    apply (ensures_eraseAllEE residue h.idle).mono
    intro _ t ht
    exact Dialogue.ensures_pure ⟨rfl, ht⟩

def hostArrayRun (cells : Image) (calls : List EECall) : List (List UInt8) × Image :=
  Service.run EECall.onArray cells calls

/-- Whatever the buffers of an idle device hold, a sequence of calls runs to its end with the
results and the contents of the array. -/
theorem host_calls_refine_array {d : Device} (hidle : d.inEp = none) (calls : List EECall) :
    ∃ t, (Dialogue.each EECall.session calls).run (Device.serve residue) d =
        some ((hostArrayRun d.image calls).1, t) ∧
      t.image = (hostArrayRun d.image calls).2 := by
  have hat : d.At d.image := ⟨hidle, rfl⟩
  have hrun := Dialogue.ensures_each (fun _ _ call h => ensures_call residue call h) hat calls
  obtain ⟨results, t, hrun, rfl, ht⟩ := hrun
  exact ⟨t, hrun, ht.image⟩

theorem host_calls_wrap_around :
    ∃ t, (Dialogue.each EECall.session
        [.eraseAllEE, .writeEE (-1) [1, 2, 3], .readEE 511 4]).run (Device.serve fun _ => [7])
          (.powerUp (fun _ => 0) (fun _ => 0) fun _ _ => 0) = some ([[], [], [1, 2, 3, 0xFF]], t) ∧
      t.image 511 = 1 := by
  obtain ⟨t, hrun, himage⟩ := host_calls_refine_array (fun _ => [7])
    (d := .powerUp (fun _ => 0) (fun _ => 0) fun _ _ => 0) rfl
    [.eraseAllEE, .writeEE (-1) [1, 2, 3], .readEE 511 4]
  have hresults : (hostArrayRun (fun _ => 0)
      [.eraseAllEE, .writeEE (-1) [1, 2, 3], .readEE 511 4]).1 = [[], [], [1, 2, 3, 0xFF]] := by
    decide
  refine ⟨t, ?_, ?_⟩
  · rw [← hresults]
    exact hrun
  · rw [himage]
    rfl

end UsbSpdt
