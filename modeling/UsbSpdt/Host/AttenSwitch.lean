import UsbSpdt.Library.Dialogue
import UsbSpdt.Library.LittleEndian

/-!
# The host's control module

`AttenSwitch.pm`: commands, packets and the operations built on `send_packet`. A session asks by
writing a packet to the OUT endpoint and is answered with what `bulk_read` leaves in its buffer.
-/

namespace UsbSpdt.AttenSwitch

inductive Command where
  | ack | nak | reset | id | echo | ssn | diag | sp8t | auxout | auxin | att | light | notify
  | readee | writeee | spdt | eraseall | blink
  deriving DecidableEq, Repr

namespace Command

def all : List Command :=
  [ack, nak, reset, id, echo, ssn, diag, sp8t, auxout, auxin, att, light, notify, readee, writeee,
    spdt, eraseall, blink]

def ordinal (c : Command) : UInt8 := UInt8.ofNat (all.idxOf c)

def fromOrdinal (n : UInt8) : Option Command := all[n.toNat]?

theorem ordinal_toNat_lt (command : Command) : command.ordinal.toNat < 18 := by
  cases command <;> decide

theorem fromOrdinal_ordinal (command : Command) :
    Command.fromOrdinal command.ordinal = some command := by
  cases command <;> rfl

theorem ordinal_injective {c c' : Command} (h : c.ordinal.toNat = c'.ordinal.toNat) : c = c' := by
  have hsome := fromOrdinal_ordinal c
  rw [UInt8.toNat_inj.mp h, fromOrdinal_ordinal] at hsome
  exact (Option.some.inj hsome).symm

theorem fromOrdinal_isSome (n : UInt8) : (fromOrdinal n).isSome ↔ n.toNat < 18 := by
  simp [fromOrdinal, all]

end Command

def packV (n : Nat) : List UInt8 :=
  [LittleEndian.low (UInt16.ofNat n), LittleEndian.high (UInt16.ofNat n)]

def packC (n : Nat) : List UInt8 := [UInt8.ofNat n]

/-- `unpack("vC", …)`; what is missing counts as 0. -/
def unpackVC (bytes : List UInt8) : Nat × Nat :=
  ((LittleEndian.word (bytes.getD 0 0) (bytes.getD 1 0)).toNat, (bytes.getD 2 0).toNat)

def cksumSimple (payload : List UInt8) : UInt16 :=
  payload.foldl (fun sum ch => sum + ch.toUInt16) 0

/-- The bytes that `make` gives a packet with command byte `c`. -/
def frame (c : UInt8) (payload : List UInt8) : List UInt8 :=
  packC 1 ++ packV (payload.length + 6) ++ [c] ++ packV (cksumSimple payload).toNat ++ payload

@[simp] theorem frame_length (c : UInt8) (payload : List UInt8) :
    (frame c payload).length = payload.length + 6 := by
  simp [frame, packC, packV]

structure Packet where
  command : Command
  payload : List UInt8
  packet : List UInt8

namespace Packet

def make (command : Command) (payload : List UInt8) : Packet where
  command := command
  payload := payload
  packet := frame command.ordinal payload

/-- `from_bytes`; it dies without a whole header or with an unknown command. -/
def fromBytes (packet : List UInt8) : Option Packet :=
  if packet.length < 6 then none
  else (Command.fromOrdinal (packet.getD 3 0)).map fun command => ⟨command, packet.drop 6, packet⟩

end Packet

inductive Status where
  | success | fail
  deriving DecidableEq, Repr

abbrev Session := Dialogue (List UInt8) (List UInt8)

def sendPacket (packet : Packet) : Session (Status × Packet) := do
  let rxbuf ← Dialogue.request packet.packet
  match Packet.fromBytes rxbuf with
  | none => .die
  | some rxPacket => pure (if rxPacket.command = .ack then .success else .fail, rxPacket)

def readEE (addr : Nat) : Nat → Session (List UInt8)
  | 0 => pure []
  | nbytes + 1 => do
    let (_, rxPacket) ← sendPacket (.make .readee (packV addr))
    let x := (rxPacket.payload.drop 2).take 1
    let rest ← readEE (addr + 1) nbytes
    pure (x ++ rest)

def writeEE (addr : Nat) : List UInt8 → Session Unit
  | [] => pure ()
  | x :: val => do
    let _ ← sendPacket (.make .writeee (packV addr ++ [x]))
    writeEE (addr + 1) val

def eraseAllEE : Session Status := do
  let (res, _) ← sendPacket (.make .eraseall [])
  pure res

def blink (on : Nat) : Session Status := do
  let (res, _) ← sendPacket (.make .blink (packC on))
  pure res

def eeMagic (val : UInt8) : Session Unit := writeEE 0 [val]

/-- `eeMagic` with its optional argument: writes when it is defined, reads when it is not. -/
def eeMagicOf (val : Option Nat) : Session Nat :=
  match val with
  | some val => do
    let val := val &&& 0xff
    writeEE 0 (packC val)
    pure val
  | none => do pure ((← readEE 0 1).getD 0 0).toNat

/-- Perl's `||` on a number: the default stands in for `undef` and for 0. -/
def orDefault (x : Option Nat) (default : Nat) : Nat := if x.getD 0 ≠ 0 then x.getD 0 else default

def validVid : Nat := 0x4161

def unpackVV (bytes : List UInt8) : Nat × Nat :=
  ((LittleEndian.word (bytes.getD 0 0) (bytes.getD 1 0)).toNat,
    (LittleEndian.word (bytes.getD 2 0) (bytes.getD 3 0)).toNat)

def unpackCC (bytes : List UInt8) : Nat × Nat := ((bytes.getD 0 0).toNat, (bytes.getD 1 0).toNat)

def eeVidPid (vid pid : Option Nat) : Session (Nat × Nat) :=
  let vid := orDefault vid validVid
  match pid with
  | some pid => do
    let vid := vid &&& 0xffff
    let pid := pid &&& 0xffff
    writeEE 1 (packV vid ++ packV pid)
    pure (vid, pid)
  | none => do pure (unpackVV (← readEE 1 4))

/-- The default makes an S2 polarity of 0 that of S1. -/
def eePolarity (s1pol s2pol : Option Nat) : Session (Nat × Nat) :=
  let s2pol := orDefault s2pol (s1pol.getD 0)
  match s1pol with
  | some s1pol => do
    writeEE 0xe (packC (if s1pol ≠ 0 then 1 else 0) ++ packC (if s2pol ≠ 0 then 1 else 0))
    pure (s1pol, s2pol)
  | none => do pure (unpackCC (← readEE 0xe 2))

def eepromSize : Nat := 0x200

def validStr (ptr len : Nat) : Bool :=
  if ptr < 0x20 then false
  else if len = 0 then false
  else if ptr + len ≥ eepromSize then false
  else true

/-- The part of `readEEStrings` for the string whose pointer and length are at `record`. -/
def readEEString (ptr len : Nat) : Session (List UInt8) :=
  if validStr ptr len then readEE ptr len else pure []

def readEEStrings : Session (List (List UInt8)) := do
  let mfg := unpackVC (← readEE 5 3)
  let prd := unpackVC (← readEE 8 3)
  let ser := unpackVC (← readEE 0xb 3)
  let extra := unpackVC (← readEE 0x10 3)
  let s0 ← readEEString mfg.1 mfg.2
  let s1 ← readEEString prd.1 prd.2
  let s2 ← readEEString ser.1 ser.2
  let s3 ← readEEString extra.1 extra.2
  pure [s0, s1, s2, s3]

/-- The part of `writeEEStrings` for one string: its record, then the string at `addr`. It gives
the address after the string. -/
def writeEEString (record addr : Nat) (string : List UInt8) : Session Nat :=
  if string.length ≠ 0 then do
    writeEE record (packV addr ++ packC string.length)
    writeEE addr string
    pure (addr + string.length)
  else do
    writeEE record (packV 0 ++ packC 0)
    pure addr

def writeEEStrings (mfg prd ser extra : List UInt8) : Session Unit := do
  let addr ← writeEEString 0x5 0x30 mfg
  let addr ← writeEEString 0x8 addr prd
  let addr ← writeEEString 0xb addr ser
  let _ ← writeEEString 0x10 addr extra
  pure ()

end UsbSpdt.AttenSwitch
