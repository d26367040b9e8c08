import UsbSpdt.Board.Spdt
import UsbSpdt.Eeprom.Driver
import UsbSpdt.Firmware.Packet

/-!
# The instrument task

`vInstrumentTask` of `instr_task.c` and the routines its dispatcher calls. `handle` is one round of
its loop up to the call of `usbd_ep_write_packet`.
-/

namespace UsbSpdt

/-- The variables behind `id_blink`, and whether the next `xTaskCreate` finds memory. -/
structure Blinker where
  idBlinkOn : UInt8
  hasTask : Bool
  memory : Bool

/-- What the dispatcher can do besides answering. -/
inductive Op where
  | eepromWrite (address : UInt16) (data : UInt8)
  | eepromEraseAll
  | spdtSet (swtch sel : UInt8)
  | blinkStart
  | blinkStop
  deriving DecidableEq, Repr

structure Firmware where
  inpkt : Buffer
  outpkt : Buffer
  eeprom : Eeprom
  board : Board
  blinker : Blinker
  productID : UInt16
  /-- The string `build_sha1` in flash. -/
  buildSha1 : Nat → UInt8

/-- The buffers are cleared when the task starts. -/
def Firmware.powerUp (cells : Image) (buildSha1 : Nat → UInt8) : Firmware where
  inpkt _ := 0
  outpkt _ := 0
  eeprom := .powerUp cells
  board := .powerUp
  blinker := ⟨0, false, true⟩
  productID := 0x00ff
  buildSha1 := buildSha1

/-! ### CMD_ID -/

def isSpace (c : UInt8) : Bool := c = 32 || (9 ≤ c && c ≤ 13)

def isDigit (c : UInt8) : Bool := 48 ≤ c && c ≤ 57

def digits (s : List UInt8) : Int :=
  (s.takeWhile isDigit).foldl (fun n c => 10 * n + (c.toNat - 48 : Int)) 0

/-- `atoi` on a string without its terminator. -/
def atoi (s : List UInt8) : Int :=
  match s.dropWhile isSpace with
  | 45 :: s => -digits s
  | 43 :: s => digits s
  | s => digits s

def szBuildSha1 : Nat := 8

/-- `payload_id_response_t` as `get_instrument_ID` fills it. -/
def idResponse (fw : Firmware) : List UInt8 :=
  let build := UInt16.ofInt (atoi ((List.range 4).map fw.buildSha1))
  [fw.productID.toUInt8, 1, 1, 0, LittleEndian.low build, LittleEndian.high build,
      UInt8.ofNat (szBuildSha1 + 1)] ++
    (List.range szBuildSha1).map (fun k => fw.buildSha1 (3 + k)) ++ [0] ++ List.replicate 42 0

def getInstrumentID (fw : Firmware) (buffer : Buffer) : Buffer :=
  Buffer.setLength
    (fun i => if 7 ≤ i ∧ i < 65 then (idResponse fw).getD (i - 7) 0 else buffer i)
    (UInt16.ofNat (usbPktMinHeaderSz + 16))

/-! ### CMD_BLINK -/

def idBlink (on : UInt8) (b : Blinker) : Blinker × List Op :=
  if on ≠ 0 then
    if b.hasTask then (b, [])
    else ({ b with idBlinkOn := 1, hasTask := b.memory }, [.blinkStart])
  else
    if b.hasTask then ({ b with idBlinkOn := 0, hasTask := false }, [.blinkStop])
    else (b, [])

/-! ### The dispatcher -/

def beginReply (out : Buffer) : Buffer :=
  ((out.setVersion 1).setCmd PktType.ack.toByte).setLength (UInt16.ofNat usbPktMinHeaderSz)

namespace Firmware

/-- The dispatcher's switch; `none` stands for a byte that is no command. -/
def runCommand (fw : Firmware) : Option PktType → Firmware × List Op
  | some .ack => (fw, [])
  | some .nak => (fw, [])
  | some .id => ({ fw with outpkt := getInstrumentID fw (copyPacket fw.inpkt fw.outpkt) }, [])
  | some .echo => ({ fw with outpkt := copyPacket fw.inpkt fw.outpkt }, [])
  | some .spdt =>
    let swSel := fw.inpkt.payload 0
    let swState := fw.inpkt.payload 1
    ({ fw with board := ((spdtSet swSel swState).timed Board.elapse fw.board).2 },
      [.spdtSet swSel swState])
  | some .writeee =>
    let address := fw.inpkt.eepromAddress
    let data := fw.inpkt.payload 2
    ({ fw with eeprom := fw.eeprom.write address data }, [.eepromWrite address data])
  | some .readee =>
    let out := copyPacket fw.inpkt fw.outpkt
    let out := out.setByte 9 (fw.eeprom.read fw.inpkt.eepromAddress)
    ({ fw with outpkt := out.setLength (UInt16.ofNat (usbPktMinHeaderSz + 3)) }, [])
  | some .eraseall => ({ fw with eeprom := fw.eeprom.eraseAll }, [.eepromEraseAll])
  | some .blink =>
    ({ fw with blinker := (idBlink (fw.inpkt.payload 0) fw.blinker).1 },
      (idBlink (fw.inpkt.payload 0) fw.blinker).2)
  | _ => ({ fw with outpkt := fw.outpkt.setCmd PktType.nak.toByte }, [])

def dispatch (fw : Firmware) : Firmware × List Op :=
  runCommand { fw with outpkt := beginReply fw.outpkt } (PktType.ofByte fw.inpkt.cmd)

/-- One round of the task's loop: what it has done, and the bytes it hands to the endpoint, if it
dispatched at all. -/
structure Round where
  firmware : Firmware
  ops : List Op
  reply : Option (List UInt8)

def handle (fw : Firmware) (item : Item) : Round :=
  let rval := (readPacket fw.inpkt item).1
  let fw := { fw with inpkt := (readPacket fw.inpkt item).2 }
  if rval = 0 then ⟨fw, [], none⟩
  else
    let out := sealPacket fw.dispatch.1.outpkt
    ⟨{ fw.dispatch.1 with outpkt := out }, fw.dispatch.2, some (wireBytes out)⟩

end Firmware

/-! ### Handing a packet to the endpoint -/

/-- `usbd_ep_write_packet`: the number of bytes taken, 0 while the endpoint is busy. -/
def usbdEpWritePacket (free : Bool) (packet : List UInt8) : Nat := if free then packet.length else 0

/-- `waitIfFull`, the attempts that `writePacket` makes at most. -/
def waitIfFull : Nat := 10

/-- The packets that the endpoint takes from `writePacket`, with `left` attempts to go; `free k`
says whether it is free at the `k`-th. -/
def writeAttempts (free : Nat → Bool) (packet : List UInt8) : Nat → Nat → List (List UInt8)
  | 0, _ => []
  | left + 1, k =>
    let rest := if usbdEpWritePacket (free k) packet = 0 then
      writeAttempts free packet left (k + 1) else []
    if free k then packet :: rest else rest

end UsbSpdt
