import UsbSpdt.Firmware.Replies
import UsbSpdt.Host.AttenSwitch

/-!
# A device that answers before the host reads

The firmware behind the endpoints 0x1 and 0x81, when it handles every packet of a request before
the host reads. The state of the wire between exchanges is the packet that the IN endpoint holds.
-/

namespace UsbSpdt

/-- A bulk transfer reaches the device in packets of at most 64 bytes. -/
def usbPackets (bytes : List UInt8) : List (List UInt8) :=
  (List.range ((bytes.length + 63) / 64)).map fun k => (bytes.drop (64 * k)).take 64

theorem usbPackets_single {bytes : List UInt8} (h1 : 1 ≤ bytes.length) (h64 : bytes.length ≤ 64) :
    usbPackets bytes = [bytes] := by
  have hcount : (bytes.length + 63) / 64 = 1 := by omega
  simp [usbPackets, hcount, List.take_of_length_le h64]

/-- What `bulk_read` leaves in its buffer: the bytes received, and what the USB library puts after
them. -/
def bulkRead (residue : List UInt8 → List UInt8) (received : List UInt8) : List UInt8 :=
  received ++ residue received

/-- The firmware, the packet that the IN endpoint holds, and what will be on the callback's stack
when it is called next, after that, and so on. -/
structure Device where
  firmware : Firmware
  inEp : Option (List UInt8)
  stale : Nat → Item

namespace Device

def powerUp (cells : Image) (buildSha1 : Nat → UInt8) (stale : Nat → Item) : Device :=
  ⟨.powerUp cells buildSha1, none, stale⟩

def receive (d : Device) (packet : List UInt8) : Device :=
  let stale := fun n => d.stale (n + 1)
  match bulkctrlDataRxCb (d.stale 0) packet with
  | none => { d with stale := stale }
  | some item =>
    let round := d.firmware.handle item
    let taken := match round.reply with
      | none => []
      | some reply => writeAttempts (fun _ => d.inEp.isNone) reply waitIfFull 0
    { firmware := round.firmware, inEp := d.inEp.or taken.head?, stale := stale }

def serve (residue : List UInt8 → List UInt8) (d : Device) (bytes : List UInt8) :
    List UInt8 × Device :=
  let d := (usbPackets bytes).foldl receive d
  (bulkRead residue (d.inEp.getD []), { d with inEp := none })

def image (d : Device) : Image := d.firmware.eeprom.image

/-- The device after a request of one packet has been handled and answered. -/
def after (d : Device) (bytes : List UInt8) : Device where
  firmware := (d.firmware.handle (rxFrame (d.stale 0) bytes)).firmware
  inEp := none
  stale n := d.stale (n + 1)

theorem receive_of_reply {d : Device} (hidle : d.inEp = none) {bytes reply : List UInt8}
    (hnil : bytes ≠ []) (hne : reply ≠ [])
    (hreply : (d.firmware.handle (rxFrame (d.stale 0) bytes)).reply = some reply) :
    d.receive bytes = { d.after bytes with inEp := some reply } := by
  simp only [receive, bulkctrlDataRxCb_of_ne_nil _ hnil, hreply, hidle, Option.isNone_none,
    writeAttempts_free hne]
  rfl

theorem serve_single (residue : List UInt8 → List UInt8) {d : Device} (hidle : d.inEp = none)
    (bytes : List UInt8) (h1 : 1 ≤ bytes.length) (h64 : bytes.length ≤ 64)
    (hlen : (rxFrame (d.stale 0) bytes).length ≠ 0) :
    ∃ buff : Buffer, (d.firmware.handle (rxFrame (d.stale 0) bytes)).reply =
        some (wireBytes buff) ∧
      buff.length.toNat = Firmware.replyLength (PktType.ofByte (rxFrame (d.stale 0) bytes).cmd)
        (rxFrame (d.stale 0) bytes).length.toNat ∧
      d.serve residue bytes = (bulkRead residue (wireBytes buff), d.after bytes) := by
  obtain ⟨buff, hreply, hbuff⟩ := Firmware.handle_reply d.firmware hlen
  refine ⟨buff, hreply, hbuff, ?_⟩
  have hreceive := receive_of_reply hidle (List.ne_nil_of_length_pos h1)
    (wireBytes_ne_nil hbuff) hreply
  rw [serve, usbPackets_single h1 h64]
  simp only [List.foldl_cons, List.foldl_nil, hreceive]
  rfl

end Device

end UsbSpdt
