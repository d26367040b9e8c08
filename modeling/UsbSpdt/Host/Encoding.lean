import UsbSpdt.Host.AttenSwitch
import UsbSpdt.Library.Substr

/-!
# Packet objects

`AttenSwitch::Packet` with its attributes as Moose keeps them: unset at first, and never set to
`undef`.
-/

namespace UsbSpdt.AttenSwitch

/-- `unpack 'C'` of what `substr` gives; where it gives nothing, so does `unpack`. -/
def unpackC (part : Option (List UInt8)) : Option UInt8 := (part.getD []).head?

def unpackV (part : Option (List UInt8)) : Option UInt16 :=
  match part.getD [] with
  | lo :: hi :: _ => some (LittleEndian.word lo hi)
  | _ => none

/-- The attribute that refused `undef`, and raised. -/
inductive Refusal where
  | payload | command
  deriving DecidableEq, Repr

structure PacketObject where
  command : Option Command
  payload : Option (List UInt8)
  packet : Option (List UInt8)

namespace PacketObject

def new : PacketObject := ⟨none, none, none⟩

def setPayload (self : PacketObject) : Option (List UInt8) → Except Refusal PacketObject
  | none => .error .payload
  | some payload => .ok { self with payload := some payload }

def setCommand (self : PacketObject) : Option Command → Except Refusal PacketObject
  | none => .error .command
  | some command => .ok { self with command := some command }

/-- The frame, once a command and a payload are known. -/
def build (self : PacketObject) : PacketObject :=
  match self.command, self.payload with
  | some command, some payload =>
    let header := packC 1 ++ packV (payload.length + 6) ++ packC command.ordinal.toNat
    { self with packet := some (header ++ packV (cksumSimple payload).toNat ++ payload) }
  | _, _ => self

/-- `make`; an argument that is not given leaves its attribute as it is. -/
def make (self : PacketObject) (command : Option Command) (payload : Option (List UInt8)) :
    PacketObject :=
  build
    { self with command := command.or self.command, payload := payload.or self.payload }

/-- `from_bytes`, which does not look at the version, the length and the checksum it unpacks. -/
def fromBytes (self : PacketObject) (packet : Option (List UInt8)) :
    Except Refusal PacketObject := do
  let self := { self with packet := packet.or self.packet }
  let bytes := self.packet.getD []
  let _ver := unpackC (Substr.field bytes 0 1)
  let _len := unpackV (Substr.field bytes 1 2)
  let cmd := unpackC (Substr.field bytes 3 1)
  let _sum := unpackV (Substr.field bytes 4 2)
  let self ← self.setPayload (Substr.rest bytes 6)
  self.setCommand (cmd.bind Command.fromOrdinal)

/-- A packet with all its attributes set. -/
def ofPacket (p : Packet) : PacketObject := ⟨some p.command, some p.payload, some p.packet⟩

theorem build_eq (c : Command) (payload : List UInt8) (packet : Option (List UInt8)) :
    build ⟨some c, some payload, packet⟩ = ofPacket (.make c payload) := by
  simp only [build, ofPacket, Packet.make, frame, packC, UInt8.ofNat_toNat]

theorem make_eq (self : PacketObject) (c : Command) (payload : List UInt8) :
    self.make (some c) (some payload) = ofPacket (.make c payload) :=
  build_eq c payload self.packet

theorem fromBytes_short (self : PacketObject) {bytes : List UInt8} (h : bytes.length < 6) :
    self.fromBytes (some bytes) = .error .payload := by
  have hrest : Substr.rest bytes (6 : Nat) = none := Substr.rest_beyond h
  simp only [fromBytes, Option.some_or, Option.getD_some]
  rw [show (6 : Int) = (6 : Nat) from rfl, hrest]
  rfl

theorem fromBytes_whole (self : PacketObject) {bytes : List UInt8} (h : 6 ≤ bytes.length) :
    self.fromBytes (some bytes) =
      setCommand { self with payload := some (bytes.drop 6), packet := some bytes }
        (Command.fromOrdinal (bytes.getD 3 0)) := by
  have hrest : Substr.rest bytes (6 : Nat) = some (bytes.drop 6) := Substr.rest_natCast h
  have hcmd : unpackC (Substr.field bytes 3 1) = some (bytes.getD 3 0) := by
    have hlt : 3 < bytes.length := by omega
    rw [Substr.field_natCast (by omega), unpackC, Option.getD_some, List.drop_eq_getElem_cons hlt,
      List.getD_eq_getElem?_getD, List.getElem?_eq_getElem hlt]
    rfl
  simp only [fromBytes, Option.some_or, Option.getD_some, hcmd, Option.bind_some]
  rw [show (6 : Int) = (6 : Nat) from rfl, hrest]
  rfl

end PacketObject

/-- The decoder of the packets that keep their attributes is the object's, its refusals apart. -/
theorem Packet.fromBytes_eq (self : PacketObject) (bytes : List UInt8) :
    (self.fromBytes (some bytes)).toOption =
      (Packet.fromBytes bytes).map PacketObject.ofPacket := by
  by_cases h : bytes.length < 6
  · rw [self.fromBytes_short h, Packet.fromBytes, if_pos h]
    rfl
  · rw [self.fromBytes_whole (Nat.le_of_not_lt h), Packet.fromBytes, if_neg h]
    cases Command.fromOrdinal (bytes.getD 3 0) <;> rfl

/-! ### Frames taken apart -/

theorem frame_drop (c : UInt8) (payload : List UInt8) : (frame c payload).drop 6 = payload := rfl

theorem frame_command (c : UInt8) (payload : List UInt8) : (frame c payload).getD 3 0 = c := rfl

theorem frame_lengthField (c : UInt8) (payload : List UInt8) :
    unpackV (Substr.field (frame c payload) 1 2) = some (UInt16.ofNat (payload.length + 6)) := by
  have hfield : ((frame c payload).drop 1).take 2 = packV (payload.length + 6) := rfl
  rw [Substr.field_natCast (by rw [frame_length]; omega), hfield, unpackV, Option.getD_some]
  exact congrArg some (LittleEndian.word_low_high _)

theorem fromBytes_frame (self : PacketObject) (c : Command) (payload : List UInt8) :
    self.fromBytes (some (frame c.ordinal payload)) =
      .ok (PacketObject.ofPacket (.make c payload)) := by
  rw [self.fromBytes_whole (by rw [frame_length]; omega), frame_command, frame_drop,
    Command.fromOrdinal_ordinal]
  rfl

/-- Whatever the objects that make and decode the frame held before. -/
theorem decode_encode (self other : PacketObject) (c : Command) (payload : List UInt8) :
    ∃ (bytes : List UInt8) (rx : PacketObject),
      (self.make (some c) (some payload)).packet = some bytes ∧
      other.fromBytes (some bytes) = .ok rx ∧ rx.command = some c ∧ rx.payload = some payload ∧
      (rx.make none none).packet = some bytes ∧
      (payload.length < 65530 →
        (unpackV (Substr.field bytes 1 2)).map UInt16.toNat = some bytes.length) := by
  refine ⟨frame c.ordinal payload, .ofPacket (.make c payload), ?_, fromBytes_frame other c payload,
    rfl, rfl, ?_, ?_⟩
  · rw [self.make_eq]
    rfl
  · exact congrArg PacketObject.packet (PacketObject.build_eq c payload _)
  · intro hshort
    rw [frame_lengthField, Option.map_some, frame_length, UInt16.toNat_ofNat',
      Nat.mod_eq_of_lt (by omega)]

end UsbSpdt.AttenSwitch
