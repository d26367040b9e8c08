import UsbSpdt.Firmware.Changeset
import UsbSpdt.Host.Agreement

/-!
# Identifying a device

`identify` of `AttenSwitch.pm`: the reply to `CMD_ID`, as `fromIDPacket` takes it apart.
-/

namespace UsbSpdt

namespace AttenSwitch

inductive ProductId where
  | prodUnknown | prodStacklight | prodMapleolt | prodAtten70 | prodDualspdt
  deriving DecidableEq, Repr

namespace ProductId

def ordinal : ProductId → UInt8
  | prodUnknown => 0xff
  | prodStacklight => 1
  | prodMapleolt => 2
  | prodAtten70 => 3
  | prodDualspdt => 4

def fromOrdinal (n : UInt8) : Option ProductId :=
  [prodUnknown, prodStacklight, prodMapleolt, prodAtten70, prodDualspdt].find? fun p =>
    p.ordinal = n

end ProductId

structure ProdInfo where
  productID : ProductId
  protocolVersion : Nat
  fwRevMajor : Nat
  fwRevMinor : Nat
  fwRevBuild : Nat
  fwSHA1 : List UInt8

/-- `fromIDPacket`, by `unpack "CCCCvC/a"`; it dies when a field is missing or the product is
unknown. -/
def ProdInfo.fromIDPacket (packet : Packet) : Option ProdInfo :=
  match packet.payload with
  | prod :: proto :: fwMajor :: fwMinor :: lo :: hi :: n :: rest =>
    (ProductId.fromOrdinal prod).map fun productID =>
      ⟨productID, proto.toNat, fwMajor.toNat, fwMinor.toNat, (LittleEndian.word lo hi).toNat,
        rest.take n.toNat⟩
  | _ => none

def identify : Session ProdInfo := do
  let (_, rxPacket) ← sendPacket (.make .id [])
  match ProdInfo.fromIDPacket rxPacket with
  | none => .die
  | some info => pure info

end AttenSwitch

open AttenSwitch

/-! ### The reply to `CMD_ID` -/

section IdReply

variable {fw : Firmware} {item : Item} (hcmd : item.cmd = PktType.id.toByte)
  (hlen : item.length ≠ 0)
include hcmd hlen

theorem id_reply_length {reply : List UInt8} (hreply : (fw.handle item).reply = some reply) :
    reply.length = 22 := by
  obtain ⟨buff, hbytes, hbuff⟩ := Firmware.handle_reply fw hlen
  rw [PktType.ofByte_eq_some.mpr hcmd] at hbuff
  obtain rfl : reply = wireBytes buff := Option.some.inj (hreply.symm.trans hbytes)
  rw [wireBytes_length, hbuff]
  rfl

theorem id_reply_byte (fw : Firmware) {k : Nat} (hk : k < 22) (h4 : k ≠ 4) (h5 : k ≠ 5) :
    (fw.handle item).reply.bind (·[k]?) = some (getInstrumentID (fw.received item)
      (copyPacket (fw.received item).inpkt (beginReply fw.outpkt)) (1 + k)) := by
  have hc := PktType.ofByte_eq_some.mpr hcmd
  have hbyte := Firmware.handle_reply_byte fw hlen (k := k) (by rw [hc]; exact hk) h4 h5
  rw [hbyte, Firmware.dispatch_of_cmd fw hc]
  rfl

/-- The payload of the reply is the beginning of the record, cut after the hash. -/
theorem id_reply_payload {reply : List UInt8} (hreply : (fw.handle item).reply = some reply) :
    reply.drop 6 = (idResponse fw).take 16 := by
  have hlength := id_reply_length hcmd hlen hreply
  apply List.ext_getElem?
  intro k
  rw [List.getElem?_drop]
  by_cases hk : k < 16
  · have hbyte := id_reply_byte hcmd hlen fw (k := 6 + k) (by omega) (by omega) (by omega)
    have h58 : k < (idResponse fw).length := by
      simp [idResponse, szBuildSha1]
      omega
    rw [hreply, Option.bind_some] at hbyte
    have hfield : getInstrumentID (fw.received item)
        (copyPacket (fw.received item).inpkt (beginReply fw.outpkt)) (1 + (6 + k)) =
          (idResponse fw).getD k 0 := by
      have h2 : 1 + (6 + k) ≠ 2 ∧ 1 + (6 + k) ≠ 2 + 1 := by omega
      rw [getInstrumentID, Buffer.setLength, Buffer.setWord_apply, if_neg h2.2, if_neg h2.1,
        if_pos ⟨by omega, by omega⟩]
      exact congrArg (fun i => (idResponse fw).getD i 0) (by omega)
    rw [hbyte, hfield, List.getElem?_take_of_lt hk, List.getElem?_eq_getElem h58,
      List.getD_eq_getElem?_getD, List.getElem?_eq_getElem h58, Option.getD_some]
  · rw [List.getElem?_eq_none (by omega), List.getElem?_eq_none]
    rw [List.length_take]
    omega

/-- The command byte is that of the request if it was copied, that of an acknowledgement if not. -/
theorem id_reply_command {reply : List UInt8} (hreply : (fw.handle item).reply = some reply) :
    reply.getD 3 0 = PktType.id.toByte ∨ reply.getD 3 0 = PktType.ack.toByte := by
  have hbyte := id_reply_byte hcmd hlen fw (k := 3) (by decide) (by decide) (by decide)
  rw [hreply, Option.bind_some] at hbyte
  have hfield : getInstrumentID (fw.received item)
      (copyPacket (fw.received item).inpkt (beginReply fw.outpkt)) (1 + 3) =
        copyPacket (fw.received item).inpkt (beginReply fw.outpkt) 4 := rfl
  rw [List.getD_eq_getElem?_getD, hbyte, Option.getD_some, hfield, copyPacket]
  split
  · dsimp only
    split
    · exact .inl hcmd
    · exact .inr rfl
  · exact .inr rfl

theorem id_reply_fromBytes {reply : List UInt8} (hreply : (fw.handle item).reply = some reply)
    (residue : List UInt8) :
    ∃ rx, Packet.fromBytes (reply ++ residue) = some rx ∧
      rx.payload = (idResponse fw).take 16 ++ residue := by
  have hlength := id_reply_length hcmd hlen hreply
  have hpayload := id_reply_payload hcmd hlen hreply
  have hthree : (reply ++ residue).getD 3 0 = reply.getD 3 0 := by
    rw [List.getD_eq_getElem?_getD, List.getElem?_append_left (by omega),
      List.getD_eq_getElem?_getD]
  obtain ⟨c, hc⟩ : ∃ c, Command.fromOrdinal ((reply ++ residue).getD 3 0) = some c := by
    rw [hthree]
    rcases id_reply_command hcmd hlen hreply with h | h
    · exact ⟨.id, by rw [h]; rfl⟩
    · exact ⟨.ack, by rw [h]; rfl⟩
  refine ⟨⟨c, (reply ++ residue).drop 6, reply ++ residue⟩, ?_, ?_⟩
  · rw [Packet.fromBytes, if_neg (by rw [List.length_append]; omega), hc, Option.map_some]
  · rw [List.drop_append_of_le_length (by omega), hpayload]

end IdReply

theorem fromIDPacket_idResponse {rx : Packet} {residue : List UInt8} {fw : Firmware}
    (h : rx.payload = (idResponse fw).take 16 ++ residue) :
    ProdInfo.fromIDPacket rx = (ProductId.fromOrdinal fw.productID.toUInt8).map fun productID =>
      ⟨productID, 1, 1, 0, (fwRevBuild fw.buildSha1).toNat, bldSha fw.buildSha1⟩ := by
  have hnine : (bldSha fw.buildSha1).length = 9 := by simp [bldSha, szBuildSha1]
  have hfields : (idResponse fw).take 16 =
      [fw.productID.toUInt8, 1, 1, 0, LittleEndian.low (fwRevBuild fw.buildSha1),
        LittleEndian.high (fwRevBuild fw.buildSha1), UInt8.ofNat (szBuildSha1 + 1)] ++
          bldSha fw.buildSha1 := by
    rw [idResponse_eq, List.take_append_of_le_length, List.take_of_length_le]
    · rw [List.length_append, hnine]
      exact Nat.le_refl 16
    · rw [List.length_append, hnine]
      exact Nat.le_refl 16
  have hsha : (bldSha fw.buildSha1 ++ residue).take (UInt8.ofNat (szBuildSha1 + 1)).toNat =
      bldSha fw.buildSha1 := by
    rw [List.take_append_of_le_length (by rw [hnine]; decide)]
    exact List.take_of_length_le (by rw [hnine]; decide)
  rw [hfields, List.append_assoc] at h
  simp only [ProdInfo.fromIDPacket, h, List.cons_append, List.nil_append, hsha,
    LittleEndian.word_low_high]
  rfl

/-- A device whose answer is known beforehand. -/
def answering (rxbuf : List UInt8) : Unit → List UInt8 → List UInt8 × Unit := fun s _ => (rxbuf, s)

theorem run_identify {rxbuf : List UInt8} {rx : Packet} (h : Packet.fromBytes rxbuf = some rx) :
    identify.run (answering rxbuf) () = (ProdInfo.fromIDPacket rx).map fun info => (info, ()) := by
  simp only [identify, sendPacket, Dialogue.run_bind, Dialogue.run_request, Option.bind_some,
    answering, h, Dialogue.run_pure]
  cases ProdInfo.fromIDPacket rx <;> rfl

/-- The changeset string is read no further than its terminator, and the host, for which the USB
library puts `residue` after the reply, gets the count and the beginning of the hash. -/
def ReportsBuild (fw : Firmware) (item : Item) (residue : List UInt8) (c : Changeset) : Prop :=
  (readChangeset (c.text.length + 1) fun _ => fw.buildSha1).isSome ∧
    ∃ (reply : List UInt8) (info : ProdInfo), (fw.handle item).reply = some reply ∧
      identify.run (answering (reply ++ residue)) () = some (info, ()) ∧
      info.fwRevBuild = c.serial ∧ stripNuls info.fwSHA1 = c.gitHash.take 8

section ReportsBuild

variable {fw : Firmware} {item : Item} (hcmd : item.cmd = PktType.id.toByte)
  (hlen : item.length ≠ 0) (residue : List UInt8) {c : Changeset} (hc : c.Lies fw.buildSha1)
include hcmd hlen hc

theorem inPlace_of_reportsBuild (h : ReportsBuild fw item residue c) :
    (ProductId.fromOrdinal fw.productID.toUInt8).isSome ∧ c.HashInPlace := by
  obtain ⟨hread, reply, info, hreply, hid, _, hsha⟩ := h
  obtain ⟨rx, hrx, hpayload⟩ := id_reply_fromBytes hcmd hlen hreply residue
  have hinside := (readChangeset_iff _ _).mp hread
  rw [run_identify hrx, fromIDPacket_idResponse hpayload, Option.map_map] at hid
  obtain ⟨p, hp, hpinfo⟩ := Option.map_eq_some_iff.mp hid
  obtain rfl := congrArg Prod.fst hpinfo
  exact ⟨by rw [hp]; rfl, (bldSha_eq_iff hc (by omega)).mp hsha⟩

theorem reportsBuild_of_inPlace (hproduct : (ProductId.fromOrdinal fw.productID.toUInt8).isSome)
    (hplace : c.HashInPlace) : ReportsBuild fw item residue c := by
  obtain ⟨buff, hreply, _⟩ := Firmware.handle_reply fw hlen
  obtain ⟨rx, hrx, hpayload⟩ := id_reply_fromBytes hcmd hlen hreply residue
  obtain ⟨p, hp⟩ := Option.isSome_iff_exists.mp hproduct
  have hrun := run_identify hrx
  rw [fromIDPacket_idResponse hpayload, hp, Option.map_some, Option.map_some] at hrun
  have hinside : 10 ≤ c.text.length := by
    have htext := c.text_length
    have h7 := c.gitHash_length
    have h1 := c.serialText_length_le_iff (k := 1) (by decide)
    have hpos := c.serialText_length_pos
    rcases hplace with hserial | ⟨hserial, x, hx⟩
    · omega
    · have := congrArg List.length hx
      rw [List.length_take, List.length_replicate] at this
      omega
  have hfew : c.serial ≤ 9999 := by
    rcases hplace with hserial | ⟨hserial, _⟩ <;> omega
  exact ⟨(readChangeset_iff _ _).mpr (by omega), wireBytes buff, _, hreply, hrun,
    (fwRevBuild_eq_iff hc).mpr hfew, (bldSha_eq_iff hc hinside).mpr hplace⟩

theorem reportsBuild_iff :
    ReportsBuild fw item residue c ↔
      (ProductId.fromOrdinal fw.productID.toUInt8).isSome ∧ c.HashInPlace :=
  ⟨inPlace_of_reportsBuild hcmd hlen residue hc,
    fun h => reportsBuild_of_inPlace hcmd hlen residue hc h.1 h.2⟩

end ReportsBuild

/-- A build from commit number `serial`, whose hash begins with seven zeros. -/
def zeroHash (serial : Nat) (h : 1 ≤ serial ∧ serial ≤ 65535) : Changeset where
  serial := serial
  abbreviated := List.replicate 7 48
  dirty := true
  serial_range := h
  hex := fun _ hc => List.eq_of_mem_replicate hc ▸ rfl
  seven := Nat.le_refl 7

def identifyRequest : Item := rxFrame (fun _ => 0) (frame PktType.id.toByte [])

theorem identifyRequest_fields :
    identifyRequest.cmd = PktType.id.toByte ∧ identifyRequest.length ≠ 0 :=
  ⟨rxFrame_frame_cmd _ _ (by decide), rxFrame_frame_length_ne_zero _ _ (by decide)⟩

theorem reportsBuild_two_digits :
    ReportsBuild (.powerUp (fun _ => 0) fun k => (zeroHash 92 (by decide)).text.getD k 0)
      identifyRequest [] (zeroHash 92 (by decide)) :=
  (reportsBuild_iff identifyRequest_fields.1 identifyRequest_fields.2 [] fun _ _ => rfl).mpr
    ⟨by decide, .inl (by decide)⟩

/-- From the hundredth commit on, the hash begins with the separator. -/
theorem three_digits_misread :
    ¬ ∀ (fw : Firmware) (item : Item) (residue : List UInt8) (c : Changeset),
      item.cmd = PktType.id.toByte → item.length ≠ 0 → c.Lies fw.buildSha1 →
        ReportsBuild fw item residue c := by
  intro h
  have hreports := h (.powerUp (fun _ => 0) fun k => (zeroHash 100 (by decide)).text.getD k 0)
    identifyRequest [] (zeroHash 100 (by decide)) identifyRequest_fields.1
    identifyRequest_fields.2 fun _ _ => rfl
  have hplace := inPlace_of_reportsBuild identifyRequest_fields.1 identifyRequest_fields.2 []
    (fun _ _ => rfl) hreports
  rcases hplace.2 with ⟨_, hle⟩ | ⟨hle, _⟩ <;> exact absurd hle (by decide)

end UsbSpdt
