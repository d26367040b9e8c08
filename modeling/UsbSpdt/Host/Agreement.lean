import UsbSpdt.Host.Device

/-!
# What the host takes for success

The host decides from the command byte of the reply whether a request succeeded. Three of the
firmware's cases put the request's own command byte there.
-/

namespace UsbSpdt

open AttenSwitch

/-- The firmware's command types under the host's names. -/
def PktType.toCommand : PktType → Command
  | ack => .ack | nak => .nak | reset => .reset | id => .id | echo => .echo | ssn => .ssn
  | diag => .diag | sp8t => .sp8t | auxout => .auxout | auxin => .auxin | att => .att
  | light => .light | notify => .notify | readee => .readee | writeee => .writeee | spdt => .spdt
  | eraseall => .eraseall | blink => .blink

theorem fromOrdinal_toByte (t : PktType) : Command.fromOrdinal t.toByte = some t.toCommand := by
  cases t <;> rfl

theorem ordinal_toCommand (t : PktType) : t.toCommand.ordinal = t.toByte := by
  cases t <;> rfl

theorem make_packet (t : PktType) (payload : List UInt8) :
    (Packet.make t.toCommand payload).packet = frame t.toByte payload := by
  rw [Packet.make, ordinal_toCommand]

theorem toCommand_eq_ack {t : PktType} : t.toCommand = .ack ↔ t = .ack := by
  cases t <;> simp [PktType.toCommand]

theorem toCommand_eq_nak {t : PktType} : t.toCommand = .nak ↔ t = .nak := by
  cases t <;> simp [PktType.toCommand]

/-! ### The frames of the host -/

theorem requestLength_frame (c : UInt8) (payload : List UInt8) :
    requestLength (frame c payload) = UInt16.ofNat (payload.length + 6) :=
  LittleEndian.word_low_high _

section OnePacket

variable {payload : List UInt8} (stale : Item) (c : UInt8) (h58 : payload.length ≤ 58)
include h58

theorem rxFrame_frame_length :
    (rxFrame stale (frame c payload)).length.toNat = payload.length + 6 := by
  rw [rxFrame_length stale (by rw [frame_length]; omega) (by rw [frame_length]; omega),
    requestLength_frame, UInt16.toNat_ofNat']
  omega

theorem rxFrame_frame_length_ne_zero : (rxFrame stale (frame c payload)).length ≠ 0 := by
  intro h
  have := rxFrame_frame_length stale c h58
  rw [h] at this
  exact absurd this.symm (Nat.succ_ne_zero _)

theorem rxFrame_frame_cmd : (rxFrame stale (frame c payload)).cmd = c := by
  rw [Item.cmd, rxFrame_received stale (by rw [frame_length]; omega) (by decide)
    (by rw [frame_length]; change 4 ≤ _; omega)]
  rfl

end OnePacket

variable (residue : List UInt8 → List UInt8)

theorem fromBytes_bulkRead {reply : List UInt8} {t : PktType} (h6 : 6 ≤ reply.length)
    (hcmd : reply[3]? = some t.toByte) :
    Packet.fromBytes (bulkRead residue reply) =
      some ⟨t.toCommand, (bulkRead residue reply).drop 6, bulkRead residue reply⟩ := by
  have h3 : (bulkRead residue reply).getD 3 0 = t.toByte := by
    rw [bulkRead, List.getD_eq_getElem?_getD, List.getElem?_append_left (by omega), hcmd]
    rfl
  have hlen : ¬ (bulkRead residue reply).length < 6 := by
    rw [bulkRead, List.length_append]
    omega
  rw [Packet.fromBytes, if_neg hlen, h3, fromOrdinal_toByte]
  rfl

theorem serve_frame {d : Device} (hidle : d.inEp = none) (c : UInt8) {payload : List UInt8}
    (h58 : payload.length ≤ 58) :
    ∃ reply, (d.firmware.handle (rxFrame (d.stale 0) (frame c payload))).reply = some reply ∧
      6 ≤ reply.length ∧ reply[3]? = some (Firmware.answer (PktType.ofByte c)).toByte ∧
      d.serve residue (frame c payload) = (bulkRead residue reply, d.after (frame c payload)) := by
  have hz := rxFrame_frame_length_ne_zero (d.stale 0) c h58
  have hn := rxFrame_frame_length (d.stale 0) c h58
  have hc := rxFrame_frame_cmd (d.stale 0) c h58
  obtain ⟨buff, hreply, hbuff, hserve⟩ := Device.serve_single residue hidle
    (frame c payload) (by rw [frame_length]; omega) (by rw [frame_length]; omega) hz
  have hfits := (Firmware.replyLength_fits_iff (PktType.ofByte c) (payload.length + 6)
    (by omega)).mpr fun _ => Or.inr (Or.inl ⟨by omega, by omega⟩)
  have hbyte := Firmware.handle_reply_byte d.firmware hz (k := 3)
    (by rw [hc, hn]; exact Nat.lt_of_lt_of_le (by decide) hfits.1) (by decide) (by decide)
  have hcmd := Firmware.dispatch_cmd
    (d.firmware.received (rxFrame (d.stale 0) (frame c payload)))
    (by change 4 ≤ (rxFrame (d.stale 0) (frame c payload)).length.toNat; omega)
    (by change (rxFrame (d.stale 0) (frame c payload)).length.toNat < 247; omega)
  rw [hreply, Option.bind_some, hcmd] at hbyte
  refine ⟨wireBytes buff, hreply, ?_, ?_, hserve⟩
  · rw [wireBytes_length, hbuff, hc, hn]
    exact hfits.1
  · rw [hbyte]
    change some (Firmware.answer (PktType.ofByte
      (rxFrame (d.stale 0) (frame c payload)).cmd)).toByte = _
    rw [hc]

theorem sendPacket_frame {d : Device} (hidle : d.inEp = none) {p : Packet} {c : UInt8}
    {payload : List UInt8} (hp : p.packet = frame c payload) (h58 : payload.length ≤ 58) :
    ∃ reply rx, (d.firmware.handle (rxFrame (d.stale 0) p.packet)).reply = some reply ∧
      rx = ⟨(Firmware.answer (PktType.ofByte c)).toCommand, (bulkRead residue reply).drop 6,
        bulkRead residue reply⟩ ∧
      (sendPacket p).run (Device.serve residue) d =
        some ((if rx.command = .ack then .success else .fail, rx), d.after p.packet) := by
  obtain ⟨reply, hreply, h6, hcmd, hserve⟩ := serve_frame residue hidle c h58
  have hbytes := fromBytes_bulkRead residue h6 hcmd
  refine ⟨reply, _, hp ▸ hreply, rfl, ?_⟩
  rw [sendPacket, Dialogue.run_bind, Dialogue.run_request, Option.bind_some, hp, hserve]
  dsimp only
  rw [hbytes]
  rfl

/-- Whether the dispatcher has a case for a command. -/
def Firmware.hasCase : Option PktType → Bool
  | some .ack | some .nak | some .id | some .echo | some .spdt | some .writeee | some .readee
  | some .eraseall | some .blink => true
  | _ => false

/-- Host and firmware agree on an exchange: the host reports success for the commands that the
firmware has a case for, and failure for those that it answers with NAK from its default branch. -/
structure Agreement (outcome : Option ((Status × Packet) × Device)) (c : UInt8) : Prop where
  success : (∃ rx d, outcome = some ((.success, rx), d)) ↔
    Firmware.hasCase (PktType.ofByte c) = true
  fail : (∃ rx d, outcome = some ((.fail, rx), d)) ↔
    Firmware.hasCase (PktType.ofByte c) = false ∧
      ∃ res rx d, outcome = some ((res, rx), d) ∧ rx.command = .nak

theorem agreement_iff_answer {outcome : Option ((Status × Packet) × Device)} {c : UInt8}
    {rx : Packet} {d : Device}
    (hout : outcome = some ((if rx.command = .ack then .success else .fail, rx), d))
    (hrx : rx.command = (Firmware.answer (PktType.ofByte c)).toCommand) :
    Agreement outcome c ↔
      (Firmware.answer (PktType.ofByte c) = .ack ↔
        Firmware.hasCase (PktType.ofByte c) = true) ∧
      (Firmware.answer (PktType.ofByte c) ≠ .ack ↔
        Firmware.hasCase (PktType.ofByte c) = false ∧
          Firmware.answer (PktType.ofByte c) = .nak) := by
  have hsuccess : (∃ rx d, outcome = some ((Status.success, rx), d)) ↔
      Firmware.answer (PktType.ofByte c) = .ack := by
    rw [hout, ← toCommand_eq_ack, ← hrx]
    split <;> simp_all
  have hfail : (∃ rx d, outcome = some ((Status.fail, rx), d)) ↔
      Firmware.answer (PktType.ofByte c) ≠ .ack := by
    rw [hout, ne_eq, ← toCommand_eq_ack, ← hrx]
    split <;> simp_all
  have hnak : (∃ res rx d, outcome = some ((res, rx), d) ∧ rx.command = .nak) ↔
      Firmware.answer (PktType.ofByte c) = .nak := by
    rw [← toCommand_eq_nak, ← hrx, hout]
    constructor
    · intro h
      rcases h with ⟨res, rx', d', heq, hcmd⟩
      obtain ⟨⟨-, rfl⟩, -⟩ := Prod.mk.inj (Option.some.inj heq) |>.imp Prod.mk.inj id
      exact hcmd
    · exact fun h => ⟨_, rx, d, rfl, h⟩
  constructor
  · intro h
    exact ⟨hsuccess.symm.trans h.success, hfail.symm.trans (h.fail.trans (and_congr_right' hnak))⟩
  · intro h
    exact ⟨hsuccess.trans h.1, hfail.trans (h.2.trans (and_congr_right' hnak.symm))⟩

theorem answer_agrees_iff (c : Option PktType) :
    ((Firmware.answer c = .ack ↔ Firmware.hasCase c = true) ∧
      (Firmware.answer c ≠ .ack ↔ Firmware.hasCase c = false ∧ Firmware.answer c = .nak)) ↔
      c ≠ some .id ∧ c ≠ some .echo ∧ c ≠ some .readee := by
  match c with
  | none => simp [Firmware.answer, Firmware.hasCase]
  | some t => cases t <;> simp [Firmware.answer, Firmware.hasCase]

/-- Host and firmware agree on success exactly for the commands that are not answered with a copy
of the request. -/
theorem success_agreement_iff {d : Device} (hidle : d.inEp = none) {p : Packet} {c : UInt8}
    {payload : List UInt8} (hp : p.packet = frame c payload) (h58 : payload.length ≤ 58) :
    Agreement ((sendPacket p).run (Device.serve residue) d) c ↔
      c ≠ PktType.id.toByte ∧ c ≠ PktType.echo.toByte ∧ c ≠ PktType.readee.toByte := by
  obtain ⟨reply, rx, -, hrx, hout⟩ := sendPacket_frame residue hidle hp h58
  rw [agreement_iff_answer hout (by rw [hrx]), answer_agrees_iff]
  simp only [ne_eq, PktType.ofByte_eq_some]

theorem success_agreement_eraseall :
    Agreement ((sendPacket (.make .eraseall [])).run (Device.serve fun _ => [])
      (.powerUp (fun _ => 0xFF) (fun _ => 0) fun _ _ => 0)) 16 :=
  (success_agreement_iff (fun _ => []) rfl (show _ = frame 16 [] from rfl) (by decide)).mpr
    (by decide)

/-- The request of the test program `echoTest`, whose payload is "ABCDEF". -/
theorem echo_reported_failed :
    ¬ Agreement ((sendPacket (.make .echo [65, 66, 67, 68, 69, 70])).run
      (Device.serve fun _ => []) (.powerUp (fun _ => 0xFF) (fun _ => 0) fun _ _ => 0)) 4 := by
  obtain ⟨reply, rx, -, hrx, hout⟩ := sendPacket_frame (fun _ => [])
    (show (Device.powerUp (fun _ => 0xFF) (fun _ => 0) fun _ _ => 0).inEp = none from rfl)
    (show (Packet.make .echo [65, 66, 67, 68, 69, 70]).packet =
      frame 4 [65, 66, 67, 68, 69, 70] from rfl) (by decide)
  rw [agreement_iff_answer hout (by rw [hrx]), answer_agrees_iff]
  decide

end UsbSpdt
