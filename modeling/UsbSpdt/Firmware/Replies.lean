import UsbSpdt.Firmware.InstrTask

/-!
# The reply to a request

Every dispatched request is answered; how long the answer is depends on the command and, for an
echo, on the length field of the request.
-/

namespace UsbSpdt

@[simp] theorem beginReply_length (out : Buffer) : (beginReply out).length = 6 := by
  simp [beginReply, usbPktMinHeaderSz]

@[simp] theorem getInstrumentID_length (fw : Firmware) (b : Buffer) :
    (getInstrumentID fw b).length = 22 := by
  simp [getInstrumentID, usbPktMinHeaderSz]

namespace Firmware

def echoLength (n : Nat) : Nat := if 2 ≤ n ∧ n < 247 then n else 6

def replyLength : Option PktType → Nat → Nat
  | some .id, _ => 22
  | some .readee, _ => 9
  | some .echo, n => echoLength n
  | _, _ => 6

theorem runCommand_length (fw : Firmware) (c : Option PktType) (h : fw.outpkt.length = 6) :
    (fw.runCommand c).1.outpkt.length.toNat = replyLength c fw.inpkt.length.toNat := by
  match c with
  | none => simp [runCommand, replyLength, h]
  | some t =>
    cases t with
    | echo => exact copyPacket_length _ _ h
    | id => simp [runCommand, replyLength]
    | readee => simp [runCommand, replyLength, usbPktMinHeaderSz]
    | _ => simp [runCommand, replyLength, h]

theorem dispatch_length (fw : Firmware) :
    fw.dispatch.1.outpkt.length.toNat =
      replyLength (PktType.ofByte fw.inpkt.cmd) fw.inpkt.length.toNat :=
  runCommand_length _ _ (beginReply_length _)

theorem replyLength_pos (c : Option PktType) (n : Nat) : 0 < replyLength c n := by
  unfold replyLength echoLength
  split
  · decide
  · decide
  · split <;> omega
  · decide

/-- The command byte of the answer to a request that is copied whole. -/
def answer : Option PktType → PktType
  | some .ack | some .nak | some .spdt | some .writeee | some .eraseall | some .blink => .ack
  | some .id => .id
  | some .echo => .echo
  | some .readee => .readee
  | _ => .nak

theorem copyPacket_cmd {inBuf : Buffer} (outBuf : Buffer) (h4 : 4 ≤ inBuf.length.toNat)
    (h247 : inBuf.length.toNat < 247) : copyPacket inBuf outBuf 4 = inBuf 4 := by
  rw [copyPacket, if_pos (by omega), if_pos (by omega)]

theorem runCommand_cmd (fw : Firmware) {c : Option PktType}
    (hack : fw.outpkt 4 = PktType.ack.toByte) (hc : PktType.ofByte fw.inpkt.cmd = c)
    (h4 : 4 ≤ fw.inpkt.length.toNat) (h247 : fw.inpkt.length.toNat < 247) :
    (fw.runCommand c).1.outpkt 4 = (answer c).toByte := by
  match c with
  | none => rfl
  | some t =>
    have hcopy : copyPacket fw.inpkt fw.outpkt 4 = t.toByte :=
      (copyPacket_cmd fw.outpkt h4 h247).trans (PktType.ofByte_eq_some.mp hc)
    cases t with
    | id => exact hcopy
    | echo => exact hcopy
    | readee => exact hcopy
    | ack => exact hack
    | nak => exact hack
    | spdt => exact hack
    | writeee => exact hack
    | eraseall => exact hack
    | blink => exact hack
    | _ => rfl

theorem dispatch_cmd (fw : Firmware) (h4 : 4 ≤ fw.inpkt.length.toNat)
    (h247 : fw.inpkt.length.toNat < 247) :
    fw.dispatch.1.outpkt 4 = (answer (PktType.ofByte fw.inpkt.cmd)).toByte :=
  runCommand_cmd { fw with outpkt := beginReply fw.outpkt } rfl rfl h4 h247

theorem replyLength_fits_iff (c : Option PktType) (n : Nat) (hn : n ≠ 0) :
    (usbPktMinHeaderSz ≤ replyLength c n ∧ replyLength c n ≤ 64) ↔
      (c = some .echo → n = 1 ∨ (6 ≤ n ∧ n ≤ 64) ∨ 247 ≤ n) := by
  rw [usbPktMinHeaderSz]
  match c with
  | none => simp [replyLength]
  | some t =>
    cases t with
    | echo =>
      simp only [replyLength, echoLength, true_imp_iff]
      split <;> omega
    | _ => simp [replyLength]

theorem handle_silent (fw : Firmware) {item : Item} (h : item.length = 0) :
    fw.handle item = ⟨{ fw with inpkt := (readPacket fw.inpkt item).2 }, [], none⟩ := by
  simp only [handle, (readPacket_eq_zero fw.inpkt item).mpr h, if_true]

def received (fw : Firmware) (item : Item) : Firmware :=
  { fw with inpkt := (readPacket fw.inpkt item).2 }

theorem handle_dispatched (fw : Firmware) {item : Item} (h : item.length ≠ 0) :
    fw.handle item =
      ⟨{ (fw.received item).dispatch.1 with
          outpkt := sealPacket (fw.received item).dispatch.1.outpkt },
        (fw.received item).dispatch.2,
        some (wireBytes (sealPacket (fw.received item).dispatch.1.outpkt))⟩ := by
  have hr : (readPacket fw.inpkt item).1 ≠ 0 := fun he => h ((readPacket_eq_zero _ _).mp he)
  simp only [handle, hr, if_false]
  rfl

theorem dispatch_of_cmd (fw : Firmware) {item : Item} {c : Option PktType}
    (hc : PktType.ofByte item.cmd = c) :
    (fw.received item).dispatch =
      runCommand { fw.received item with outpkt := beginReply fw.outpkt } c := by
  subst hc
  rfl

theorem handle_reply (fw : Firmware) {item : Item} (h : item.length ≠ 0) :
    ∃ buff : Buffer, (fw.handle item).reply = some (wireBytes buff) ∧
      buff.length.toNat = replyLength (PktType.ofByte item.cmd) item.length.toNat := by
  refine ⟨_, congrArg Round.reply (handle_dispatched fw h), ?_⟩
  rw [sealPacket_length, dispatch_length]
  rfl

theorem handle_reply_byte (fw : Firmware) {item : Item} (h : item.length ≠ 0) {k : Nat}
    (hk : k < replyLength (PktType.ofByte item.cmd) item.length.toNat) (h4 : k ≠ 4) (h5 : k ≠ 5) :
    (fw.handle item).reply.bind (·[k]?) =
      some ((fw.received item).dispatch.1.outpkt (1 + k)) := by
  have hlen := dispatch_length (fw.received item)
  rw [handle_dispatched fw h, Option.bind_some, wireBytes_getElem?, sealPacket_length, hlen]
  change (if k < replyLength (PktType.ofByte item.cmd) item.length.toNat then _ else none) = _
  rw [if_pos hk, sealPacket_apply _ (by omega) (by omega)]

end Firmware

theorem writeAttempts_free {packet : List UInt8} (h : packet ≠ []) :
    writeAttempts (fun _ => true) packet waitIfFull 0 = [packet] := by
  simp [writeAttempts, waitIfFull, usbdEpWritePacket, h]

theorem wireBytes_ne_nil {buff : Buffer} {c : Option PktType} {n : Nat}
    (h : buff.length.toNat = Firmware.replyLength c n) : wireBytes buff ≠ [] := by
  apply List.ne_nil_of_length_pos
  rw [wireBytes_length, h]
  exact Firmware.replyLength_pos c n

theorem wireBytes_field {buff : Buffer} (h : 3 ≤ buff.length.toNat) :
    (wireBytes buff)[1]? = some (buff 2) ∧ (wireBytes buff)[2]? = some (buff 3) := by
  constructor
  · rw [wireBytes_getElem?, if_pos (by omega)]
  · rw [wireBytes_getElem?, if_pos (by omega)]

/-- What a free endpoint takes from the instrument task after one USB packet. -/
def repliesTo (fw : Firmware) (stale : Item) (received : List UInt8) : List (List UInt8) :=
  match bulkctrlDataRxCb stale received with
  | none => []
  | some item =>
    match (fw.handle item).reply with
    | none => []
    | some packet => writeAttempts (fun _ => true) packet waitIfFull 0

/-- Exactly one packet, as long as its own length field says, and within the limits. -/
def OneWellFormed (packets : List (List UInt8)) : Prop :=
  ∃ reply lo hi, packets = [reply] ∧ reply[1]? = some lo ∧ reply[2]? = some hi ∧
    (LittleEndian.word lo hi).toNat = reply.length ∧
    usbPktMinHeaderSz ≤ reply.length ∧ reply.length ≤ 64

theorem repliesTo_silent (fw : Firmware) (stale : Item) (received : List UInt8)
    (hne : received ≠ []) (h : (rxFrame stale received).length = 0) :
    repliesTo fw stale received = [] := by
  simp only [repliesTo, bulkctrlDataRxCb_of_ne_nil stale hne, Firmware.handle_silent fw h]

theorem repliesTo_dispatched (fw : Firmware) (stale : Item) (received : List UInt8)
    (hne : received ≠ []) (h : (rxFrame stale received).length ≠ 0) :
    ∃ buff : Buffer, repliesTo fw stale received = [wireBytes buff] ∧
      buff.length.toNat = Firmware.replyLength (PktType.ofByte (rxFrame stale received).cmd)
        (rxFrame stale received).length.toNat := by
  obtain ⟨buff, hreply, hbuff⟩ := Firmware.handle_reply fw h
  refine ⟨buff, ?_, hbuff⟩
  simp only [repliesTo, bulkctrlDataRxCb_of_ne_nil stale hne, hreply]
  exact writeAttempts_free (wireBytes_ne_nil hbuff)

/-- A received USB packet is answered by exactly one well-formed reply if and only if its length
field, as queued, is not zero and, for an echo, leads to a reply within the limits. -/
theorem one_reply_iff (fw : Firmware) (stale : Item) (received : List UInt8)
    (hne : 1 ≤ received.length) :
    OneWellFormed (repliesTo fw stale received) ↔
      (rxFrame stale received).length ≠ 0 ∧
        ((rxFrame stale received).cmd = PktType.echo.toByte →
          (rxFrame stale received).length.toNat = 1 ∨
            (6 ≤ (rxFrame stale received).length.toNat ∧
              (rxFrame stale received).length.toNat ≤ 64) ∨
            247 ≤ (rxFrame stale received).length.toNat) := by
  have hnil : received ≠ [] := List.ne_nil_of_length_pos hne
  by_cases hz : (rxFrame stale received).length = 0
  · rw [repliesTo_silent fw stale received hnil hz]
    simp [OneWellFormed, hz]
  · have hn : (rxFrame stale received).length.toNat ≠ 0 := fun he => hz (UInt16.toNat_inj.mp he)
    obtain ⟨buff, hreply, hbuff⟩ := repliesTo_dispatched fw stale received hnil hz
    rw [hreply, ← PktType.ofByte_eq_some, ← Firmware.replyLength_fits_iff _ _ hn, ← hbuff,
      ← wireBytes_length]
    constructor
    · intro h
      rcases h with ⟨reply, lo, hi, heq, -, -, -, hmin, hmax⟩
      obtain rfl : wireBytes buff = reply := by simpa using heq
      exact ⟨hz, hmin, hmax⟩
    · intro h
      rcases h with ⟨-, hmin, hmax⟩
      have hthree : 3 ≤ buff.length.toNat := by
        rw [wireBytes_length, usbPktMinHeaderSz] at hmin
        omega
      exact ⟨wireBytes buff, buff 2, buff 3, rfl, (wireBytes_field hthree).1,
        (wireBytes_field hthree).2, (wireBytes_length buff).symm, hmin, hmax⟩

theorem one_reply_ack :
    1 ≤ [1, 6, 0, 0, 0, 0].length ∧
      OneWellFormed (repliesTo (.powerUp (fun _ => 0xFF) fun _ => 0) (fun _ => 0)
        [1, 6, 0, 0, 0, 0]) :=
  ⟨by decide, (one_reply_iff _ _ _ (by decide)).mpr (by decide)⟩

/-- An echo request that claims 200 bytes is answered with 200 bytes. -/
theorem long_echo_reply :
    ¬ OneWellFormed (repliesTo (.powerUp (fun _ => 0xFF) fun _ => 0) (fun _ => 0)
      [1, 200, 0, 4, 0, 0]) := by
  obtain ⟨buff, hreply, hbuff⟩ := repliesTo_dispatched (.powerUp (fun _ => 0xFF) fun _ => 0)
    (fun _ => 0) [1, 200, 0, 4, 0, 0] (by decide) (by decide)
  rw [hreply]
  intro h
  rcases h with ⟨reply, lo, hi, heq, -, -, -, -, hmax⟩
  obtain rfl : wireBytes buff = reply := by simpa using heq
  rw [wireBytes_length, hbuff] at hmax
  exact absurd hmax (by decide)

end UsbSpdt
