import UsbSpdt.Host.Agreement

/-!
# Reading and writing the EEPROM from the host

What `readEE` and `writeEE` do to the memory behind an idle device: they fetch and store at
addresses modulo the size of the chip.
-/

namespace UsbSpdt

open AttenSwitch

structure Device.At (d : Device) (m : Image) : Prop where
  idle : d.inEp = none
  image : d.image = m

theorem received_payload (fw : Firmware) (stale : Item) (c : UInt8) {payload : List UInt8}
    (h58 : payload.length ≤ 58) {k : Nat} (hk : k < payload.length) :
    (fw.received (rxFrame stale (frame c payload))).inpkt.payload k = payload.getD k 0 := by
  have h65 : 7 + k < 65 := by omega
  change (readPacket fw.inpkt (rxFrame stale (frame c payload))).2 (7 + k) = _
  rw [readPacket_apply, dif_pos h65, rxFrame_received stale (by rw [frame_length]; omega)
    (by change 1 ≤ 7 + k; omega) (by rw [frame_length]; change 7 + k ≤ _; omega)]
  change (frame c payload).getD (7 + k - 1) 0 = _
  rw [show 7 + k - 1 = k + 6 by omega]
  rfl

theorem ofNat_mod_512 (addr : Nat) : (UInt16.ofNat addr).toNat % 512 = addr % 512 := by
  rw [UInt16.toNat_ofNat']
  omega

theorem received_eepromAddress (fw : Firmware) (stale : Item) (c : UInt8) (addr : Nat)
    (rest : List UInt8) (h58 : (packV addr ++ rest).length ≤ 58) :
    (fw.received (rxFrame stale (frame c (packV addr ++ rest)))).inpkt.eepromAddress =
      UInt16.ofNat addr := by
  rw [Buffer.eepromAddress, received_payload fw stale c h58 (by simp [packV]),
    received_payload fw stale c h58 (by simp [packV])]
  exact LittleEndian.word_low_high _

theorem handle_frame_firmware (fw : Firmware) (stale : Item) (t : PktType) {payload : List UInt8}
    (h58 : payload.length ≤ 58) :
    (fw.handle (rxFrame stale (frame t.toByte payload))).firmware.eeprom =
      (Firmware.runCommand { fw.received (rxFrame stale (frame t.toByte payload)) with
        outpkt := beginReply fw.outpkt } (some t)).1.eeprom := by
  have hz := rxFrame_frame_length_ne_zero stale t.toByte h58
  have hc := PktType.ofByte_eq_some.mpr (rxFrame_frame_cmd stale t.toByte h58)
  rw [Firmware.handle_dispatched fw hz, Firmware.dispatch_of_cmd fw hc]

theorem after_writeee (d : Device) (addr : Nat) (x : UInt8) :
    (d.after (frame PktType.writeee.toByte (packV addr ++ [x]))).image =
      CyclicMemory.write d.image addr x := by
  have h58 : (packV addr ++ [x]).length ≤ 58 := by simp [packV]
  have heeprom := handle_frame_firmware d.firmware (d.stale 0) .writeee h58
  simp only [Firmware.runCommand, received_eepromAddress d.firmware _ _ addr [x] h58,
    received_payload d.firmware _ _ h58 (k := 2) (by simp [packV])] at heeprom
  rw [Device.image, Device.after, heeprom, Eeprom.write_image]
  exact CyclicMemory.write_congr _ _ (ofNat_mod_512 addr)

theorem after_readee (d : Device) (addr : Nat) :
    (d.after (frame PktType.readee.toByte (packV addr))).image = d.image := by
  have h58 : (packV addr).length ≤ 58 := by simp [packV]
  have heeprom := handle_frame_firmware d.firmware (d.stale 0) .readee h58
  simp only [Firmware.runCommand, Firmware.received] at heeprom
  exact congrArg Eeprom.image heeprom

theorem after_eraseall (d : Device) :
    (d.after (frame PktType.eraseall.toByte [])).image = fun _ => 0xFF := by
  have h58 : ([] : List UInt8).length ≤ 58 := Nat.zero_le 58
  have heeprom := handle_frame_firmware d.firmware (d.stale 0) .eraseall h58
  simp only [Firmware.runCommand] at heeprom
  rw [Device.image, Device.after, heeprom, Eeprom.eraseAll_image]

theorem after_blink (d : Device) (on : Nat) :
    (d.after (frame PktType.blink.toByte (packC on))).image = d.image := by
  have h58 : (packC on).length ≤ 58 := by simp [packC]
  have heeprom := handle_frame_firmware d.firmware (d.stale 0) .blink h58
  simp only [Firmware.runCommand, Firmware.received] at heeprom
  exact congrArg Eeprom.image heeprom

theorem readee_reply_byte (fw : Firmware) (stale : Item) (addr : Nat) :
    (fw.handle (rxFrame stale (frame PktType.readee.toByte (packV addr)))).reply.bind (·[8]?) =
      some (CyclicMemory.read fw.eeprom.image addr) := by
  have h58 : (packV addr).length ≤ 58 := by simp [packV]
  have hz := rxFrame_frame_length_ne_zero stale PktType.readee.toByte h58
  have hc := PktType.ofByte_eq_some.mpr (rxFrame_frame_cmd stale PktType.readee.toByte h58)
  rw [Firmware.handle_reply_byte fw hz (by rw [hc]; exact (by decide : 8 < 9)) (by decide)
    (by decide), Firmware.dispatch_of_cmd fw hc]
  have haddress := received_eepromAddress fw stale PktType.readee.toByte addr [] (by simp [packV])
  rw [List.append_nil] at haddress
  refine congrArg some ?_
  change fw.eeprom.read (fw.received _).inpkt.eepromAddress = _
  rw [haddress, Eeprom.read_eq]
  exact CyclicMemory.read_congr _ (ofNat_mod_512 addr)

theorem take_one_drop_append {α : Type} {l : List α} (r : List α) {k : Nat} {x : α}
    (h : l[k]? = some x) : ((l ++ r).drop k).take 1 = [x] := by
  obtain ⟨hk, rfl⟩ := List.getElem?_eq_some_iff.mp h
  rw [List.drop_append_of_le_length (Nat.le_of_lt hk), List.drop_eq_getElem_cons hk]
  rfl

/-! ### Sessions with an idle device -/

variable (residue : List UInt8 → List UInt8)

theorem ensures_writeByte {d : Device} {m : Image} (h : d.At m) (addr : Nat) (x : UInt8) :
    Dialogue.Ensures (Device.serve residue) (sendPacket (.make .writeee (packV addr ++ [x]))) d
      fun _ t => t.At (CyclicMemory.write m addr x) := by
  have hp := make_packet .writeee (packV addr ++ [x])
  obtain ⟨reply, rx, -, -, hrun⟩ := sendPacket_frame residue h.idle hp (by simp [packV])
  refine ⟨_, _, hrun, rfl, ?_⟩
  rw [← h.image, ← after_writeee]
  exact congrArg (Device.image <| d.after ·) hp

theorem ensures_readByte {d : Device} {m : Image} (h : d.At m) (addr : Nat) :
    Dialogue.Ensures (Device.serve residue) (sendPacket (.make .readee (packV addr))) d
      fun r t => (r.2.payload.drop 2).take 1 = [CyclicMemory.read m addr] ∧ t.At m := by
  have hp := make_packet .readee (packV addr)
  obtain ⟨reply, rx, hreply, rfl, hrun⟩ := sendPacket_frame residue h.idle hp (by simp [packV])
  refine ⟨_, _, hrun, ?_, rfl, ?_⟩
  · have hbyte := readee_reply_byte d.firmware (d.stale 0) addr
    rw [← hp, hreply] at hbyte
    dsimp only
    rw [List.drop_drop, bulkRead, ← h.image]
    exact take_one_drop_append _ hbyte
  · rw [← h.image, ← after_readee d addr]
    exact congrArg (Device.image <| d.after ·) hp

theorem ensures_eraseAllEE {d : Device} (h : d.inEp = none) :
    Dialogue.Ensures (Device.serve residue) eraseAllEE d fun _ t => t.At fun _ => 0xFF := by
  have hp := make_packet .eraseall []
  obtain ⟨reply, rx, -, -, hrun⟩ := sendPacket_frame residue h hp (by simp)
  apply Dialogue.ensures_bind
  refine ⟨_, _, hrun, Dialogue.ensures_pure ⟨rfl, ?_⟩⟩
  rw [← after_eraseall d]
  exact congrArg (Device.image <| d.after ·) hp

theorem ensures_blink {d : Device} {m : Image} (h : d.At m) (on : Nat) :
    Dialogue.Ensures (Device.serve residue) (blink on) d fun _ t => t.At m := by
  have hp := make_packet .blink (packC on)
  obtain ⟨reply, rx, -, -, hrun⟩ := sendPacket_frame residue h.idle hp (by simp [packC])
  apply Dialogue.ensures_bind
  refine ⟨_, _, hrun, Dialogue.ensures_pure ⟨rfl, ?_⟩⟩
  rw [← h.image, ← after_blink d on]
  exact congrArg (Device.image <| d.after ·) hp

theorem ensures_readEE {d : Device} {m : Image} (h : d.At m) (addr n : Nat) :
    Dialogue.Ensures (Device.serve residue) (readEE addr n) d
      fun bytes t => bytes = CyclicMemory.fetch m addr n ∧ t.At m := by
  induction n generalizing addr d with
  | zero => exact Dialogue.ensures_pure ⟨rfl, h⟩
  | succ n ih =>
    apply Dialogue.ensures_bind
    apply (ensures_readByte residue h addr).mono
    intro r t hr
    apply Dialogue.ensures_bind
    apply (ih hr.2 (addr + 1)).mono
    intro rest u hrest
    refine Dialogue.ensures_pure ⟨?_, hrest.2⟩
    rw [hr.1, hrest.1]
    rfl

theorem ensures_writeEE {d : Device} {m : Image} (h : d.At m) (addr : Nat) (val : List UInt8) :
    Dialogue.Ensures (Device.serve residue) (writeEE addr val) d
      fun _ t => t.At (CyclicMemory.store m addr val) := by
  induction val generalizing addr d m with
  | nil => exact Dialogue.ensures_pure h
  | cons x val ih =>
    apply Dialogue.ensures_bind
    exact (ensures_writeByte residue h addr x).mono fun _ t ht => ih ht (addr + 1)

end UsbSpdt
