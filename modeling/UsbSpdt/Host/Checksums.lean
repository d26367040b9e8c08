import UsbSpdt.Firmware.Checksum
import UsbSpdt.Host.Agreement

/-!
# Two checksums

The host puts the sum of the payload into the checksum field of a request. The firmware puts the
sums of `FLETCH` there, which also run over the header. Neither side looks at what it receives.
-/

namespace UsbSpdt

open AttenSwitch

/-- The checksum field of a packet on the wire. -/
def checksumField (bytes : List UInt8) : UInt16 :=
  LittleEndian.word (bytes.getD 4 0) (bytes.getD 5 0)

/-- A buffer that holds a packet from the wire, and around it what was there before. -/
def Buffer.holding (around : Buffer) (bytes : List UInt8) : Buffer :=
  fun i => if 1 ≤ i ∧ i ≤ bytes.length then bytes.getD (i - 1) 0 else around i

theorem Buffer.holding_apply (around : Buffer) {bytes : List UInt8} {k : Nat}
    (hk : k < bytes.length) : around.holding bytes (1 + k) = bytes.getD k 0 := by
  rw [holding, if_pos ⟨by omega, by omega⟩, Nat.add_sub_cancel_left]

/-- The checksum that `make` places. -/
def hostChecksum (command : Command) (payload : List UInt8) : UInt16 :=
  checksumField (Packet.make command payload).packet

/-- The checksum that `writePacket` would place in the same packet. -/
def firmwareChecksum (around : Buffer) (command : Command) (payload : List UInt8) : UInt16 :=
  (sealPacket (around.holding (Packet.make command payload).packet)).checksum

/-! ### The host's -/

theorem hostChecksum_eq (command : Command) (payload : List UInt8) :
    hostChecksum command payload = cksumSimple payload := by
  change LittleEndian.word (LittleEndian.low (UInt16.ofNat (cksumSimple payload).toNat))
    (LittleEndian.high (UInt16.ofNat (cksumSimple payload).toNat)) = _
  rw [LittleEndian.word_low_high, UInt16.ofNat_toNat]

theorem foldl_cksum_toNat (payload : List UInt8) (sum : UInt16) :
    (payload.foldl (fun sum ch => sum + ch.toUInt16) sum).toNat =
      (sum.toNat + (payload.map UInt8.toNat).sum) % 2 ^ 16 := by
  induction payload generalizing sum with
  | nil => exact (Nat.mod_eq_of_lt sum.toNat_lt).symm
  | cons ch payload ih =>
    rw [List.foldl_cons, ih, UInt16.toNat_add, UInt8.toNat_toUInt16, List.map_cons, List.sum_cons,
      Nat.mod_add_mod, Nat.add_assoc]

theorem sum_bytes_le (payload : List UInt8) :
    (payload.map UInt8.toNat).sum ≤ 255 * payload.length := by
  induction payload with
  | nil => exact Nat.le_refl 0
  | cons ch payload ih =>
    have hch := ch.toNat_lt
    rw [List.map_cons, List.sum_cons, List.length_cons]
    omega

theorem hostChecksum_toNat (command : Command) {payload : List UInt8}
    (h58 : payload.length ≤ 58) :
    (hostChecksum command payload).toNat = (payload.map UInt8.toNat).sum := by
  have hle := sum_bytes_le payload
  rw [hostChecksum_eq, cksumSimple, foldl_cksum_toNat]
  change (0 + _) % _ = _
  rw [Nat.zero_add, Nat.mod_eq_of_lt (by omega)]

/-! ### The firmware's -/

/-- The bytes of the packet with the checksum field cleared. -/
def clearedFrame (c : UInt8) (payload : List UInt8) : List UInt8 :=
  packC 1 ++ packV (payload.length + 6) ++ [c] ++ [0, 0] ++ payload

theorem clearedFrame_length (c : UInt8) (payload : List UInt8) :
    (clearedFrame c payload).length = payload.length + 6 := by
  simp [clearedFrame, packC, packV]

theorem holding_length (around : Buffer) (c : UInt8) {payload : List UInt8}
    (h58 : payload.length ≤ 58) :
    (around.holding (frame c payload)).length.toNat = payload.length + 6 := by
  rw [Buffer.length]
  change (LittleEndian.word (around.holding _ (1 + 1)) (around.holding _ (1 + 2))).toNat = _
  rw [Buffer.holding_apply _ (by rw [frame_length]; omega),
    Buffer.holding_apply _ (by rw [frame_length]; omega)]
  change (LittleEndian.word (LittleEndian.low _) (LittleEndian.high _)).toNat = _
  rw [LittleEndian.word_low_high, UInt16.toNat_ofNat']
  omega

theorem holding_cleared (around : Buffer) (c : UInt8) {payload : List UInt8} {k : Nat}
    (hk : k < payload.length + 6) :
    (around.holding (frame c payload)).setChecksum 0 (1 + k) =
      (clearedFrame c payload).getD k 0 := by
  rw [Buffer.setChecksum_apply]
  by_cases h5 : k = 5
  · subst h5
    rfl
  · by_cases h4 : k = 4
    · subst h4
      rfl
    · rw [if_neg (by omega), if_neg (by omega), Buffer.holding_apply _ (by rwa [frame_length])]
      match k with
      | 0 => rfl
      | 1 => rfl
      | 2 => rfl
      | 3 => rfl
      | k + 6 => rfl

/-- Which bytes `writePacket` sums: the header, the cleared field and the payload, up to two bytes
before the end. -/
theorem holding_summed (around : Buffer) (c : UInt8) {payload : List UInt8}
    (h58 : payload.length ≤ 58) :
    ((around.holding (frame c payload)).setChecksum 0).summed =
      ((clearedFrame c payload).take (payload.length + 4)).map UInt8.toNat := by
  rw [Buffer.summed, setChecksum_length, holding_length around c h58]
  congr 1
  apply List.ext_getElem?
  intro k
  rw [Buffer.slice_getElem?, List.getElem?_take]
  by_cases hk : k < payload.length + 4
  · have hlt : k < (clearedFrame c payload).length := by
      rw [clearedFrame_length]
      omega
    rw [if_pos (by omega), if_pos hk, holding_cleared around c (by omega),
      List.getD_eq_getElem?_getD, List.getElem?_eq_getElem hlt, Option.getD_some]
  · rw [if_neg (by omega), if_neg hk]

/-- What follows the command byte among the bytes that are summed. -/
def summedRest (payload : List UInt8) : List Nat :=
  (([0, 0] ++ payload).take payload.length).map UInt8.toNat

theorem firmwareChecksum_toNat (around : Buffer) (command : Command) {payload : List UInt8}
    (h58 : payload.length ≤ 58) :
    (firmwareChecksum around command payload).toNat =
      256 * (Fletcher.sums 255
        ([1, payload.length + 6, 0, command.ordinal.toNat] ++ summedRest payload)).2 +
      (Fletcher.sums 255
        ([1, payload.length + 6, 0, command.ordinal.toNat] ++ summedRest payload)).1 := by
  have hsummed := holding_summed around command.ordinal h58
  have hlow : (LittleEndian.low (UInt16.ofNat (payload.length + 6))).toNat =
      payload.length + 6 := by
    rw [LittleEndian.low_toNat, UInt16.toNat_ofNat']
    omega
  have hhigh : (LittleEndian.high (UInt16.ofNat (payload.length + 6))).toNat = 0 := by
    rw [LittleEndian.high_toNat, UInt16.toNat_ofNat']
    omega
  have hbytes : ((clearedFrame command.ordinal payload).take (payload.length + 4)).map UInt8.toNat =
      [1, payload.length + 6, 0, command.ordinal.toNat] ++ summedRest payload := by
    simp only [clearedFrame, packC, packV, summedRest, List.cons_append, List.nil_append,
      List.take_succ_cons, List.map_cons, hlow, hhigh]
    rfl
  rw [hbytes] at hsummed
  rw [firmwareChecksum, sealPacket_checksum, Buffer.recomputed, packetChecksum_toNat,
    Packet.make, hsummed]

/-! ### Compared -/

/-- Requests that differ in the command alone differ in the firmware's checksum. -/
theorem firmwareChecksum_injective (around : Buffer) {c c' : Command} {payload : List UInt8}
    (h58 : payload.length ≤ 58)
    (h : firmwareChecksum around c payload = firmwareChecksum around c' payload) : c = c' := by
  have hc := firmwareChecksum_toNat around c h58
  have hc' := firmwareChecksum_toNat around c' h58
  have hlt := Command.ordinal_toNat_lt c
  have hlt' := Command.ordinal_toNat_lt c'
  simp only [Fletcher.sums_eq, List.cons_append, List.nil_append, List.sum_cons] at hc hc'
  rw [h] at hc
  apply Command.ordinal_injective
  omega

/-- The host's checksum is the sum of the payload whatever the command, the firmware's that of
`FLETCH` over the header, the cleared field and the payload less its last two bytes: for no payload
do they agree for two commands, and for the empty payload for none. -/
theorem checksums_compared (around : Buffer) {payload : List UInt8} (h58 : payload.length ≤ 58) :
    (∀ command, (hostChecksum command payload).toNat = (payload.map UInt8.toNat).sum) ∧
    (∀ command, (firmwareChecksum around command payload).toNat =
      256 * (Fletcher.sums 255
        ([1, payload.length + 6, 0, command.ordinal.toNat] ++ summedRest payload)).2 +
      (Fletcher.sums 255
        ([1, payload.length + 6, 0, command.ordinal.toNat] ++ summedRest payload)).1) ∧
    (∀ c c', hostChecksum c payload = firmwareChecksum around c payload →
      hostChecksum c' payload = firmwareChecksum around c' payload → c = c') ∧
    (payload = [] → ∀ command,
      hostChecksum command payload ≠ firmwareChecksum around command payload) := by
  constructor
  · exact fun command => hostChecksum_toNat command h58
  constructor
  · exact fun command => firmwareChecksum_toNat around command h58
  constructor
  · intro c c' h h'
    apply firmwareChecksum_injective around h58
    rw [← h, ← h', hostChecksum_eq, hostChecksum_eq]
  · rintro rfl command heq
    have hfirmware := firmwareChecksum_toNat around command h58
    have hlt := Command.ordinal_toNat_lt command
    rw [← heq, hostChecksum_toNat command h58] at hfirmware
    simp only [Fletcher.sums_eq, summedRest, List.length_nil, List.take_zero, List.map_nil,
      List.append_nil, List.sum_cons, List.sum_nil] at hfirmware
    omega

/-- Of the payload "ABCDEF" the firmware sums the cleared field and "ABCD". -/
theorem checksums_compared_echo :
    (hostChecksum .echo [65, 66, 67, 68, 69, 70]).toNat = 405 ∧
    (firmwareChecksum (fun _ => 0) .echo [65, 66, 67, 68, 69, 70]).toNat =
      256 * (Fletcher.sums 255 [1, 12, 0, 4, 0, 0, 65, 66, 67, 68]).2 +
        (Fletcher.sums 255 [1, 12, 0, 4, 0, 0, 65, 66, 67, 68]).1 ∧
    Fletcher.sums 255 [1, 12, 0, 4, 0, 0, 65, 66, 67, 68] = (28, 41) := by
  have h := @checksums_compared (fun _ => 0) [65, 66, 67, 68, 69, 70] (by decide)
  exact ⟨h.1 .echo, h.2.1 .echo, by decide⟩

/-- The request of `echoTest`, whose payload is "ABCDEF". -/
theorem echo_checksums_differ : hostChecksum .echo [65, 66, 67, 68, 69, 70] ≠
    firmwareChecksum (fun _ => 0) .echo [65, 66, 67, 68, 69, 70] := by decide

end UsbSpdt
