import UsbSpdt.Host.Agreement

/-!
# Echo

The reply to an echo request is the request, up to the checksum.
-/

namespace UsbSpdt

open AttenSwitch

/-- A byte of the frame where the instrument task finds it, and where `copyPacket` puts it. -/
theorem copyPacket_frame (fw : Firmware) (stale : Item) (out : Buffer) (c : UInt8)
    {payload : List UInt8} (h58 : payload.length ≤ 58) {k : Nat} (hk : k < payload.length + 6) :
    some (copyPacket (fw.received (rxFrame stale (frame c payload))).inpkt out (1 + k)) =
      (frame c payload)[k]? := by
  have hlen : (fw.received (rxFrame stale (frame c payload))).inpkt.length.toNat =
      payload.length + 6 := rxFrame_frame_length stale c h58
  have h65 : 1 + k < 65 := by omega
  have hlt : k < (frame c payload).length := by rwa [frame_length]
  rw [copyPacket, if_pos ⟨by omega, by omega⟩, if_pos (by omega)]
  change some ((readPacket fw.inpkt (rxFrame stale (frame c payload))).2 (1 + k)) = _
  rw [readPacket_apply, dif_pos h65, rxFrame_received stale (by rw [frame_length]; omega)
    (Nat.le_add_right 1 k) (by rw [frame_length]; change 1 + k ≤ _; omega)]
  change some ((frame c payload).getD (1 + k - 1) 0) = _
  rw [Nat.add_sub_cancel_left, List.getD_eq_getElem?_getD, List.getElem?_eq_getElem hlt,
    Option.getD_some]

section Reply

variable {fw : Firmware} {stale : Item} {payload reply : List UInt8}
  (hreply : (fw.handle (rxFrame stale (frame PktType.echo.toByte payload))).reply = some reply)
  (h58 : payload.length ≤ 58)
include hreply h58

theorem echo_reply_length : reply.length = payload.length + 6 := by
  have hz := rxFrame_frame_length_ne_zero stale PktType.echo.toByte h58
  have hn := rxFrame_frame_length stale PktType.echo.toByte h58
  have hc := PktType.ofByte_eq_some.mpr (rxFrame_frame_cmd stale PktType.echo.toByte h58)
  obtain ⟨buff, hbytes, hbuff⟩ := Firmware.handle_reply fw hz
  obtain rfl : reply = wireBytes buff := Option.some.inj (hreply.symm.trans hbytes)
  rw [wireBytes_length, hbuff, hc, hn]
  exact if_pos ⟨by omega, by omega⟩

/-- Every byte of the reply but those of the checksum is that of the request. -/
theorem echo_reply_byte {k : Nat} (hk : k < payload.length + 6) (h4 : k ≠ 4) (h5 : k ≠ 5) :
    reply[k]? = (frame PktType.echo.toByte payload)[k]? := by
  have hz := rxFrame_frame_length_ne_zero stale PktType.echo.toByte h58
  have hn := rxFrame_frame_length stale PktType.echo.toByte h58
  have hc := PktType.ofByte_eq_some.mpr (rxFrame_frame_cmd stale PktType.echo.toByte h58)
  have hlen : Firmware.replyLength (some .echo) (payload.length + 6) = payload.length + 6 :=
    if_pos ⟨by omega, by omega⟩
  have hbyte := Firmware.handle_reply_byte fw hz (by rwa [hc, hn, hlen]) h4 h5
  rw [hreply, Option.bind_some, Firmware.dispatch_of_cmd fw hc] at hbyte
  rw [hbyte]
  exact copyPacket_frame fw stale (beginReply fw.outpkt) PktType.echo.toByte h58 hk

theorem echo_reply_header : reply.take 4 = (frame PktType.echo.toByte payload).take 4 := by
  apply List.ext_getElem?
  intro k
  rw [List.getElem?_take, List.getElem?_take]
  by_cases hk : k < 4
  · rw [if_pos hk, if_pos hk, echo_reply_byte hreply h58 (by omega) (by omega) (by omega)]
  · rw [if_neg hk, if_neg hk]

theorem echo_reply_payload : reply.drop 6 = payload := by
  have hlength := echo_reply_length hreply h58
  have hdrop : reply.drop 6 = (frame PktType.echo.toByte payload).drop 6 := by
    apply List.ext_getElem?
    intro k
    rw [List.getElem?_drop, List.getElem?_drop]
    by_cases hk : k < payload.length
    · exact echo_reply_byte hreply h58 (by omega) (by omega) (by omega)
    · rw [List.getElem?_eq_none (by omega), List.getElem?_eq_none (by rw [frame_length]; omega)]
  exact hdrop

end Reply

/-- The request comes back with its own version, length, command and payload. -/
theorem echo_returns_request {d : Device} (hidle : d.inEp = none) {payload : List UInt8}
    (h58 : payload.length ≤ 58) :
    ∃ status rx d', (sendPacket (.make .echo payload)).run (Device.serve fun _ => []) d =
        some ((status, rx), d') ∧
      rx.payload = payload ∧ rx.packet.take 4 = (Packet.make .echo payload).packet.take 4 := by
  obtain ⟨reply, rx, hreply, rfl, hrun⟩ := sendPacket_frame (fun _ => []) hidle
    (show (Packet.make .echo payload).packet = frame PktType.echo.toByte payload from rfl) h58
  have hbytes : bulkRead (fun _ => []) reply = reply := List.append_nil reply
  refine ⟨_, _, _, hrun, ?_, ?_⟩
  · rw [hbytes]
    exact echo_reply_payload hreply h58
  · rw [hbytes]
    exact echo_reply_header hreply h58

/-- The request of `echoTest`, whose payload is "ABCDEF". -/
theorem echo_returns_abcdef :
    ∃ status rx d', (sendPacket (.make .echo [65, 66, 67, 68, 69, 70])).run
        (Device.serve fun _ => []) (.powerUp (fun _ => 0xFF) (fun _ => 0) fun _ _ => 0) =
          some ((status, rx), d') ∧
      rx.payload = [65, 66, 67, 68, 69, 70] ∧ rx.packet.take 4 = [1, 12, 0, 4] :=
  echo_returns_request rfl (by decide)

end UsbSpdt
