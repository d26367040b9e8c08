import UsbSpdt.Firmware.Replies

/-!
# Bytes left over on the stack

`bulkctrl_data_rx_cb` queues its whole stack buffer whatever it has received. A request is handled
independently of what was left there exactly when it brings every byte that its command reads.
-/

namespace UsbSpdt

namespace Firmware

/-- How many bytes on the wire the handling of a command reads, if the length field is `n`. -/
def needed : Option PktType → Nat → Nat
  | some .spdt, _ => 8
  | some .writeee, _ => 9
  | some .readee, _ => 8
  | some .blink, _ => 7
  | some .echo, n => if 7 ≤ n ∧ n < 247 then min n 64 else 4
  | _, _ => 4

theorem four_le_needed (c : Option PktType) (n : Nat) : 4 ≤ needed c n := by
  unfold needed
  split
  · decide
  · decide
  · decide
  · decide
  · split <;> omega
  · decide

theorem runCommand_ops_congr (fw : Firmware) {inp inp' : Buffer} (c : Option PktType) (n : Nat)
    (h : ∀ i ≤ needed c n, inp i = inp' i) :
    (runCommand { fw with inpkt := inp } c).2 = (runCommand { fw with inpkt := inp' } c).2 := by
  match c with
  | none => rfl
  | some t =>
    cases t with
    | spdt =>
      change ∀ i ≤ 8, inp i = inp' i at h
      simp only [runCommand, Buffer.payload, h 7 (by decide), h 8 (by decide)]
    | writeee =>
      change ∀ i ≤ 9, inp i = inp' i at h
      simp only [runCommand, Buffer.payload, Buffer.eepromAddress, h 7 (by decide),
        h 8 (by decide), h 9 (by decide)]
    | blink =>
      change ∀ i ≤ 7, inp i = inp' i at h
      simp only [runCommand, Buffer.payload, h 7 (by decide)]
    | _ => rfl

theorem runCommand_outpkt_congr (fw : Firmware) {inp inp' : Buffer} (c : Option PktType)
    (hlen : inp.length = inp'.length)
    (h : ∀ i, i ≤ needed c inp.length.toNat ∨ 65 ≤ i → inp i = inp' i)
    (hout : fw.outpkt.length = 6) {i : Nat}
    (hi : i ≤ (runCommand { fw with inpkt := inp } c).1.outpkt.length.toNat)
    (h5 : i ≠ 5) (h6 : i ≠ 6) :
    (runCommand { fw with inpkt := inp } c).1.outpkt i =
      (runCommand { fw with inpkt := inp' } c).1.outpkt i := by
  rw [runCommand_length { fw with inpkt := inp } c hout] at hi
  match c with
  | none => rfl
  | some t =>
    cases t with
    | id =>
      change ∀ i, i ≤ 4 ∨ 65 ≤ i → inp i = inp' i at h
      apply Buffer.setWord_congr
      intro _ _
      dsimp only
      split
      · rfl
      · exact copyPacket_congr _ hlen (Or.inl (h i (by omega)))
    | readee =>
      change i ≤ 9 at hi
      change ∀ i, i ≤ 8 ∨ 65 ≤ i → inp i = inp' i at h
      have haddress : inp.eepromAddress = inp'.eepromAddress := by
        simp only [Buffer.eepromAddress, Buffer.payload, h 7 (by decide), h 8 (by decide)]
      simp only [runCommand, haddress]
      apply Buffer.setWord_congr
      intro _ _
      apply Buffer.setByte_congr
      intro h9
      exact copyPacket_congr _ hlen (Or.inl (h i (by omega)))
    | echo =>
      change i ≤ echoLength inp.length.toNat at hi
      change ∀ i, i ≤ (if 7 ≤ inp.length.toNat ∧ inp.length.toNat < 247 then
        min inp.length.toNat 64 else 4) ∨ 65 ≤ i → inp i = inp' i at h
      apply copyPacket_congr _ hlen
      by_cases hlong : 247 ≤ inp.length.toNat
      · exact Or.inr (Or.inr hlong)
      by_cases hshort : inp.length.toNat < i
      · exact Or.inr (Or.inl hshort)
      refine Or.inl (h i ?_)
      split <;> omega
    | _ => rfl

theorem handle_congr (fw : Firmware) {item item' : Item} (hlen : item.length = item'.length)
    (h : ∀ i : Fin 65, i.val ≤ needed (PktType.ofByte item.cmd) item.length.toNat →
      item i = item' i) :
    (fw.handle item).ops = (fw.handle item').ops ∧
      (fw.handle item).reply = (fw.handle item').reply := by
  by_cases hz : item.length = 0
  · rw [handle_silent fw hz, handle_silent fw (hlen ▸ hz)]
    exact ⟨rfl, rfl⟩
  · have hinp : ∀ i, i ≤ needed (PktType.ofByte item.cmd) item.length.toNat ∨ 65 ≤ i →
        (readPacket fw.inpkt item).2 i = (readPacket fw.inpkt item').2 i := by
      intro i hi
      rw [readPacket_apply, readPacket_apply]
      split
      case isTrue h65 => exact h ⟨i, h65⟩ (hi.resolve_right (by omega))
      case isFalse => rfl
    have hcmd : item.cmd = item'.cmd :=
      h 4 (four_le_needed (PktType.ofByte item.cmd) item.length.toNat)
    rw [handle_dispatched fw hz, handle_dispatched fw (hlen ▸ hz)]
    constructor
    · change (runCommand _ (PktType.ofByte item.cmd)).2 =
        (runCommand _ (PktType.ofByte item'.cmd)).2
      rw [← hcmd]
      exact runCommand_ops_congr { fw with outpkt := beginReply fw.outpkt } _ _
        fun i hi => hinp i (Or.inl hi)
    · have hout : (beginReply fw.outpkt).length = 6 := beginReply_length _
      have hreply : (fw.received item).dispatch.1.outpkt.length =
          (fw.received item').dispatch.1.outpkt.length := by
        apply UInt16.toNat_inj.mp
        rw [dispatch_length, dispatch_length]
        change replyLength (PktType.ofByte item.cmd) item.length.toNat =
          replyLength (PktType.ofByte item'.cmd) item'.length.toNat
        rw [hcmd, hlen]
      refine congrArg some (wireBytes_sealPacket_congr hreply fun i _ hi h5 h6 => ?_)
      change (runCommand _ (PktType.ofByte item.cmd)).1.outpkt i =
        (runCommand _ (PktType.ofByte item'.cmd)).1.outpkt i
      rw [← hcmd]
      have hlen' : (readPacket fw.inpkt item).2.length =
          (readPacket fw.inpkt item').2.length := hlen
      exact runCommand_outpkt_congr { fw with outpkt := beginReply fw.outpkt } _ hlen' hinp hout hi
        h5 h6

end Firmware

def effect (fw : Firmware) (stale : Item) (received : List UInt8) :
    List Op × Option (List UInt8) :=
  match bulkctrlDataRxCb stale received with
  | none => ([], none)
  | some item => ((fw.handle item).ops, (fw.handle item).reply)

/-- The request brings its length field and, unless that is zero, its command and every byte that
the command reads. -/
def Complete (received : List UInt8) : Prop :=
  3 ≤ received.length ∧
    (requestLength received ≠ 0 →
      Firmware.needed (requestCmd received) (requestLength received).toNat ≤ received.length)

theorem effect_eq (fw : Firmware) (stale : Item) {received : List UInt8} (h : received ≠ []) :
    effect fw stale received =
      ((fw.handle (rxFrame stale received)).ops, (fw.handle (rxFrame stale received)).reply) := by
  rw [effect, bulkctrlDataRxCb_of_ne_nil stale h]

/-- A complete request leaves nothing to the stack. -/
theorem effect_of_complete (fw : Firmware) (stale stale' : Item) {received : List UInt8}
    (h64 : received.length ≤ 64) (h : Complete received) :
    effect fw stale received = effect fw stale' received := by
  have hnil : received ≠ [] := List.ne_nil_of_length_pos (by have := h.1; omega)
  have hlen := rxFrame_length stale h.1 h64
  have hlen' := rxFrame_length stale' h.1 h64
  rw [effect_eq fw stale hnil, effect_eq fw stale' hnil]
  by_cases hz : requestLength received = 0
  · rw [Firmware.handle_silent fw (hlen.trans hz), Firmware.handle_silent fw (hlen'.trans hz)]
  · have hneed := h.2 hz
    have h4 : 4 ≤ received.length := Nat.le_trans (Firmware.four_le_needed _ _) hneed
    have hagree := Firmware.handle_congr fw (hlen.trans hlen'.symm) (fun i hi => by
      rw [rxFrame_cmd stale h4 h64, hlen] at hi
      by_cases h0 : i.val = 0
      · obtain rfl : i = 0 := Fin.ext h0
        rfl
      · rw [rxFrame_received stale h64 (by omega) (by omega),
          rxFrame_received stale' h64 (by omega) (by omega)])
    rw [hagree.1, hagree.2]

/-! ### Incomplete requests -/

/-- A device whose EEPROM tells its two halves apart. -/
def probe : Firmware := .powerUp (fun i => if i.val < 256 then 0 else 1) fun _ => 0

def zeros : Item := fun _ => 0

def ones : Item := fun _ => 0xFF

theorem reply_ne_of_byte {fw : Firmware} {item item' : Item} (h : item.length ≠ 0)
    (h' : item'.length ≠ 0) (k : Nat) (h4 : k ≠ 4) (h5 : k ≠ 5)
    (hk : k < Firmware.replyLength (PktType.ofByte item.cmd) item.length.toNat)
    (hk' : k < Firmware.replyLength (PktType.ofByte item'.cmd) item'.length.toNat)
    (hne : (fw.received item).dispatch.1.outpkt (1 + k) ≠
      (fw.received item').dispatch.1.outpkt (1 + k)) :
    (fw.handle item).reply ≠ (fw.handle item').reply := by
  intro he
  have hb := congrArg (Option.bind · (·[k]?)) he
  rw [Firmware.handle_reply_byte fw h hk h4 h5, Firmware.handle_reply_byte fw h' hk' h4 h5] at hb
  exact hne (Option.some.inj hb)

theorem dispatch_of_ack (fw : Firmware) (h : PktType.ofByte fw.inpkt.cmd = some .ack) :
    fw.dispatch.1.outpkt 4 = 0 := by
  rw [Firmware.dispatch, h]
  rfl

theorem dispatch_of_unknown (fw : Firmware) (h : PktType.ofByte fw.inpkt.cmd = none) :
    fw.dispatch.1.outpkt 4 = 1 := by
  rw [Firmware.dispatch, h]
  rfl

theorem effect_ne_of_short {received : List UInt8} (h1 : 1 ≤ received.length)
    (h3 : received.length ≤ 3) (hlen : (rxFrame ones received).length ≠ 0) :
    effect probe zeros received ≠ effect probe ones received := by
  have hnil : received ≠ [] := List.ne_nil_of_length_pos h1
  rw [effect_eq probe zeros hnil, effect_eq probe ones hnil]
  intro he
  have hreply := congrArg Prod.snd he
  have hack : PktType.ofByte (rxFrame zeros received).cmd = some .ack := by
    rw [show (rxFrame zeros received).cmd = 0 from rxFrame_stale zeros (by change _ < 4; omega)]
    rfl
  have hnone : PktType.ofByte (rxFrame ones received).cmd = none := by
    rw [show (rxFrame ones received).cmd = 0xFF from rxFrame_stale ones (by change _ < 4; omega)]
    rfl
  by_cases hz : (rxFrame zeros received).length = 0
  · dsimp only at hreply
    rw [Firmware.handle_silent probe hz, Firmware.handle_dispatched probe hlen] at hreply
    exact absurd hreply nofun
  · refine reply_ne_of_byte hz hlen 3 (by decide) (by decide) ?_ ?_ ?_ hreply
    · rw [hack]
      exact (by decide : 3 < 6)
    · rw [hnone]
      exact (by decide : 3 < 6)
    · rw [dispatch_of_ack (probe.received (rxFrame zeros received)) hack,
        dispatch_of_unknown (probe.received (rxFrame ones received)) hnone]
      decide

theorem rxFrame_zeros {received : List UInt8} {i : Fin 65} (hi : received.length < i.val) :
    rxFrame zeros received i = 0 := rxFrame_stale zeros hi

theorem rxFrame_ones {received : List UInt8} {i : Fin 65} (hi : received.length < i.val) :
    rxFrame ones received i = 0xFF := rxFrame_stale ones hi

theorem rxFrame_zeros_ne_ones {received : List UInt8} (i : Fin 65) (hi : received.length < i.val) :
    rxFrame zeros received i ≠ rxFrame ones received i := by
  rw [rxFrame_zeros hi, rxFrame_ones hi]
  decide

theorem probe_read_half (lo : UInt8) :
    probe.eeprom.read (LittleEndian.word lo 0) = 0 ∧
      probe.eeprom.read (LittleEndian.word lo 0xFF) = 1 := by
  have hlo := lo.toNat_lt
  have hFF : (0xFF : UInt8).toNat = 255 := rfl
  have h0 : (0 : UInt8).toNat = 0 := rfl
  have himage (i : Nat) : CyclicMemory.read probe.eeprom.image i = if i % 512 < 256 then 0 else 1 :=
    rfl
  rw [Eeprom.read_eq, Eeprom.read_eq, himage, himage, LittleEndian.word_toNat,
    LittleEndian.word_toNat, hFF, h0, if_pos (by omega), if_neg (by omega)]
  exact ⟨rfl, rfl⟩

theorem echo_copies (fw : Firmware) {item : Item} (hc : PktType.ofByte item.cmd = some .echo)
    (hlong : item.length.toNat < 247) {k : Nat} (hk : k < item.length.toNat) (h65 : 1 + k < 65) :
    (fw.received item).dispatch.1.outpkt (1 + k) = item ⟨1 + k, h65⟩ := by
  have hcopy : (fw.received item).inpkt.length.toNat = item.length.toNat := rfl
  rw [Firmware.dispatch_of_cmd fw hc]
  simp only [Firmware.runCommand, copyPacket, hcopy]
  rw [if_pos (by omega), if_pos (by omega)]
  exact dif_pos h65

section Replies

variable {received : List UInt8}
  (hlen : ∀ stale, (rxFrame stale received).length = requestLength received)
  (hz : requestLength received ≠ 0)

include hlen hz

theorem readee_reply_ne (hc0 : PktType.ofByte (rxFrame zeros received).cmd = some .readee)
    (hc1 : PktType.ofByte (rxFrame ones received).cmd = some .readee)
    (hn : received.length < 8) :
    (probe.handle (rxFrame zeros received)).reply ≠
      (probe.handle (rxFrame ones received)).reply := by
  refine reply_ne_of_byte (hlen zeros ▸ hz) (hlen ones ▸ hz) 8 (by decide) (by decide) ?_ ?_ ?_
  · rw [hc0]
    exact (by decide : 8 < 9)
  · rw [hc1]
    exact (by decide : 8 < 9)
  · rw [Firmware.dispatch_of_cmd probe hc0, Firmware.dispatch_of_cmd probe hc1]
    change probe.eeprom.read (LittleEndian.word _ (rxFrame zeros received 8)) ≠
      probe.eeprom.read (LittleEndian.word _ (rxFrame ones received 8))
    rw [rxFrame_zeros hn, rxFrame_ones hn, (probe_read_half _).1, (probe_read_half _).2]
    decide

/-- The first byte of the echo that was not received shows. -/
theorem echo_reply_ne (hc0 : PktType.ofByte (rxFrame zeros received).cmd = some .echo)
    (hc1 : PktType.ofByte (rxFrame ones received).cmd = some .echo) (h64 : received.length ≤ 64)
    (hn : max received.length 6 < min (requestLength received).toNat 64)
    (hlong : (requestLength received).toNat < 247) :
    (probe.handle (rxFrame zeros received)).reply ≠
      (probe.handle (rxFrame ones received)).reply := by
  have hecho : Firmware.echoLength (requestLength received).toNat =
      (requestLength received).toNat := if_pos ⟨by omega, hlong⟩
  have h65 : 1 + max received.length 6 < 65 := by omega
  have hk : max received.length 6 < (requestLength received).toNat := by omega
  refine reply_ne_of_byte (hlen zeros ▸ hz) (hlen ones ▸ hz) (max received.length 6) (by omega)
    (by omega) ?_ ?_ ?_
  · rw [hc0, hlen, Firmware.replyLength, hecho]
    exact hk
  · rw [hc1, hlen, Firmware.replyLength, hecho]
    exact hk
  · rw [echo_copies probe hc0 (by rw [hlen]; exact hlong) (by rw [hlen]; exact hk) h65,
      echo_copies probe hc1 (by rw [hlen]; exact hlong) (by rw [hlen]; exact hk) h65]
    exact rxFrame_zeros_ne_ones _ (by change received.length < 1 + max received.length 6; omega)

end Replies

/-- A request that lacks a byte its command reads shows what was left on the stack. -/
theorem effect_ne_of_unread {received : List UInt8} (h4 : 4 ≤ received.length)
    (h64 : received.length ≤ 64) (hz : requestLength received ≠ 0)
    (hn : received.length <
      Firmware.needed (requestCmd received) (requestLength received).toNat) :
    effect probe zeros received ≠ effect probe ones received := by
  have hnil : received ≠ [] := List.ne_nil_of_length_pos (by omega)
  have hlen (stale : Item) : (rxFrame stale received).length = requestLength received :=
    rxFrame_length stale (by omega) h64
  rw [effect_eq probe zeros hnil, effect_eq probe ones hnil]
  intro he
  have hops := congrArg Prod.fst he
  have hreply := congrArg Prod.snd he
  dsimp only at hops hreply
  cases hc : requestCmd received with
  | none =>
    rw [hc] at hn
    exact absurd hn (Nat.not_lt.mpr h4)
  | some t =>
    rw [hc] at hn
    have hc0 := (rxFrame_cmd zeros h4 h64).trans hc
    have hc1 := (rxFrame_cmd ones h4 h64).trans hc
    rw [Firmware.handle_dispatched probe (hlen zeros ▸ hz),
      Firmware.handle_dispatched probe (hlen ones ▸ hz),
      Firmware.dispatch_of_cmd probe hc0, Firmware.dispatch_of_cmd probe hc1] at hops
    cases t with
    | spdt =>
      change received.length < 8 at hn
      exact rxFrame_zeros_ne_ones 8 hn (Op.spdtSet.inj (List.head_eq_of_cons_eq hops)).2
    | writeee =>
      change received.length < 9 at hn
      exact rxFrame_zeros_ne_ones 9 hn (Op.eepromWrite.inj (List.head_eq_of_cons_eq hops)).2
    | blink =>
      change received.length < 7 at hn
      change (idBlink (rxFrame zeros received 7) ⟨0, false, true⟩).2 =
        (idBlink (rxFrame ones received 7) ⟨0, false, true⟩).2 at hops
      rw [rxFrame_zeros hn, rxFrame_ones hn] at hops
      exact absurd hops (by decide)
    | readee =>
      change received.length < 8 at hn
      exact readee_reply_ne hlen hz hc0 hc1 hn hreply
    | echo =>
      have hrange : 7 ≤ (requestLength received).toNat ∧ (requestLength received).toNat < 247 := by
        by_contra hout
        rw [Firmware.needed, if_neg hout] at hn
        omega
      rw [Firmware.needed, if_pos hrange] at hn
      exact echo_reply_ne hlen hz hc0 hc1 h64 (by omega) hrange.2 hreply
    | _ => exact absurd hn (Nat.not_lt.mpr h4)

/-- The effect of a USB packet depends only on the bytes received if and only if the request is
complete. -/
theorem effect_determined_iff (received : List UInt8) (h1 : 1 ≤ received.length)
    (h64 : received.length ≤ 64) :
    (∀ fw stale stale', effect fw stale received = effect fw stale' received) ↔
      Complete received := by
  constructor
  · intro h
    have hprobe := h probe zeros ones
    by_cases h3 : received.length ≤ 3
    · have hlen : (rxFrame ones received).length = 0 := by
        by_contra hlen
        exact effect_ne_of_short h1 h3 hlen hprobe
      have hthree : 3 ≤ received.length := by
        by_contra hlt
        have hhigh : rxFrame ones received 3 = 0xFF := rxFrame_ones (by change _ < 3; omega)
        have hzero := ((LittleEndian.word_eq_zero_iff _ _).mp hlen).2
        rw [hhigh] at hzero
        exact absurd hzero (by decide)
      rw [rxFrame_length ones hthree h64] at hlen
      exact ⟨hthree, fun hz => absurd hlen hz⟩
    · refine ⟨by omega, fun hz => ?_⟩
      by_contra hn
      exact effect_ne_of_unread (by omega) h64 hz (by omega) hprobe
  · exact fun h fw stale stale' => effect_of_complete fw stale stale' h64 h

theorem effect_determined_eraseall :
    1 ≤ [1, 6, 0, 16, 0, 0].length ∧ [1, 6, 0, 16, 0, 0].length ≤ 64 ∧
      ∀ fw stale stale',
        effect fw stale [1, 6, 0, 16, 0, 0] = effect fw stale' [1, 6, 0, 16, 0, 0] :=
  ⟨by decide, by decide, (effect_determined_iff [1, 6, 0, 16, 0, 0] (by decide) (by decide)).mpr
    ⟨by decide, fun _ => by decide⟩⟩

/-- A WRITEEE that ends after the first address byte stores what was left on the stack. -/
theorem short_write_leaks :
    ¬ ∀ fw stale stale',
      effect fw stale [1, 9, 0, 14, 0, 0, 5] = effect fw stale' [1, 9, 0, 14, 0, 0, 5] := by
  intro h
  exact effect_ne_of_unread (by decide) (by decide) (by decide) (by decide) (h probe zeros ones)

end UsbSpdt
