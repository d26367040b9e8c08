import Mathlib.Logic.Function.Basic
import UsbSpdt.Library.LittleEndian

/-!
# Packets of the instrument protocol

`cmd_packet_t` of `usbcmdio.h` and the packet routines of `instr_task.c`, over byte buffers. A
packet in memory starts with a flow byte that the wire does not have, so byte `k` of a packet on
the wire is byte `k + 1` of the buffer.
-/

namespace UsbSpdt

inductive PktType where
  | ack | nak | reset | id | echo | ssn | diag | sp8t | auxout | auxin | att | light | notify
  | readee | writeee | spdt | eraseall | blink
  deriving DecidableEq, Repr

namespace PktType

def toByte : PktType → UInt8
  | ack => 0 | nak => 1 | reset => 2 | id => 3 | echo => 4 | ssn => 5 | diag => 6 | sp8t => 7
  | auxout => 8 | auxin => 9 | att => 10 | light => 11 | notify => 12 | readee => 13
  | writeee => 14 | spdt => 15 | eraseall => 16 | blink => 17

def ofByte (b : UInt8) : Option PktType :=
  [ack, nak, reset, id, echo, ssn, diag, sp8t, auxout, auxin, att, light, notify, readee, writeee,
    spdt, eraseall, blink].find? fun t => t.toByte = b

theorem ofByte_eq_some {b : UInt8} {t : PktType} : ofByte b = some t ↔ b = t.toByte := by
  constructor
  · intro h
    have := List.find?_some h
    exact (of_decide_eq_true this).symm
  · intro h
    subst h
    cases t <;> decide

end PktType

/-- The memory from the start of a packet buffer on. -/
abbrev Buffer := Nat → UInt8

def usbPktMinHeaderSz : Nat := 6

namespace Buffer

def setByte (b : Buffer) (i : Nat) (v : UInt8) : Buffer := Function.update b i v

def setWord (b : Buffer) (i : Nat) (w : UInt16) : Buffer :=
  (b.setByte i (LittleEndian.low w)).setByte (i + 1) (LittleEndian.high w)

def length (b : Buffer) : UInt16 := LittleEndian.word (b 2) (b 3)

def cmd (b : Buffer) : UInt8 := b 4

def payload (b : Buffer) (k : Nat) : UInt8 := b (7 + k)

/-- `payload.pl_eeprom.address`. -/
def eepromAddress (b : Buffer) : UInt16 := LittleEndian.word (b.payload 0) (b.payload 1)

def setVersion (b : Buffer) (v : UInt8) : Buffer := b.setByte 1 v

def setLength (b : Buffer) (n : UInt16) : Buffer := b.setWord 2 n

def setCmd (b : Buffer) (c : UInt8) : Buffer := b.setByte 4 c

def setChecksum (b : Buffer) (sum : UInt16) : Buffer := b.setWord 5 sum

def slice (b : Buffer) (start n : Nat) : List UInt8 := (List.range n).map fun k => b (start + k)

theorem setByte_apply (b : Buffer) (i j : Nat) (v : UInt8) :
    b.setByte i v j = if j = i then v else b j := Function.update_apply ..

theorem setWord_apply (b : Buffer) (i j : Nat) (w : UInt16) :
    b.setWord i w j =
      if j = i + 1 then LittleEndian.high w else if j = i then LittleEndian.low w else b j := by
  simp only [setWord, setByte_apply]

theorem setByte_congr {b c : Buffer} (i : Nat) (v : UInt8) {j : Nat}
    (h : j ≠ i → b j = c j) : b.setByte i v j = c.setByte i v j := by
  simp only [setByte_apply]
  split
  case isTrue => rfl
  case isFalse hi => exact h hi

theorem setWord_congr {b c : Buffer} (i : Nat) (w : UInt16) {j : Nat}
    (h : j ≠ i → j ≠ i + 1 → b j = c j) : b.setWord i w j = c.setWord i w j := by
  apply setByte_congr
  intro h1
  apply setByte_congr
  intro hi
  exact h hi h1

theorem setChecksum_apply (b : Buffer) (sum : UInt16) (j : Nat) :
    b.setChecksum sum j =
      if j = 6 then LittleEndian.high sum else if j = 5 then LittleEndian.low sum else b j :=
  setWord_apply ..

@[simp] theorem slice_length (b : Buffer) (start n : Nat) : (b.slice start n).length = n := by
  simp only [slice, List.length_map, List.length_range]

theorem slice_getElem? (b : Buffer) (start n k : Nat) :
    (b.slice start n)[k]? = if k < n then some (b (start + k)) else none := by
  by_cases h : k < n
  · simp [slice, h]
  · simp [slice, h]

theorem slice_congr {b c : Buffer} {start n : Nat} (h : ∀ k < n, b (start + k) = c (start + k)) :
    b.slice start n = c.slice start n := by
  apply List.map_congr_left
  intro k hk
  exact h k (List.mem_range.mp hk)

end Buffer

/-- `copyPacket`: it copies nothing when the size reaches the limit. -/
def copyPacket (inBuf outBuf : Buffer) : Buffer :=
  let sz := inBuf.length.toNat + 1
  if 0 < sz ∧ sz < 248 then fun i => if i < sz then inBuf i else outBuf i else outBuf

structure FletcherChecksum where
  checksum1 : UInt16
  checksum2 : UInt16

def fletch (sums : FletcherChecksum) (byte : UInt8) : FletcherChecksum :=
  let c1 := sums.checksum1 + byte.toUInt16
  let c1 := if c1 > 254 then c1 - 255 else c1
  let c2 := sums.checksum2 + c1
  let c2 := if c2 > 254 then c2 - 255 else c2
  ⟨c1, c2⟩

/-- The checksum that `writePacket` computes over all but the last byte of the packet. -/
def packetChecksum (buff : Buffer) : UInt16 :=
  let sums := (buff.slice 1 (buff.length.toNat - 2)).foldl fletch ⟨0, 0⟩
  sums.checksum2 * 256 + sums.checksum1

/-- The buffer as `writePacket` sends it. -/
def sealPacket (buff : Buffer) : Buffer :=
  (buff.setChecksum 0).setChecksum (packetChecksum (buff.setChecksum 0))

/-- The bytes that `writePacket` hands to the endpoint; the flow byte is skipped. -/
def wireBytes (buff : Buffer) : List UInt8 := buff.slice 1 buff.length.toNat

/-! ### Receiving -/

def flowUSB : UInt8 := 0

/-- An element of `CTRLinQ`, of the size of `cmd_packet_t`. -/
abbrev Item := Fin 65 → UInt8

namespace Item

def length (item : Item) : UInt16 := LittleEndian.word (item 2) (item 3)

def cmd (item : Item) : UInt8 := item 4

end Item

/-- What `bulkctrl_data_rx_cb` leaves in its stack buffer when it had held `stale`. -/
def rxFrame (stale : Item) (received : List UInt8) : Item :=
  fun i => if i = 0 then flowUSB else (received.take 64).getD (i.val - 1) (stale i)

def bulkctrlDataRxCb (stale : Item) (received : List UInt8) : Option Item :=
  if (received.take 64).length ≠ 0 then some (rxFrame stale received) else none

theorem rxFrame_received (stale : Item) {received : List UInt8} (h64 : received.length ≤ 64)
    {i : Fin 65} (h1 : 1 ≤ i.val) (hi : i.val ≤ received.length) :
    rxFrame stale received i = received.getD (i.val - 1) 0 := by
  have hne : i ≠ 0 := fun he => by simp [he] at h1
  have hlt : i.val - 1 < received.length := by omega
  simp [rxFrame, hne, List.take_of_length_le h64, hlt]

theorem rxFrame_stale (stale : Item) {received : List UInt8} {i : Fin 65}
    (hi : received.length < i.val) : rxFrame stale received i = stale i := by
  have hne : i ≠ 0 := fun he => by simp [he] at hi
  have hle : (received.take 64).length ≤ i.val - 1 := by
    rw [List.length_take]
    omega
  rw [rxFrame, if_neg hne, List.getD_eq_getElem?_getD, List.getElem?_eq_none hle, Option.getD_none]

/-- The length field that the first bytes received carry, and the command. -/
def requestLength (received : List UInt8) : UInt16 :=
  LittleEndian.word (received.getD 1 0) (received.getD 2 0)

def requestCmd (received : List UInt8) : Option PktType := PktType.ofByte (received.getD 3 0)

theorem rxFrame_length (stale : Item) {received : List UInt8} (h3 : 3 ≤ received.length)
    (h64 : received.length ≤ 64) : (rxFrame stale received).length = requestLength received := by
  rw [Item.length, rxFrame_received stale h64 (by decide) (by change 2 ≤ _; omega),
    rxFrame_received stale h64 (by decide) (by change 3 ≤ _; omega)]
  rfl

theorem rxFrame_cmd (stale : Item) {received : List UInt8} (h4 : 4 ≤ received.length)
    (h64 : received.length ≤ 64) :
    PktType.ofByte (rxFrame stale received).cmd = requestCmd received := by
  rw [Item.cmd, rxFrame_received stale h64 (by decide) (by change 4 ≤ _; omega)]
  rfl

theorem bulkctrlDataRxCb_of_ne_nil (stale : Item) {received : List UInt8} (h : received ≠ []) :
    bulkctrlDataRxCb stale received = some (rxFrame stale received) := by
  simp [bulkctrlDataRxCb, h]

/-- `readPacket`, once the queue has an item. Its `uint_fast8_t` result is 32 bits wide here. -/
def readPacket (buffer : Buffer) (item : Item) : UInt32 × Buffer :=
  let buffer : Buffer := fun i => if h : i < 65 then item ⟨i, h⟩ else buffer i
  (buffer.length.toUInt32, buffer)

theorem readPacket_apply (buffer : Buffer) (item : Item) (i : Nat) :
    (readPacket buffer item).2 i = if h : i < 65 then item ⟨i, h⟩ else buffer i := rfl

theorem readPacket_eq_zero (buffer : Buffer) (item : Item) :
    (readPacket buffer item).1 = 0 ↔ item.length = 0 := by
  change item.length.toUInt32 = 0 ↔ _
  rw [← UInt32.toNat_inj, ← UInt16.toNat_inj, UInt16.toNat_toUInt32]
  rfl

/-! ### What the packet routines do to a packet -/

@[simp] theorem setLength_length (b : Buffer) (n : UInt16) : (b.setLength n).length = n := by
  simp [Buffer.setLength, Buffer.length, Buffer.setWord_apply]

theorem setWord_length_ne (b : Buffer) (i : Nat) (w : UInt16) (h : 4 ≤ i) :
    (b.setWord i w).length = b.length := by
  have h2 : 2 ≠ i ∧ 2 ≠ i + 1 := by omega
  have h3 : 3 ≠ i ∧ 3 ≠ i + 1 := by omega
  simp [Buffer.length, Buffer.setWord_apply, h2, h3]

@[simp] theorem setChecksum_length (b : Buffer) (sum : UInt16) :
    (b.setChecksum sum).length = b.length := setWord_length_ne b 5 sum (by decide)

@[simp] theorem setCmd_length (b : Buffer) (c : UInt8) : (b.setCmd c).length = b.length := rfl

@[simp] theorem sealPacket_length (b : Buffer) : (sealPacket b).length = b.length := by
  simp [sealPacket]

theorem sealPacket_apply (b : Buffer) {i : Nat} (h5 : i ≠ 5) (h6 : i ≠ 6) :
    sealPacket b i = b i := by
  simp [sealPacket, Buffer.setChecksum_apply, h5, h6]

theorem wireBytes_length (buff : Buffer) : (wireBytes buff).length = buff.length.toNat :=
  Buffer.slice_length ..

theorem wireBytes_getElem? (buff : Buffer) (k : Nat) :
    (wireBytes buff)[k]? = if k < buff.length.toNat then some (buff (1 + k)) else none :=
  Buffer.slice_getElem? ..

theorem wireBytes_sealPacket_congr {b c : Buffer} (hlen : b.length = c.length)
    (h : ∀ i, 1 ≤ i → i ≤ b.length.toNat → i ≠ 5 → i ≠ 6 → b i = c i) :
    wireBytes (sealPacket b) = wireBytes (sealPacket c) := by
  have hzero : ∀ k < b.length.toNat, b.setChecksum 0 (1 + k) = c.setChecksum 0 (1 + k) := by
    intro k hk
    apply Buffer.setWord_congr
    intro h5 h6
    exact h (1 + k) (by omega) (by omega) h5 h6
  have hsum : packetChecksum (b.setChecksum 0) = packetChecksum (c.setChecksum 0) := by
    rw [packetChecksum, packetChecksum, setChecksum_length, setChecksum_length, ← hlen,
      Buffer.slice_congr fun k hk => hzero k (by omega)]
  rw [wireBytes, wireBytes, sealPacket_length, sealPacket_length, ← hlen]
  apply Buffer.slice_congr
  intro k hk
  rw [sealPacket, sealPacket, hsum]
  apply Buffer.setWord_congr
  intro _ _
  exact hzero k hk

theorem copyPacket_congr {inBuf inBuf' : Buffer} (outBuf : Buffer) {i : Nat}
    (hlen : inBuf.length = inBuf'.length)
    (h : inBuf i = inBuf' i ∨ inBuf.length.toNat < i ∨ 247 ≤ inBuf.length.toNat) :
    copyPacket inBuf outBuf i = copyPacket inBuf' outBuf i := by
  simp only [copyPacket, ← hlen]
  split
  case isTrue hc =>
    dsimp only
    split
    · rcases h with h | h | h
      · exact h
      · omega
      · omega
    · rfl
  case isFalse => rfl

theorem copyPacket_length (inBuf outBuf : Buffer) (hout : outBuf.length = 6) :
    (copyPacket inBuf outBuf).length.toNat =
      if 2 ≤ inBuf.length.toNat ∧ inBuf.length.toNat < 247 then inBuf.length.toNat else 6 := by
  have hin : inBuf.length.toNat = (inBuf 2).toNat + (inBuf 3).toNat * 256 :=
    LittleEndian.word_toNat _ _
  have hout6 : (outBuf 2).toNat + (outBuf 3).toNat * 256 = 6 := by
    rw [← LittleEndian.word_toNat]
    exact congrArg UInt16.toNat hout
  by_cases hcopied : inBuf.length.toNat + 1 < 248
  · have hcopy : copyPacket inBuf outBuf =
        fun i => if i < inBuf.length.toNat + 1 then inBuf i else outBuf i := by
      simp [copyPacket, hcopied]
    have hcopied' : inBuf.length.toNat < 247 := by omega
    rw [hcopy, Buffer.length, LittleEndian.word_toNat]
    by_cases h2 : 2 < inBuf.length.toNat + 1
    · by_cases h3 : 3 < inBuf.length.toNat + 1
      · rw [if_pos h2, if_pos h3, if_pos ⟨by omega, hcopied'⟩, hin]
      · rw [if_pos h2, if_neg h3, if_pos ⟨by omega, hcopied'⟩]
        omega
    · rw [if_neg h2, if_neg (by omega), if_neg (by omega)]
      omega
  · have hcopy : copyPacket inBuf outBuf = outBuf := by simp [copyPacket, hcopied]
    rw [hcopy, hout, if_neg (by omega)]
    rfl

end UsbSpdt
