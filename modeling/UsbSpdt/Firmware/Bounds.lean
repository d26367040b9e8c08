import UsbSpdt.Firmware.Replies
import UsbSpdt.Library.Bounded

/-!
# The packet buffers and their size

The instrument task over `inbufBytes` and `outbufBytes` as the arrays of 256 bytes that they are.
Every byte is read and written in its place, and no place beyond the end can be.
-/

namespace UsbSpdt

inductive PacketBuffer where
  | inbuf | outbuf
  deriving DecidableEq, Repr

namespace PacketBuffer

def size : Nat := 256

/-- A routine that works on the two buffers. -/
abbrev Routine := Bounded PacketBuffer UInt8

def load (b : PacketBuffer) (i : Nat) : Routine UInt8 := Bounded.load size b i

def store (b : PacketBuffer) (i : Nat) (v : UInt8) : Routine Unit := Bounded.store size b i v

def loadWord (b : PacketBuffer) (i : Nat) : Routine UInt16 := do
  let lo ← load b i
  let hi ← load b (i + 1)
  pure (LittleEndian.word lo hi)

def storeWord (b : PacketBuffer) (i : Nat) (w : UInt16) : Routine Unit := do
  store b i (LittleEndian.low w)
  store b (i + 1) (LittleEndian.high w)

/-- `readPacket`; the queue's items have the size of a `cmd_packet_t`. -/
def readPacket (item : Item) : Routine UInt32 := do
  Bounded.stores size inbuf 0 (List.ofFn item)
  let length ← loadWord inbuf 2
  pure length.toUInt32

def copyPacket : Routine Unit := do
  let length ← loadWord inbuf 2
  let sz := length.toNat + 1
  if 0 < sz ∧ sz < 248 then do
    let bytes ← Bounded.loads size inbuf 0 sz
    Bounded.stores size outbuf 0 bytes
  else pure ()

def getInstrumentID (fw : Firmware) : Routine Unit := do
  Bounded.stores size outbuf 7 (idResponse fw)
  storeWord outbuf 2 (UInt16.ofNat (usbPktMinHeaderSz + 16))

/-- The checksum loop, the checksum and the transfer. -/
def writePacket : Routine (List UInt8) := do
  storeWord outbuf 5 0
  let length ← loadWord outbuf 2
  let summed ← Bounded.loads size outbuf 1 (length.toNat - 2)
  let sums := summed.foldl fletch ⟨0, 0⟩
  storeWord outbuf 5 (sums.checksum2 * 256 + sums.checksum1)
  let length ← loadWord outbuf 2
  Bounded.loads size outbuf 1 length.toNat

/-- The dispatcher's switch. -/
def runCommand (fw : Firmware) : Option PktType → Routine (Firmware × List Op)
  | some .ack => pure (fw, [])
  | some .nak => pure (fw, [])
  | some .id => do
    copyPacket
    getInstrumentID fw
    pure (fw, [])
  | some .echo => do
    copyPacket
    pure (fw, [])
  | some .spdt => do
    let swSel ← load inbuf 7
    let swState ← load inbuf 8
    pure ({ fw with board := ((spdtSet swSel swState).timed Board.elapse fw.board).2 },
      [.spdtSet swSel swState])
  | some .writeee => do
    let address ← loadWord inbuf 7
    let data ← load inbuf 9
    pure ({ fw with eeprom := fw.eeprom.write address data }, [.eepromWrite address data])
  | some .readee => do
    copyPacket
    let address ← loadWord inbuf 7
    store outbuf 9 (fw.eeprom.read address)
    storeWord outbuf 2 (UInt16.ofNat (usbPktMinHeaderSz + 3))
    pure (fw, [])
  | some .eraseall => pure ({ fw with eeprom := fw.eeprom.eraseAll }, [.eepromEraseAll])
  | some .blink => do
    let on ← load inbuf 7
    pure ({ fw with blinker := (idBlink on fw.blinker).1 }, (idBlink on fw.blinker).2)
  | _ => do
    -- the message names the command
    let _ ← load inbuf 4
    store outbuf 4 PktType.nak.toByte
    pure (fw, [])

/-- One round of the task's loop. -/
def handle (fw : Firmware) (item : Item) : Routine (Firmware × List Op × Option (List UInt8)) := do
  let rval ← readPacket item
  if rval = 0 then pure (fw, [], none)
  else do
    store outbuf 1 1
    store outbuf 4 PktType.ack.toByte
    storeWord outbuf 2 (UInt16.ofNat usbPktMinHeaderSz)
    let cmd ← load inbuf 4
    let (fw, ops) ← runCommand fw (PktType.ofByte cmd)
    let reply ← writePacket
    pure (fw, ops, some reply)

/-- The two buffers in memory. -/
def memory (inBytes outBytes : Buffer) : Stores PacketBuffer UInt8
  | inbuf => inBytes
  | outbuf => outBytes

/-- A round whose buffers are those of `fw` at the start; none if an access is out of bounds. -/
def round (fw : Firmware) (item : Item) : Option Firmware.Round :=
  (handle fw item (memory fw.inpkt fw.outpkt)).map fun ((fw', ops, reply), m) =>
    ⟨{ fw' with inpkt := m inbuf, outpkt := m outbuf }, ops, reply⟩

/-! ### The routines over the two arrays -/

open Bounded (Runs)

theorem memory_setIn (a b c : Buffer) : Function.update (memory a b) inbuf c = memory c b := by
  funext k
  cases k <;> rfl

theorem memory_setOut (a b c : Buffer) : Function.update (memory a b) outbuf c = memory a c := by
  funext k
  cases k <;> rfl

section Runs

variable {a b : Buffer}

theorem runs_load (k : PacketBuffer) {i : Nat} (h : i < 256) :
    Runs (load k i) (memory a b) (memory a b k i) (memory a b) :=
  Bounded.runs_load size k h _

theorem runs_store {i : Nat} (h : i < 256) (v : UInt8) :
    Runs (store outbuf i v) (memory a b) () (memory a (b.setByte i v)) := by
  have hrun := Bounded.runs_store size outbuf h v (memory a b)
  rwa [memory_setOut] at hrun

theorem runs_loadWord (k : PacketBuffer) {i : Nat} (h : i + 1 < 256) :
    Runs (loadWord k i) (memory a b)
      (LittleEndian.word (memory a b k i) (memory a b k (i + 1))) (memory a b) :=
  (runs_load k (by omega)).bind ((runs_load k h).bind (Bounded.runs_pure _ _))

theorem runs_length (k : PacketBuffer) :
    Runs (loadWord k 2) (memory a b) (Buffer.length (memory a b k)) (memory a b) :=
  runs_loadWord (i := 2) k (by decide)

theorem runs_storeWord {i : Nat} (h : i + 1 < 256) (w : UInt16) :
    Runs (storeWord outbuf i w) (memory a b) () (memory a (b.setWord i w)) :=
  (runs_store (by omega) _).bind (runs_store h _)

theorem runs_readPacket (item : Item) :
    Runs (readPacket item) (memory a b) (UsbSpdt.readPacket a item).1
      (memory (UsbSpdt.readPacket a item).2 b) := by
  have hstores := Bounded.runs_stores size inbuf 0 (List.ofFn item)
    (by rw [List.length_ofFn]; decide) (memory a b)
  have hread : Bounded.overwritten a 0 (List.ofFn item) = (UsbSpdt.readPacket a item).2 := by
    funext i
    simp only [Bounded.overwritten, List.length_ofFn, List.getElem_ofFn, Nat.zero_le, Nat.zero_add,
      true_and, Nat.sub_zero, readPacket_apply]
  rw [memory_setIn] at hstores
  change Runs _ _ _ (memory (Bounded.overwritten a 0 (List.ofFn item)) b) at hstores
  rw [hread] at hstores
  exact hstores.bind ((runs_loadWord inbuf (by decide)).bind (Bounded.runs_pure _ _))

theorem runs_copyPacket :
    Runs copyPacket (memory a b) () (memory a (UsbSpdt.copyPacket a b)) := by
  refine (runs_length inbuf).bind ?_
  change Runs (if 0 < a.length.toNat + 1 ∧ a.length.toNat + 1 < 248 then _ else _) _ _ _
  by_cases h : 0 < a.length.toNat + 1 ∧ a.length.toNat + 1 < 248
  · have hcopied : Bounded.overwritten b 0
        ((List.range (a.length.toNat + 1)).map fun j => a (0 + j)) = UsbSpdt.copyPacket a b := by
      funext i
      simp [Bounded.overwritten, UsbSpdt.copyPacket, h]
    have hstores := Bounded.runs_stores size outbuf 0
      ((List.range (a.length.toNat + 1)).map fun j => a (0 + j))
      (by rw [List.length_map, List.length_range, size]; omega) (memory a b)
    rw [memory_setOut] at hstores
    change Runs _ _ _ (memory a (Bounded.overwritten b 0 _)) at hstores
    rw [hcopied] at hstores
    have hloads := Bounded.runs_loads size inbuf 0 (a.length.toNat + 1) (by rw [size]; omega)
      (memory a b)
    rw [if_pos h]
    exact hloads.bind hstores
  · rw [if_neg h, UsbSpdt.copyPacket, if_neg h]
    exact Bounded.runs_pure _ _

theorem idResponse_length (fw : Firmware) : (idResponse fw).length = 58 := by
  simp [idResponse, szBuildSha1]

theorem runs_getInstrumentID (fw : Firmware) :
    Runs (getInstrumentID fw) (memory a b) () (memory a (UsbSpdt.getInstrumentID fw b)) := by
  have hstores := Bounded.runs_stores size outbuf 7 (idResponse fw)
    (by rw [idResponse_length]; decide) (memory a b)
  have hfilled : Bounded.overwritten b 7 (idResponse fw) =
      fun i => if 7 ≤ i ∧ i < 65 then (idResponse fw).getD (i - 7) 0 else b i := by
    funext i
    simp only [Bounded.overwritten, idResponse_length]
    by_cases h : 7 ≤ i ∧ i < 65
    · rw [dif_pos h, if_pos h, List.getD_eq_getElem?_getD, List.getElem?_eq_getElem,
        Option.getD_some]
    · rw [dif_neg h, if_neg h]
  rw [memory_setOut] at hstores
  change Runs _ _ _ (memory a (Bounded.overwritten b 7 _)) at hstores
  rw [hfilled] at hstores
  exact hstores.bind (runs_storeWord (by decide) _)

/-- The only routine that takes its bound from the buffer itself. -/
theorem runs_writePacket (h : b.length.toNat < 256) :
    Runs writePacket (memory a b) (wireBytes (sealPacket b)) (memory a (sealPacket b)) := by
  have hzero : (b.setChecksum 0).length = b.length := setChecksum_length b 0
  have hsealed : (sealPacket b).length = b.length := sealPacket_length b
  refine (runs_storeWord (by decide) 0).bind ((runs_length outbuf).bind ?_)
  have hsummed := Bounded.runs_loads size outbuf 1 ((b.setChecksum 0).length.toNat - 2)
    (by rw [hzero, size]; omega) (memory a (b.setChecksum 0))
  refine hsummed.bind ((runs_storeWord (by decide) _).bind ((runs_length outbuf).bind ?_))
  exact Bounded.runs_loads size outbuf 1 (sealPacket b).length.toNat
    (by rw [hsealed, size]; omega) (memory a (sealPacket b))

/-- The firmware with these buffers. -/
def withBuffers (fw : Firmware) (a b : Buffer) : Firmware := { fw with inpkt := a, outpkt := b }

theorem runs_runCommand (fw : Firmware) (c : Option PktType) :
    Runs (runCommand fw c) (memory a b)
      (withBuffers ((withBuffers fw a b).runCommand c).1 fw.inpkt fw.outpkt,
        ((withBuffers fw a b).runCommand c).2)
      (memory a ((withBuffers fw a b).runCommand c).1.outpkt) := by
  match c with
  | none => exact (runs_load inbuf (by decide)).bind ((runs_store (by decide) _).bind rfl)
  | some t =>
    cases t with
    | id => exact runs_copyPacket.bind ((runs_getInstrumentID fw).bind (Bounded.runs_pure _ _))
    | echo => exact runs_copyPacket.bind (Bounded.runs_pure _ _)
    | spdt =>
      exact (runs_load inbuf (by decide)).bind
        ((runs_load inbuf (by decide)).bind (Bounded.runs_pure _ _))
    | writeee =>
      exact (runs_loadWord inbuf (by decide)).bind
        ((runs_load inbuf (by decide)).bind (Bounded.runs_pure _ _))
    | readee =>
      exact runs_copyPacket.bind ((runs_loadWord inbuf (by decide)).bind
        ((runs_store (by decide) _).bind ((runs_storeWord (by decide) _).bind
          (Bounded.runs_pure _ _))))
    | blink => exact (runs_load inbuf (by decide)).bind (Bounded.runs_pure _ _)
    | ack => exact Bounded.runs_pure _ _
    | nak => exact Bounded.runs_pure _ _
    | eraseall => exact Bounded.runs_pure _ _
    | _ =>
      exact (runs_load inbuf (by decide)).bind
        ((runs_store (by decide) _).bind (Bounded.runs_pure _ _))

end Runs

/-- The request stays as it was received. -/
theorem runCommand_inpkt (fw : Firmware) (c : Option PktType) :
    (fw.runCommand c).1.inpkt = fw.inpkt := by
  match c with
  | none => rfl
  | some t => cases t <;> rfl

/-- Whatever the length field of a request, what is sent fits the buffer. -/
theorem replyLength_le (c : Option PktType) (n : Nat) : Firmware.replyLength c n ≤ 246 := by
  unfold Firmware.replyLength Firmware.echoLength
  split
  · decide
  · decide
  · split <;> omega
  · decide

theorem runs_handle (fw : Firmware) (item : Item) :
    Runs (handle fw item) (memory fw.inpkt fw.outpkt)
      (withBuffers (fw.handle item).firmware fw.inpkt fw.outpkt, (fw.handle item).ops,
        (fw.handle item).reply)
      (memory (fw.handle item).firmware.inpkt (fw.handle item).firmware.outpkt) := by
  refine (runs_readPacket item).bind ?_
  by_cases hz : (UsbSpdt.readPacket fw.inpkt item).1 = 0
  · have hhandle : fw.handle item =
        ⟨{ fw with inpkt := (UsbSpdt.readPacket fw.inpkt item).2 }, [], none⟩ := by
      simp only [Firmware.handle, hz, if_true]
    rw [if_pos hz, hhandle]
    exact Bounded.runs_pure _ _
  · have hitem : item.length ≠ 0 := fun h => hz ((readPacket_eq_zero _ _).mpr h)
    have hlength : (fw.received item).dispatch.1.outpkt.length.toNat < 256 := by
      have hle := replyLength_le (PktType.ofByte (fw.received item).inpkt.cmd)
        (fw.received item).inpkt.length.toNat
      rw [Firmware.dispatch_length]
      omega
    have hkept : (UsbSpdt.readPacket fw.inpkt item).2 = (fw.received item).dispatch.1.inpkt :=
      (runCommand_inpkt { fw.received item with outpkt := beginReply fw.outpkt } _).symm
    rw [if_neg hz, Firmware.handle_dispatched fw hitem]
    refine (runs_store (by decide) 1).bind ((runs_store (by decide) _).bind
      ((runs_storeWord (by decide) _).bind ((runs_load inbuf (by decide)).bind ?_)))
    refine (runs_runCommand fw _).bind ?_
    exact (runs_writePacket hlength).bind (congrArg (fun bytes => some (_, memory bytes _)) hkept)

/-- Every round stays inside the two arrays, and does what it does on unbounded memory. -/
theorem round_inBounds (fw : Firmware) (item : Item) : round fw item = some (fw.handle item) := by
  have hrun : handle fw item (memory fw.inpkt fw.outpkt) = _ := runs_handle fw item
  rw [round, hrun]
  rfl

end PacketBuffer

end UsbSpdt
