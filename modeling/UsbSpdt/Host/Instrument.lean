import UsbSpdt.Boot.PowerUp
import UsbSpdt.Host.Calls
import UsbSpdt.Host.Registers

/-!
# The instrument

A dual SPDT controller behind an idle link, with its latching relays and the host that calls it.
Through any calls, idle times and power cycles it is an instrument of two relays, their supply and a
memory, on which every call does one thing.
-/

namespace UsbSpdt

open AttenSwitch CyclicMemory

/-! ### What the calls are for -/

def AttenSwitch.SpdtSel.switch : SpdtSel → Switch
  | sw1 => .s1
  | sw2 => .s2

def AttenSwitch.SpdtSetting.connector : SpdtSetting → Connector
  | j1sel => .j1
  | j2sel => .j2

/-- What happens to a controller. The time that a call takes beside the switches counts as idle.
`stale` is what lies on the stack of its USB callback from then on. -/
inductive HostEvent where
  | call (c : Call)
  | idle (ticks : Nat)
  | powerCycle (stale : Nat → Item)

structure Instrument where
  relays : Relays
  supply : Supply
  image : Image
  polarity : Wiring
  productID : UInt16
  buildSha1 : Nat → UInt8

namespace Instrument

def info (t : Instrument) (productID : ProductId) : ProdInfo :=
  ⟨productID, 1, 1, 0, (fwRevBuild t.buildSha1).toNat, bldSha t.buildSha1⟩

def put (t : Instrument) (addr : Nat) (val : List UInt8) : Instrument :=
  { t with image := store t.image addr val }

/-- A call moves a relay, or acts on the memory, or is refused. `identify` dies of an unknown
product. -/
def call (w : Wiring) (t : Instrument) : Call → Option (Answer × Instrument)
  | .sp8t _ | .atten _ | .stacklightNotify .. => some (.status .fail, t)
  | .spdt sw set => some (.status .success, { t with
      relays := t.relays.command w t.polarity t.supply sw.switch set.connector
      supply := t.supply.selected })
  | .ee .eraseAllEE => some (.status .success, { t with image := fun _ => 0xFF })
  | .ee call => some (.bytes (call.onArray t.image).1, { t with image := (call.onArray t.image).2 })
  | .identify =>
    (ProductId.fromOrdinal t.productID.toUInt8).map fun productID => (.info (t.info productID), t)
  | .blink _ => some (.status .success, t)
  | .eeMagic none => some (.number ((fetch t.image 0 1).getD 0 0).toNat, t)
  | .eeMagic (some val) => some (.number (val &&& 0xff), t.put 0 (packC (val &&& 0xff)))
  | .eeVidPid _ none => some (.pair (unpackVV (fetch t.image 1 4)), t)
  | .eeVidPid vid (some pid) =>
    let vid := orDefault vid validVid &&& 0xffff
    let pid := pid &&& 0xffff
    some (.pair (vid, pid), t.put 1 (packV vid ++ packV pid))
  | .readEEStrings => some (.strings ([5, 8, 0xb, 0x10].map (fetchString t.image)), t)
  | .writeEEStrings mfg prd ser extra =>
    some (.done, { t with image := storeStrings mfg prd ser extra t.image })
  | .eePolarity none _ => some (.pair (unpackCC (fetch t.image 0xe 2)), t)
  | .eePolarity (some s1pol) s2pol =>
    let s2pol := orDefault s2pol s1pol
    some (.pair (s1pol, s2pol),
      t.put 0xe (packC (if s1pol ≠ 0 then 1 else 0) ++ packC (if s2pol ≠ 0 then 1 else 0)))

/-- The boot reads the memory, unless a string is too long for its array. -/
def powerCycle (t : Instrument) : Option Instrument :=
  if BootFits t.image then
    some { t with
      supply := .atRest
      polarity := bootPolarity t.image
      productID := bootProductID t.image }
  else none

def step (w : Wiring) (t : Instrument) : HostEvent → Option (Option Answer × Instrument)
  | .call c => (t.call w c).map fun r => (some r.1, r.2)
  | .idle ticks => some (none, { t with supply := t.supply.elapse ticks })
  | .powerCycle _ => t.powerCycle.map fun t => (none, t)

end Instrument

/-! ### The device with its relays -/

/-- What the firmware does to the switches for a packet. -/
def Firmware.switching (fw : Firmware) (item : Item) : Program Board Unit :=
  if (readPacket fw.inpkt item).1 = 0 then pure ()
  else if PktType.ofByte (fw.received item).inpkt.cmd = some .spdt then
    spdtSet ((fw.received item).inpkt.payload 0) ((fw.received item).inpkt.payload 1)
  else pure ()

theorem Firmware.handle_board (fw : Firmware) (item : Item) :
    (fw.handle item).firmware.board = ((fw.switching item).timed Board.elapse fw.board).2 := by
  unfold switching handle
  dsimp only
  split
  · rfl
  · change (runCommand _ (PktType.ofByte (fw.received item).inpkt.cmd)).1.board = _
    match PktType.ofByte (fw.received item).inpkt.cmd with
    | none => rfl
    | some t => cases t <;> rfl

theorem Firmware.handle_identity (fw : Firmware) (item : Item) :
    (fw.handle item).firmware.productID = fw.productID ∧
      (fw.handle item).firmware.buildSha1 = fw.buildSha1 := by
  unfold handle
  dsimp only
  split
  · exact ⟨rfl, rfl⟩
  · change (runCommand _ (PktType.ofByte (fw.received item).inpkt.cmd)).1.productID = _ ∧
      (runCommand _ (PktType.ofByte (fw.received item).inpkt.cmd)).1.buildSha1 = _
    match PktType.ofByte (fw.received item).inpkt.cmd with
    | none => exact ⟨rfl, rfl⟩
    | some t => cases t <;> exact ⟨rfl, rfl⟩

structure Plant where
  device : Device
  relays : Relays

namespace Plant

def instrument (p : Plant) : Instrument where
  relays := p.relays
  supply := p.device.firmware.board.supply
  image := p.device.image
  polarity := p.device.firmware.board.polarity
  productID := p.device.firmware.productID
  buildSha1 := p.device.firmware.buildSha1

/-- The link is idle, and the coils are off. -/
structure Settled (p : Plant) : Prop where
  idle : p.device.inEp = none
  off : p.device.firmware.board.CoilsOff

/-- The firmware starts anew and reads its memory, if the strings there leave it intact. -/
def powerCycle (w : Wiring) (p : Plant) (stale : Nat → Item) : Option Plant :=
  let boot := readEEprom (.powerUp p.device.image)
  if ∀ st ∈ boot.stores, st.InBounds then
    some {
      device := {
        firmware := { Firmware.powerUp p.device.image p.device.firmware.buildSha1 with
          eeprom := boot.eeprom
          board := boot.board
          productID := boot.identity.productID }
        inEp := none
        stale := stale }
      relays := p.relays.during w (bootSwitching p.device.image) .powerUp }
  else none

variable (w : Wiring)

/-- A program of the controller on its board. -/
def operate (p : Plant) (prog : Program Board Unit) : Plant where
  device := { p.device with
    firmware := { p.device.firmware with
      board := (prog.timed Board.elapse p.device.firmware.board).2 } }
  relays := p.relays.during w prog p.device.firmware.board

def receive (p : Plant) (packet : List UInt8) : Plant where
  device := p.device.receive packet
  relays := match bulkctrlDataRxCb (p.device.stale 0) packet with
    | none => p.relays
    | some item => p.relays.during w (p.device.firmware.switching item) p.device.firmware.board

def serve (residue : List UInt8 → List UInt8) (p : Plant) (bytes : List UInt8) :
    List UInt8 × Plant :=
  let p := (usbPackets bytes).foldl (receive w) p
  (bulkRead residue (p.device.inEp.getD []), { p with device := { p.device with inEp := none } })

variable (residue : List UInt8 → List UInt8)

def step (p : Plant) : HostEvent → Option (Option Answer × Plant)
  | .call c => (c.session.run (serve w residue) p).map fun r => (some r.1, r.2)
  | .idle ticks => some (none, p.operate w (Program.block ticks))
  | .powerCycle stale => (p.powerCycle w stale).map fun p => (none, p)

theorem foldl_receive (packets : List (List UInt8)) (p : Plant) :
    (packets.foldl (receive w) p).device = packets.foldl Device.receive p.device := by
  induction packets generalizing p with
  | nil => rfl
  | cons packet packets ih => exact ih (p.receive w packet)

/-- The relays do not answer. -/
theorem serve_device (p : Plant) (bytes : List UInt8) :
    (p.serve w residue bytes).1 = (p.device.serve residue bytes).1 ∧
      (p.serve w residue bytes).2.device = (p.device.serve residue bytes).2 := by
  simp only [serve, Device.serve, foldl_receive, and_self]

theorem run_device {α : Type} (s : Session α) (p : Plant) :
    (s.run (serve w residue) p).map (Prod.map id Plant.device) =
      s.run (Device.serve residue) p.device :=
  Dialogue.run_view (fun p bytes => (serve_device w residue p bytes).1)
    (fun p bytes => (serve_device w residue p bytes).2) s p

theorem serve_relays {p : Plant} {bytes : List UInt8} (h1 : 1 ≤ bytes.length)
    (h64 : bytes.length ≤ 64) :
    (p.serve w residue bytes).2.relays = p.relays.during w
      (p.device.firmware.switching (rxFrame (p.device.stale 0) bytes)) p.device.firmware.board := by
  have hne : bytes ≠ [] := List.ne_nil_of_length_pos h1
  rw [serve, usbPackets_single h1 h64]
  simp only [List.foldl_cons, List.foldl_nil, receive, bulkctrlDataRxCb_of_ne_nil _ hne]

end Plant

/-! ### Frames -/

section Frames

variable (fw : Firmware) (stale : Item) {payload : List UInt8} (h58 : payload.length ≤ 58)
include h58

theorem switching_of_ne {t : PktType} (ht : t ≠ .spdt) :
    fw.switching (rxFrame stale (frame t.toByte payload)) = pure () := by
  have hc := rxFrame_frame_cmd stale t.toByte h58
  have hcmd : PktType.ofByte (fw.received (rxFrame stale (frame t.toByte payload))).inpkt.cmd =
      some t := PktType.ofByte_eq_some.mpr hc
  unfold Firmware.switching
  split
  · rfl
  · rw [hcmd, if_neg fun h => ht (Option.some.inj h)]

theorem switching_spdt :
    fw.switching (rxFrame stale (frame PktType.spdt.toByte payload)) =
      spdtSet ((fw.received (rxFrame stale (frame PktType.spdt.toByte payload))).inpkt.payload 0)
        ((fw.received (rxFrame stale (frame PktType.spdt.toByte payload))).inpkt.payload 1) := by
  have hc := rxFrame_frame_cmd stale PktType.spdt.toByte h58
  have hcmd : PktType.ofByte
      (fw.received (rxFrame stale (frame PktType.spdt.toByte payload))).inpkt.cmd =
        some .spdt := PktType.ofByte_eq_some.mpr hc
  have hz := rxFrame_frame_length_ne_zero stale PktType.spdt.toByte h58
  have hr : ¬ (readPacket fw.inpkt (rxFrame stale (frame PktType.spdt.toByte payload))).1 = 0 :=
    fun he => hz ((readPacket_eq_zero _ _).mp he)
  rw [Firmware.switching, if_neg hr, if_pos hcmd]

end Frames

theorem after_image (d : Device) {t : PktType} (hwrite : t ≠ .writeee) (herase : t ≠ .eraseall)
    {payload : List UInt8} (h58 : payload.length ≤ 58) :
    (d.after (frame t.toByte payload)).image = d.image := by
  have heeprom := handle_frame_firmware d.firmware (d.stale 0) t h58
  refine (congrArg Eeprom.image heeprom).trans ?_
  cases t with
  | writeee => exact absurd rfl hwrite
  | eraseall => exact absurd rfl herase
  | _ => rfl

variable (w : Wiring) (residue : List UInt8 → List UInt8)

theorem Plant.Settled.serve {p : Plant} (h : p.Settled) (t : PktType) {payload : List UInt8}
    (h58 : payload.length ≤ 58) :
    (p.serve w residue (frame t.toByte payload)).2.device =
      p.device.after (frame t.toByte payload) := by
  obtain ⟨reply, -, -, -, hserve⟩ := serve_frame residue h.idle t.toByte h58
  rw [(Plant.serve_device w residue p _).2, hserve]

/-- What is beside the memory. -/
def Instrument.Beside (t u : Instrument) : Prop := { u with image := t.image } = t

theorem settled_other {p : Plant} (h : p.Settled) {bytes : List UInt8} (hbytes : OtherFrame bytes) :
    (p.serve w residue bytes).2.Settled ∧
      p.instrument.Beside (p.serve w residue bytes).2.instrument := by
  obtain ⟨t, payload, ht, h58, rfl⟩ := hbytes
  have hdevice := h.serve w residue t h58
  have hswitching := switching_of_ne p.device.firmware (p.device.stale 0) h58 ht
  have hboard : (p.device.after (frame t.toByte payload)).firmware.board =
      p.device.firmware.board := by
    rw [Device.after, Firmware.handle_board, hswitching, Program.timed_pure]
  obtain ⟨hproduct, hsha⟩ : (p.device.after (frame t.toByte payload)).firmware.productID =
      p.device.firmware.productID ∧ (p.device.after (frame t.toByte payload)).firmware.buildSha1 =
        p.device.firmware.buildSha1 := Firmware.handle_identity _ _
  have hrelays : (p.serve w residue (frame t.toByte payload)).2.relays = p.relays := by
    rw [Plant.serve_relays w residue (by rw [frame_length]; omega) (by rw [frame_length]; omega),
      hswitching]
    rfl
  refine ⟨⟨by rw [hdevice]; rfl, ?_⟩, ?_⟩
  · rw [hdevice, hboard]
    exact h.off
  · simp only [Instrument.Beside, Plant.instrument, hdevice, hrelays, hboard, hproduct, hsha]

/-- A session of other frames acts on the device alone, and there on nothing but its memory. -/
theorem run_other {α : Type} {s : Session α} (hs : Dialogue.Asks OtherFrame s) {p : Plant}
    (h : p.Settled) {a : α} {q : Plant} (hrun : s.run (Plant.serve w residue) p = some (a, q)) :
    q.Settled ∧ s.run (Device.serve residue) p.device = some (a, q.device) ∧
      q.instrument = { p.instrument with image := q.device.image } := by
  have hserve : ∀ (q : Plant) bytes, OtherFrame bytes →
      q.Settled ∧ p.instrument.Beside q.instrument →
        (q.serve w residue bytes).2.Settled ∧
          p.instrument.Beside (q.serve w residue bytes).2.instrument := by
    intro q bytes hbytes hq
    obtain ⟨hsettled, hbeside⟩ := settled_other w residue hq.1 hbytes
    refine ⟨hsettled, ?_⟩
    have hq' := hq.2
    rw [Instrument.Beside, ← hbeside] at hq'
    exact hq'
  obtain ⟨hsettled, hbeside⟩ := hs.run hserve ⟨h, rfl⟩ hrun
  refine ⟨hsettled, ?_, ?_⟩
  · rw [← Plant.run_device w residue, hrun]
    rfl
  · rw [← hbeside]
    rfl

/-! ### The calls -/

/-- What the host gets for a request of which it returns the status alone. -/
theorem ensures_status {d : Device} {m : Image} (hidle : d.inEp = none) {t : PktType}
    {payload : List UInt8} (h58 : payload.length ≤ 58)
    (hafter : (d.after (frame t.toByte payload)).image = m) :
    Dialogue.Ensures (Device.serve residue) (do
      let (res, _) ← sendPacket (.make t.toCommand payload)
      pure res) d fun res d' =>
        res = (if Firmware.answer (some t) = .ack then .success else .fail) ∧ d'.At m := by
  have hp := make_packet t payload
  obtain ⟨reply, rx, -, hrx, hrun⟩ := sendPacket_frame residue hidle hp h58
  have hstatus : (if rx.command = .ack then Status.success else .fail) =
      if Firmware.answer (some t) = .ack then .success else .fail := by
    rw [hrx, PktType.ofByte_eq_some.mpr rfl]
    simp only [toCommand_eq_ack]
  apply Dialogue.ensures_bind
  refine ⟨_, _, hrun, Dialogue.ensures_pure ⟨hstatus, rfl, ?_⟩⟩
  rw [hp, hafter]

theorem run_identify_device {d : Device} (hidle : d.inEp = none) :
    identify.run (Device.serve residue) d =
      (ProductId.fromOrdinal d.firmware.productID.toUInt8).map fun productID =>
        (⟨productID, 1, 1, 0, (fwRevBuild d.firmware.buildSha1).toNat,
          bldSha d.firmware.buildSha1⟩, d.after (frame PktType.id.toByte [])) := by
  have h58 : ([] : List UInt8).length ≤ 58 := by decide
  have hp := make_packet .id []
  obtain ⟨reply, rx, hreply, hrx, hrun⟩ := sendPacket_frame residue hidle hp h58
  rw [hp] at hreply
  have hcmd := rxFrame_frame_cmd (d.stale 0) PktType.id.toByte h58
  have hlen := rxFrame_frame_length_ne_zero (d.stale 0) PktType.id.toByte h58
  have hpayload : rx.payload = (idResponse d.firmware).take 16 ++ residue reply := by
    have hlength := id_reply_length hcmd hlen hreply
    rw [hrx, bulkRead, List.drop_append_of_le_length (by omega), id_reply_payload hcmd hlen hreply]
  have hrun' : (sendPacket (.make .id [])).run (Device.serve residue) d = _ := hrun
  rw [identify, Dialogue.run_bind, hrun', Option.bind_some]
  dsimp only
  rw [fromIDPacket_idResponse hpayload, hp]
  cases ProductId.fromOrdinal d.firmware.productID.toUInt8 <;> rfl

/-- A call that acts on the memory, beside the device. -/
def OnMemory (d : Device) (t : Instrument) (s : Session Answer) : Option (Answer × Instrument) :=
  (s.run (Device.serve residue) d).map fun r => (r.1, { t with image := r.2.image })

theorem onMemory_of_ensures {α : Type} {s : Session α} {d : Device} {v : α} {m : Image}
    (h : Dialogue.Ensures (Device.serve residue) s d fun a d' => a = v ∧ d'.At m)
    (t : Instrument) (f : α → Answer) :
    OnMemory residue d t (do pure (f (← s))) = some (f v, { t with image := m }) := by
  obtain ⟨a, d', hrun, rfl, hat⟩ := h
  rw [OnMemory, Dialogue.run_bind, hrun]
  simp only [Option.bind_some, Dialogue.run_pure, Option.map_some, hat.image]

theorem onMemory_call (w : Wiring) {d : Device} {t : Instrument} (hidle : d.inEp = none)
    (himage : d.image = t.image) (hproduct : d.firmware.productID = t.productID)
    (hsha : d.firmware.buildSha1 = t.buildSha1) {c : Call} (hc : ∀ sw set, c ≠ .spdt sw set) :
    OnMemory residue d t c.session = t.call w c := by
  have hat : d.At t.image := ⟨hidle, himage⟩
  have hstatus (u : PktType) (hwrite : u ≠ .writeee) (herase : u ≠ .eraseall)
      {payload : List UInt8} (h58 : payload.length ≤ 58) :=
    onMemory_of_ensures residue (ensures_status residue hidle h58
      ((after_image d hwrite herase h58).trans himage)) t .status
  cases c with
  | spdt sw set => exact absurd rfl (hc sw set)
  | sp8t sel => exact hstatus .sp8t (by decide) (by decide) (by simp [packC])
  | atten sel => exact hstatus .att (by decide) (by decide) (by simp [packC])
  | stacklightNotify color onTime offTime count =>
    exact hstatus .notify (by decide) (by decide) (by simp [packC, packV, packVLong])
  | blink on => exact hstatus .blink (by decide) (by decide) (by simp [packC])
  | ee call =>
    cases call with
    | readEE addr nbytes =>
      exact onMemory_of_ensures residue (ensures_call residue (.readEE addr nbytes) hat) t .bytes
    | writeEE addr val =>
      exact onMemory_of_ensures residue (ensures_call residue (.writeEE addr val) hat) t .bytes
    | eraseAllEE =>
      have h58 : ([] : List UInt8).length ≤ 58 := by decide
      have herased := ensures_status residue hidle (t := .eraseall) h58 (after_eraseall d)
      exact onMemory_of_ensures residue herased t .status
  | identify =>
    have h58 : ([] : List UInt8).length ≤ 58 := by decide
    have himage' := after_image d (t := .id) (by decide) (by decide) h58
    rw [OnMemory, Call.session, Dialogue.run_bind, run_identify_device residue hidle, hproduct,
      hsha]
    rw [Instrument.call]
    cases ProductId.fromOrdinal t.productID.toUInt8 with
    | none => rfl
    | some productID =>
      simp only [Option.map_some, Option.bind_some, Dialogue.run_pure, himage', himage]
      rfl
  | eeMagic val =>
    cases val with
    | none => exact onMemory_of_ensures residue (ensures_getMagic residue hat) t .number
    | some val =>
      refine onMemory_of_ensures residue (v := val &&& 0xff) ?_ t .number
      exact Dialogue.ensures_bind ((ensures_writeEE residue hat 0 _).mono fun _ _ h =>
        Dialogue.ensures_pure ⟨rfl, h⟩)
  | eeVidPid vid pid =>
    cases pid with
    | none => exact onMemory_of_ensures residue (ensures_getVidPid residue hat) t .pair
    | some pid =>
      refine onMemory_of_ensures residue
        (v := (orDefault vid validVid &&& 0xffff, pid &&& 0xffff)) ?_ t .pair
      exact Dialogue.ensures_bind ((ensures_writeEE residue hat 1 _).mono fun _ _ h =>
        Dialogue.ensures_pure ⟨rfl, h⟩)
  | readEEStrings =>
    exact onMemory_of_ensures residue (ensures_readEEStrings residue hat) t .strings
  | writeEEStrings mfg prd ser extra =>
    refine onMemory_of_ensures residue (v := ()) ?_ t fun _ => .done
    exact (ensures_writeEEStrings residue hat mfg prd ser extra).mono fun _ _ h => ⟨rfl, h⟩
  | eePolarity s1pol s2pol =>
    cases s1pol with
    | none => exact onMemory_of_ensures residue (ensures_getPolarity residue hat) t .pair
    | some s1pol =>
      refine onMemory_of_ensures residue (v := (s1pol, orDefault s2pol s1pol)) ?_ t .pair
      exact Dialogue.ensures_bind ((ensures_writeEE residue hat 0xe _).mono fun _ _ h =>
        Dialogue.ensures_pure ⟨rfl, h⟩)

theorem sendPacket_state {σ : Type} {serve : σ → List UInt8 → List UInt8 × σ} {packet : Packet}
    {s s' : σ} {r : Status × Packet} (h : (sendPacket packet).run serve s = some (r, s')) :
    s' = (serve s packet.packet).2 := by
  rw [sendPacket, Dialogue.run_bind, Dialogue.run_request, Option.bind_some] at h
  dsimp only at h
  split at h
  · cases h
  · exact (Prod.mk.inj (Option.some.inj h)).2.symm

/-- `spdt` is the call that moves a relay. -/
theorem ensures_spdt {p : Plant} (h : p.Settled) (sw : SpdtSel) (set : SpdtSetting) :
    Dialogue.Ensures (Plant.serve w residue) (spdt sw set) p fun res q =>
      res = .success ∧ q.Settled ∧ q.instrument = { p.instrument with
        relays := p.relays.command w p.instrument.polarity p.instrument.supply sw.switch
          set.connector
        supply := p.instrument.supply.selected } := by
  let payload := packC sw.ordinal ++ packC set.ordinal
  have h58 : payload.length ≤ 58 := by simp [payload, packC]
  have h2 : payload.length = 2 := rfl
  have hdevice : Dialogue.Ensures (Device.serve residue) (spdt sw set) p.device
      fun res d => res = .success ∧ d.At p.device.image :=
    ensures_status residue h.idle (t := .spdt) h58 (after_image _ (by decide) (by decide) h58)
  obtain ⟨res, d, hrun, rfl, hd⟩ := hdevice
  have hplant := Plant.run_device w residue (spdt sw set) p
  rw [hrun] at hplant
  obtain ⟨⟨res, q⟩, hq, heq⟩ := Option.map_eq_some_iff.mp hplant
  obtain ⟨hres, rfl⟩ := Prod.mk.inj heq
  refine ⟨res, q, hq, hres, ?_⟩
  rw [spdt, Dialogue.run_bind] at hq
  obtain ⟨⟨⟨res', rx⟩, q'⟩, hsend, hpure⟩ := Option.bind_eq_some_iff.mp hq
  obtain ⟨-, rfl⟩ := Prod.mk.inj (Option.some.inj hpure)
  obtain rfl := sendPacket_state hsend
  have hpacket : (Packet.make .spdt payload).packet = frame PktType.spdt.toByte payload :=
    make_packet .spdt payload
  change (p.serve w residue (Packet.make .spdt payload).packet).2.Settled ∧
    (p.serve w residue (Packet.make .spdt payload).packet).2.instrument = _
  rw [hpacket]
  have hswitching := switching_spdt p.device.firmware (p.device.stale 0) h58
  rw [received_payload p.device.firmware _ _ h58 (by omega),
    received_payload p.device.firmware _ _ h58 (by omega)] at hswitching
  obtain ⟨hduring, hoff, hpolarity, hsupply⟩ :=
    during_spdtSet w (payload.getD 0 0) (payload.getD 1 0) h.off p.relays
  have hafter := h.serve w residue .spdt h58
  have hboard : (p.device.after (frame PktType.spdt.toByte payload)).firmware.board =
      ((spdtSet (payload.getD 0 0) (payload.getD 1 0)).timed Board.elapse
        p.device.firmware.board).2 := by
    rw [Device.after, Firmware.handle_board, hswitching]
  obtain ⟨hproduct, hsha⟩ :
      (p.device.after (frame PktType.spdt.toByte payload)).firmware.productID =
        p.device.firmware.productID ∧
      (p.device.after (frame PktType.spdt.toByte payload)).firmware.buildSha1 =
        p.device.firmware.buildSha1 := Firmware.handle_identity _ _
  refine ⟨⟨by rw [hafter]; rfl, by rw [hafter, hboard]; exact hoff⟩, ?_⟩
  have hrelays : (p.serve w residue (frame PktType.spdt.toByte payload)).2.relays =
      p.relays.command w p.instrument.polarity p.instrument.supply sw.switch set.connector := by
    rw [Plant.serve_relays w residue (by rw [frame_length]; omega) (by rw [frame_length]; omega),
      hswitching, hduring]
    cases sw <;> cases set <;> rfl
  have himage := after_image p.device (t := .spdt) (by decide) (by decide) h58
  simp only [Plant.instrument, hafter, hrelays, hboard, hproduct, hsha, himage, hpolarity, hsupply]

/-- A host that calls a settled device. -/
theorem run_call {p : Plant} (h : p.Settled) (c : Call) :
    (c.session.run (Plant.serve w residue) p).map (Prod.map id Plant.instrument) =
        p.instrument.call w c ∧
      ∀ a q, c.session.run (Plant.serve w residue) p = some (a, q) → q.Settled := by
  by_cases hc : ∀ sw set, c ≠ .spdt sw set
  · have hdevice := onMemory_call residue w (t := p.instrument) h.idle rfl rfl rfl hc
    rw [← hdevice, OnMemory, ← Plant.run_device w residue]
    cases hrun : c.session.run (Plant.serve w residue) p with
    | none => exact ⟨rfl, nofun⟩
    | some r =>
      obtain ⟨a, q⟩ := r
      obtain ⟨hsettled, -, hinstrument⟩ := run_other w residue (asks_call hc) h hrun
      refine ⟨?_, ?_⟩
      · simp only [Option.map_some, Prod.map_apply, id_eq, hinstrument]
      · intro a' q' heq
        obtain ⟨-, rfl⟩ := Prod.mk.inj (Option.some.inj heq)
        exact hsettled
  · simp only [ne_eq, not_forall, not_not] at hc
    obtain ⟨sw, set, rfl⟩ := hc
    obtain ⟨res, q, hrun, rfl, hsettled, hinstrument⟩ := ensures_spdt w residue h sw set
    rw [Call.session, Dialogue.run_bind, hrun]
    refine ⟨?_, ?_⟩
    · simp only [Option.bind_some, Dialogue.run_pure, Option.map_some, Prod.map_apply, id_eq,
        hinstrument]
      rfl
    · intro a' q' heq
      obtain ⟨-, rfl⟩ := Prod.mk.inj (Option.some.inj heq)
      exact hsettled

/-! ### Time and power -/

/-- A program that leaves the coils alone. -/
theorem operate_beside {p : Plant} (h : p.Settled) {prog : Program Board Unit}
    (hprog : Program.Acts Board.SameCoils prog) :
    (p.operate w prog).Settled ∧ (p.operate w prog).instrument = { p.instrument with
      supply := (prog.timed Board.elapse p.device.firmware.board).2.supply } := by
  obtain ⟨hrelays, hoff, hpolarity⟩ := Relays.during_beside w hprog h.off p.relays
  refine ⟨⟨h.idle, hoff⟩, ?_⟩
  simp only [Plant.operate, Plant.instrument, Device.image, hrelays, hpolarity]

theorem operate_block {p : Plant} (h : p.Settled) (ticks : Nat) :
    (p.operate w (Program.block ticks)).Settled ∧
      (p.operate w (Program.block ticks)).instrument =
        { p.instrument with supply := p.instrument.supply.elapse ticks } := by
  have hblock : Program.Acts Board.SameCoils (Program.block ticks) := trivial
  obtain ⟨hsettled, hinstrument⟩ := operate_beside w h hblock
  refine ⟨hsettled, ?_⟩
  rw [hinstrument, Program.timed_block, Board.supply_elapse]
  rfl

theorem powerCycle_instrument (p : Plant) (stale : Nat → Item) :
    (p.powerCycle w stale).map Plant.instrument = p.instrument.powerCycle ∧
      ∀ q, p.powerCycle w stale = some q → q.Settled := by
  obtain ⟨hoff, hpolarity⟩ := bootSwitching_run p.device.image
  unfold Plant.powerCycle Instrument.powerCycle
  by_cases hfits : BootFits p.device.image
  · have hstores := (bootFits_iff p.device.image).mpr hfits
    have hfits' : BootFits p.instrument.image := hfits
    simp only [if_pos hstores, if_pos hfits', Option.map_some, Option.some.injEq]
    constructor
    · simp only [Plant.instrument, readEEprom_switching, hpolarity, readEEprom_productID,
        bootSwitching_during, bootSwitching_supply]
      simp only [Device.image, readEEprom_eeprom]
      rfl
    · rintro q rfl
      refine ⟨rfl, ?_⟩
      rw [readEEprom_switching]
      exact hoff
  · have hstores := mt (bootFits_iff p.device.image).mp hfits
    have hfits' : ¬ BootFits p.instrument.image := hfits
    simp only [if_neg hstores, if_neg hfits', Option.map_none, true_and]
    intro q hq
    cases hq

theorem step_instrument {p : Plant} (h : p.Settled) (e : HostEvent) :
    (p.step w residue e).map (Prod.map id Plant.instrument) = p.instrument.step w e ∧
      ∀ a q, p.step w residue e = some (a, q) → q.Settled := by
  cases e with
  | call c =>
    obtain ⟨hcall, hsettled⟩ := run_call w residue h c
    rw [Plant.step, Instrument.step, ← hcall]
    refine ⟨?_, ?_⟩
    · rw [Option.map_map, Option.map_map]
      rfl
    · intro a q hq
      obtain ⟨⟨a', q'⟩, hrun, heq⟩ := Option.map_eq_some_iff.mp hq
      obtain ⟨-, rfl⟩ := Prod.mk.inj heq
      exact hsettled a' _ hrun
  | idle ticks =>
    obtain ⟨hsettled, hinstrument⟩ := operate_block w h ticks
    refine ⟨?_, ?_⟩
    · rw [Plant.step, Instrument.step, ← hinstrument]
      rfl
    · intro a q hq
      obtain ⟨-, rfl⟩ := Prod.mk.inj (Option.some.inj hq)
      exact hsettled
  | powerCycle stale =>
    obtain ⟨hcycle, hsettled⟩ := powerCycle_instrument w p stale
    rw [Plant.step, Instrument.step, ← hcycle]
    refine ⟨?_, ?_⟩
    · rw [Option.map_map, Option.map_map]
      rfl
    · intro a q hq
      obtain ⟨q', hrun, heq⟩ := Option.map_eq_some_iff.mp hq
      obtain ⟨-, rfl⟩ := Prod.mk.inj heq
      exact hsettled _ hrun

theorem tryRun_instrument {p : Plant} (h : p.Settled) (es : List HostEvent) :
    (Service.tryRun (Plant.step w residue) p es).map (Prod.map id Plant.instrument) =
      Service.tryRun (Instrument.step w) p.instrument es :=
  Service.tryRun_view (I := Plant.Settled) (fun _ e h => (step_instrument w residue h e).1)
    (fun _ e a q h => (step_instrument w residue h e).2 a q) h es

/-- Through any calls, idle times and power cycles a controller that is idle, with its coils off, is
the instrument that it shows, whatever its supply is: call by call it answers what the instrument
answers, and it gives out where the instrument does. -/
theorem plant_is_instrument {p : Plant} (hidle : p.device.inEp = none)
    (hoff : p.device.firmware.board.CoilsOff) (es : List HostEvent) :
    (Service.tryRun (Plant.step w residue) p es).map (Prod.map id Plant.instrument) =
      Service.tryRun (Instrument.step w) p.instrument es :=
  tryRun_instrument w residue ⟨hidle, hoff⟩ es

def newPlant (image : Image) : Plant :=
  ⟨.powerUp image (fun _ => 0) fun _ _ => 0, fun _ => some .j1⟩

/-- The wrong polarities are written and come into force at the next power up. -/
def misconfigure : List HostEvent :=
  [.call (.eeMagic (some 0xAA)), .call (.writeEEStrings [] [] [] []),
    .call (.eePolarity (some 0) (some 0)), .powerCycle fun _ _ => 0, .call (.spdt .sw1 .j1sel)]

theorem run_misconfigure :
    (Service.tryRun (Instrument.step fun _ => true) (newPlant fun _ => 0xFF).instrument
      misconfigure).map
      (fun r => (r.2.relays .s1, r.2.relays .s2)) = some (some .j2, none) := by
  decide +kernel

/-- A relay that is thrown the wrong way, and another one that both its coils have pulled. -/
theorem plant_is_instrument_misconfigured : ∃ answers q,
    Service.tryRun (Plant.step (fun _ => true) fun _ => []) (newPlant fun _ => 0xFF) misconfigure =
      some (answers, q) ∧ q.relays .s1 = some .j2 ∧ q.relays .s2 = none := by
  have hplant := plant_is_instrument (fun _ => true) (fun _ => []) (p := newPlant fun _ => 0xFF)
    rfl powerUp_coilsOff misconfigure
  obtain ⟨⟨answers, t⟩, ht, hrelays⟩ := Option.map_eq_some_iff.mp run_misconfigure
  rw [ht] at hplant
  obtain ⟨⟨answers', q⟩, hq, heq⟩ := Option.map_eq_some_iff.mp hplant
  obtain ⟨-, rfl⟩ := Prod.mk.inj heq
  obtain ⟨h1, h2⟩ := Prod.mk.inj hrelays
  exact ⟨answers', q, hq, h1, h2⟩

end UsbSpdt
