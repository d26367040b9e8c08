import UsbSpdt.Firmware.Leftovers
import UsbSpdt.Host.Agreement
import UsbSpdt.Link.Model

/-!
# Which commands a request dispatches

The firmware takes every USB packet for a request of its own. The packets of a long request after
the first are harmless if their second and third bytes are zero.
-/

namespace UsbSpdt

open AttenSwitch

/-! ### Packets that are never dispatched -/

/-- The task drops a packet, whatever was on the stack when it came in. -/
def Inert (packet : List UInt8) : Prop := ∀ stale, (rxFrame stale packet).length = 0

theorem rxFrame_length_of_getElem? (stale : Item) {packet : List UInt8} {lo hi : UInt8}
    (h64 : packet.length ≤ 64) (h1 : packet[1]? = some lo) (h2 : packet[2]? = some hi) :
    (rxFrame stale packet).length = LittleEndian.word lo hi := by
  obtain ⟨hlen, -⟩ := List.getElem?_eq_some_iff.mp h2
  rw [rxFrame_length stale (by omega) h64, requestLength, List.getD_eq_getElem?_getD,
    List.getD_eq_getElem?_getD, h1, h2]
  rfl

/-- A stack of ones makes up a length field for a packet that has none. -/
theorem length_field_of_ones {packet : List UInt8} (h64 : packet.length ≤ 64)
    (h : (rxFrame ones packet).length = 0) : packet[1]? = some 0 ∧ packet[2]? = some 0 := by
  have hlen : 3 ≤ packet.length := by
    by_contra hshort
    have hstale : rxFrame ones packet 3 = 0xFF := rxFrame_ones (by change packet.length < 3; omega)
    rw [Item.length, LittleEndian.word_eq_zero_iff, hstale] at h
    exact absurd h.2 (by decide)
  have h1 : packet[1]? = some packet[1] := List.getElem?_eq_getElem (by omega)
  have h2 : packet[2]? = some packet[2] := List.getElem?_eq_getElem (by omega)
  rw [rxFrame_length_of_getElem? ones h64 h1 h2, LittleEndian.word_eq_zero_iff] at h
  rw [h1, h2, h.1, h.2]
  exact ⟨rfl, rfl⟩

theorem inert_of_length_field {packet : List UInt8} (h64 : packet.length ≤ 64)
    (h : packet[1]? = some 0 ∧ packet[2]? = some 0) : Inert packet := by
  intro stale
  rw [rxFrame_length_of_getElem? stale h64 h.1 h.2]
  rfl

theorem Inert.queued {packet : List UInt8} (h : Inert packet) {stale item : Item}
    (hitem : bulkctrlDataRxCb stale packet = some item) : item.length = 0 := by
  rw [bulkctrlDataRxCb] at hitem
  split at hitem
  · exact Option.some.inj hitem ▸ h stale
  · cases hitem

/-! ### The packets of a frame -/

theorem usbPackets_cons {bytes : List UInt8} (h : bytes ≠ []) :
    usbPackets bytes = bytes.take 64 ::
      (List.range ((bytes.length + 63) / 64 - 1)).map fun k =>
        (bytes.drop (64 * (k + 1))).take 64 := by
  have hpos : 0 < bytes.length := List.length_pos_iff.mpr h
  obtain ⟨n, hn⟩ : ∃ n, (bytes.length + 63) / 64 = n + 1 := ⟨(bytes.length + 63) / 64 - 1, by omega⟩
  rw [usbPackets, hn, List.range_succ_eq_map, List.map_cons, List.map_map]
  rfl

theorem outPackets_cons (request : Nat) {bytes : List UInt8} (h : bytes ≠ []) :
    outPackets request bytes = (⟨request, 0⟩, bytes.take 64) ::
      (usbPackets bytes).tail.mapIdx fun k packet => (⟨request, k + 1⟩, packet) := by
  rw [outPackets, usbPackets_cons h, List.mapIdx_cons]
  rfl

theorem usbPackets_ne_nil {bytes packet : List UInt8} (h : packet ∈ usbPackets bytes) :
    packet ≠ [] := by
  obtain ⟨k, hk, rfl⟩ := List.mem_map.mp h
  have hlt := List.mem_range.mp hk
  apply List.ne_nil_of_length_pos
  rw [List.length_take, List.length_drop]
  omega

theorem usbPackets_length_le {bytes packet : List UInt8} (h : packet ∈ usbPackets bytes) :
    packet.length ≤ 64 := by
  obtain ⟨k, -, rfl⟩ := List.mem_map.mp h
  rw [List.length_take]
  omega

theorem outPackets_packet {request : Nat} {bytes : List UInt8} {x : Origin × List UInt8}
    (h : x ∈ outPackets request bytes) : x.2 ∈ usbPackets bytes := by
  obtain ⟨k, hk, rfl⟩ := List.mem_mapIdx.mp h
  exact List.getElem_mem hk

/-- In every later packet of the frame the bytes of the length field are there and zero. -/
def LaterLengthsZero (payload : List UInt8) : Prop :=
  ∀ k, 64 * (k + 1) < payload.length + 6 →
    payload[64 * k + 59]? = some 0 ∧ payload[64 * k + 60]? = some 0

theorem laterPacket_getElem? (c : UInt8) (payload : List UInt8) (k : Nat) {i : Nat} (h6 : i < 6) :
    (((frame c payload).drop (64 * (k + 1))).take 64)[i]? = payload[64 * k + 58 + i]? := by
  rw [List.getElem?_take_of_lt (by omega), List.getElem?_drop,
    show 64 * (k + 1) + i = 64 * k + 58 + i + 6 by omega]
  rfl

theorem laterPackets_iff (c : UInt8) (payload : List UInt8) :
    (∀ packet ∈ (usbPackets (frame c payload)).tail,
      packet[1]? = some 0 ∧ packet[2]? = some 0) ↔ LaterLengthsZero payload := by
  rw [usbPackets_cons (by simp [frame, packC]), List.tail_cons, List.forall_mem_map, frame_length]
  constructor
  · intro h k hk
    have hmem : k ∈ List.range ((payload.length + 6 + 63) / 64 - 1) :=
      List.mem_range.mpr (by omega)
    have hpacket := h k hmem
    rwa [laterPacket_getElem? c payload k (by decide),
      laterPacket_getElem? c payload k (by decide)] at hpacket
  · intro h k hk
    rw [laterPacket_getElem? c payload k (by decide), laterPacket_getElem? c payload k (by decide)]
    have hlt := List.mem_range.mp hk
    exact h k (by omega)

theorem rxFrame_first (stale : Item) (c : UInt8) (payload : List UInt8) :
    (rxFrame stale ((frame c payload).take 64)).length = UInt16.ofNat (payload.length + 6) ∧
      (rxFrame stale ((frame c payload).take 64)).cmd = c := by
  have h64 : ((frame c payload).take 64).length ≤ 64 := by
    rw [List.length_take]
    omega
  have h6 : 6 ≤ ((frame c payload).take 64).length := by
    rw [List.length_take, frame_length]
    omega
  constructor
  · rw [rxFrame_length stale (by omega) h64]
    exact LittleEndian.word_low_high _
  · rw [Item.cmd, rxFrame_received stale h64 (by decide) (by change 4 ≤ _; omega)]
    rfl

/-! ### Runs that dispatch the command -/

def HostState.Over {α : Type} : HostState α → Prop
  | .running p => p.Over
  | .waiting _ next => ∀ bytes, (next bytes).Over

/-- The way of the one command `c` through the OUT pipe and the queue to the dispatcher. -/
inductive Flow (c : UInt8) :
    List (Origin × List UInt8) → List (Origin × Item) → List (Origin × UInt8) → Prop where
  | piped {first : List UInt8} {pipe} (hne : first ≠ [])
      (hfirst : ∀ stale, (rxFrame stale first).length ≠ 0 ∧ (rxFrame stale first).cmd = c)
      (hpipe : ∀ x ∈ pipe, Inert x.2) : Flow c ((⟨0, 0⟩, first) :: pipe) [] []
  | queued {pipe} {item : Item} {queue} (hpipe : ∀ x ∈ pipe, Inert x.2)
      (hlen : item.length ≠ 0) (hcmd : item.cmd = c)
      (hqueue : ∀ x ∈ queue, Item.length x.2 = 0) : Flow c pipe ((⟨0, 0⟩, item) :: queue) []
  | dispatched {pipe queue} (hpipe : ∀ x ∈ pipe, Inert x.2)
      (hqueue : ∀ x ∈ queue, Item.length x.2 = 0) : Flow c pipe queue [(⟨0, 0⟩, c)]

namespace Flow

variable {c : UInt8} {pipe : List (Origin × List UInt8)} {queue : List (Origin × Item)}
  {log : List (Origin × UInt8)}

theorem log_cases (h : Flow c pipe queue log) : log = [] ∨ log = [(⟨0, 0⟩, c)] := by
  cases h with
  | piped => exact Or.inl rfl
  | queued => exact Or.inl rfl
  | dispatched => exact Or.inr rfl

theorem settled (h : Flow c [] [] log) : log = [(⟨0, 0⟩, c)] := by
  cases h with
  | dispatched => rfl

theorem mem_xQueueSend {β : Type} {queue : List β} {item x : β} (h : x ∈ xQueueSend queue item) :
    x ∈ queue ∨ x = item := by
  rw [xQueueSend] at h
  split at h
  · simpa using h
  · exact Or.inl h

theorem quiet_queue {stale : Item} {origin : Origin} {packet : List UInt8}
    (hpacket : Inert packet) (hqueue : ∀ x ∈ queue, Item.length x.2 = 0) :
    ∀ x ∈ (match bulkctrlDataRxCb stale packet with
      | none => queue
      | some item => xQueueSend queue (origin, item)), Item.length x.2 = 0 := by
  split
  case h_1 => exact hqueue
  case h_2 item hitem =>
    intro x hx
    rcases mem_xQueueSend hx with hx | rfl
    · exact hqueue x hx
    · exact hpacket.queued hitem

theorem rx {origin : Origin} {packet : List UInt8} (stale : Item)
    (h : Flow c ((origin, packet) :: pipe) queue log) :
    Flow c pipe (match bulkctrlDataRxCb stale packet with
      | none => queue
      | some item => xQueueSend queue (origin, item)) log := by
  cases h with
  | piped hne hfirst hpipe =>
    rw [bulkctrlDataRxCb_of_ne_nil stale hne]
    exact .queued hpipe (hfirst stale).1 (hfirst stale).2 (by simp)
  | @queued _ item queue hpipe hlen hcmd hqueue =>
    obtain ⟨hpacket, hpipe⟩ := List.forall_mem_cons.mp hpipe
    -- the queue keeps its head, whether or not there is room for the packet
    have hkeep : ∃ rest, (match bulkctrlDataRxCb stale packet with
        | none => (⟨0, 0⟩, item) :: queue
        | some item' => xQueueSend ((⟨0, 0⟩, item) :: queue) (origin, item')) =
          (⟨0, 0⟩, item) :: rest ∧ ∀ x ∈ rest, Item.length x.2 = 0 := by
      cases hitem : bulkctrlDataRxCb stale packet with
      | none => exact ⟨queue, rfl, hqueue⟩
      | some item' =>
        dsimp only
        rw [xQueueSend]
        split
        · refine ⟨queue ++ [(origin, item')], rfl, List.forall_mem_append.mpr ⟨hqueue, ?_⟩⟩
          simpa using hpacket.queued hitem
        · exact ⟨queue, rfl, hqueue⟩
    obtain ⟨rest, hrest, hquiet⟩ := hkeep
    rw [hrest]
    exact .queued hpipe hlen hcmd hquiet
  | dispatched hpipe hqueue =>
    obtain ⟨hpacket, hpipe⟩ := List.forall_mem_cons.mp hpipe
    exact .dispatched hpipe (quiet_queue hpacket hqueue)

theorem take_silent {origin : Origin} {item : Item} (hz : item.length = 0)
    (h : Flow c pipe ((origin, item) :: queue) log) : Flow c pipe queue log := by
  cases h with
  | queued hpipe hlen => exact absurd hz hlen
  | dispatched hpipe hqueue => exact .dispatched hpipe (List.forall_mem_cons.mp hqueue).2

theorem take_dispatched {origin : Origin} {item : Item} (hz : item.length ≠ 0)
    (h : Flow c pipe ((origin, item) :: queue) log) :
    Flow c pipe queue (log ++ [(origin, item.cmd)]) := by
  cases h with
  | queued hpipe hlen hcmd hqueue => exact hcmd ▸ .dispatched hpipe hqueue
  | dispatched hpipe hqueue => exact absurd (List.forall_mem_cons.mp hqueue).1 hz

end Flow

variable {residue : List UInt8 → List UInt8}

/-- Nothing is sent yet, or everything is and the host asks nothing more. -/
inductive Stage (p : Packet) (c : UInt8) (link : Link (Status × Packet)) : Prop where
  | unsent (hhost : link.host = .running (sendPacket p)) (hreq : link.requests = 0)
      (hpipe : link.outPipe = []) (hqueue : link.ctrlInQ = []) (hlog : link.dispatched = [])
  | sent (hhost : link.host.Over) (hreq : link.requests = 1)
      (hflow : Flow c link.outPipe link.ctrlInQ link.dispatched)

theorem sendPacket_eq (p : Packet) :
    ∃ next, sendPacket p = .ask p.packet next ∧ ∀ bytes, (next bytes).Over := by
  refine ⟨_, rfl, fun bytes => ?_⟩
  simp only [Dialogue.bind]
  split
  · exact Dialogue.over_die
  · exact Dialogue.over_done _

/-- A request whose first packet carries the command and whose other packets are harmless. -/
structure OneCommand (bytes : List UInt8) (c : UInt8) : Prop where
  ne_nil : bytes ≠ []
  first : ∀ stale, (rxFrame stale (bytes.take 64)).length ≠ 0 ∧
    (rxFrame stale (bytes.take 64)).cmd = c
  later : ∀ packet ∈ (usbPackets bytes).tail, Inert packet

theorem OneCommand.flow {bytes : List UInt8} {c : UInt8} (h : OneCommand bytes c) :
    Flow c (outPackets 0 bytes) [] [] := by
  rw [outPackets_cons 0 h.ne_nil]
  apply Flow.piped (by simpa using h.ne_nil) h.first
  intro x hx
  obtain ⟨k, hk, rfl⟩ := List.mem_mapIdx.mp hx
  exact h.later _ (List.getElem_mem hk)

/-- A host that awaits a reply has sent its request, and is done with any reply. -/
theorem Stage.of_waiting {p : Packet} {c : UInt8} {link : Link (Status × Packet)} {request : Nat}
    {next : List UInt8 → AttenSwitch.Session (Status × Packet)}
    (h : Stage p c link) (hwait : link.host = .waiting request next) :
    (∀ bytes, (next bytes).Over) ∧ link.requests = 1 ∧
      Flow c link.outPipe link.ctrlInQ link.dispatched := by
  cases h with
  | unsent hhost hreq hpipe hqueue hlog =>
    rw [hhost] at hwait
    cases hwait
  | sent hhost hreq hflow =>
    rw [hwait] at hhost
    exact ⟨hhost, hreq, hflow⟩

/-- Every step keeps the stage. -/
theorem Stage.step {p : Packet} {c : UInt8} (hp : OneCommand p.packet c)
    {link link' : Link (Status × Packet)} {e : Link.Event} (h : Stage p c link)
    (hstep : link.step residue e = some link') : Stage p c link' := by
  cases e with
  | send =>
    obtain ⟨bytes, next, hask, rfl⟩ := Link.step_send hstep
    cases h with
    | unsent hhost hreq hpipe hqueue hlog =>
      obtain ⟨next', heq, hover⟩ := sendPacket_eq p
      rw [hhost, heq] at hask
      injection hask with hask
      injection hask with hbytes hnext
      subst hbytes hnext
      refine .sent hover (congrArg (· + 1) hreq) ?_
      simpa [hpipe, hqueue, hlog, hreq] using hp.flow
    | sent hhost hreq hflow =>
      rw [hask] at hhost
      exact absurd rfl (hhost bytes next)
  | rx stale =>
    obtain ⟨origin, packet, pipe, hpipe', rfl⟩ := Link.step_rx hstep
    cases h with
    | unsent hhost hreq hpipe hqueue hlog => simp [hpipe] at hpipe'
    | sent hhost hreq hflow => exact .sent hhost hreq ((hpipe' ▸ hflow).rx stale)
  | take =>
    obtain ⟨origin, item, queue, -, hqueue', rfl⟩ := Link.step_take hstep
    cases h with
    | unsent hhost hreq hpipe hqueue hlog => simp [hqueue] at hqueue'
    | sent hhost hreq hflow =>
      rw [hqueue'] at hflow
      by_cases hz : item.length = 0
      · rw [Firmware.handle_silent _ hz]
        exact .sent hhost hreq (hflow.take_silent hz)
      · obtain ⟨buff, hreply, -⟩ := link.firmware.handle_reply hz
        rw [hreply]
        exact .sent hhost hreq (hflow.take_dispatched hz)
  | write =>
    obtain ⟨origin, reply, timeLeft, -, rfl⟩ := Link.step_write hstep
    cases h with
    | unsent hhost hreq hpipe hqueue hlog => exact .unsent hhost hreq hpipe hqueue hlog
    | sent hhost hreq hflow => exact .sent hhost hreq hflow
  | read =>
    obtain ⟨request, next, origin, reply, hwait, -, rfl⟩ := Link.step_read hstep
    obtain ⟨hover, hreq, hflow⟩ := h.of_waiting hwait
    exact .sent (hover _) hreq hflow
  | timeout =>
    obtain ⟨request, next, hwait, rfl⟩ := Link.step_timeout hstep
    obtain ⟨hover, hreq, hflow⟩ := h.of_waiting hwait
    exact .sent (hover _) hreq hflow

/-- The request has been sent and every packet of it has been dealt with. -/
structure Link.Settled {α : Type} (link : Link α) : Prop where
  requests : link.requests = 1
  outPipe : link.outPipe = []
  ctrlInQ : link.ctrlInQ = []

/-- In every run of one call of `send_packet` the firmware dispatches the requested command at most
once and nothing else, and when all is dealt with it has dispatched it. -/
structure DispatchesOnce (residue : List UInt8 → List UInt8) (p : Packet) (fw : Firmware) :
    Prop where
  only : ∀ es link, Events.run (Link.step residue) (Link.start (sendPacket p) fw) es = some link →
    link.dispatched = [] ∨ link.dispatched = [(⟨0, 0⟩, p.command.ordinal)]
  done : ∀ es link, Events.run (Link.step residue) (Link.start (sendPacket p) fw) es = some link →
    link.Settled → link.dispatched = [(⟨0, 0⟩, p.command.ordinal)]

theorem dispatchesOnce_of_oneCommand {p : Packet} (fw : Firmware)
    (hp : OneCommand p.packet p.command.ordinal) : DispatchesOnce residue p fw := by
  have hstage : ∀ es link,
      Events.run (Link.step residue) (Link.start (sendPacket p) fw) es = some link →
        Stage p p.command.ordinal link := fun es link hrun =>
    Events.invariant (fun _ _ _ h hstep => h.step hp hstep)
      (.unsent rfl rfl rfl rfl rfl) hrun
  constructor
  · intro es link hrun
    cases hstage es link hrun with
    | unsent _ _ _ _ hlog => exact Or.inl hlog
    | sent _ _ hflow => exact hflow.log_cases
  · intro es link hrun hsettled
    cases hstage es link hrun with
    | unsent _ hreq => exact absurd (hreq.symm.trans hsettled.requests) (by decide)
    | sent _ _ hflow =>
      rw [hsettled.outPipe, hsettled.ctrlInQ] at hflow
      exact hflow.settled

/-! ### Runs that deliver every packet -/

def commandOverOnes (x : Origin × List UInt8) : Option (Origin × UInt8) :=
  if (rxFrame ones x.2).length = 0 then none else some (x.1, (rxFrame ones x.2).cmd)

theorem writes_end {α : Type} (residue : List UInt8 → List UInt8) (timeLeft : Nat)
    (link : Link α) {origin : Origin} {reply : List UInt8}
    (htask : link.task = .writing origin reply timeLeft) :
    ∃ es ep, Events.run (Link.step residue) link es =
      some { link with task := .idle, inEp := ep } := by
  induction timeLeft generalizing link with
  | zero =>
    refine ⟨[.write], link.inEp.or (some (origin, reply)), ?_⟩
    simp [Link.step, htask]
  | succ n ih =>
    -- the endpoint may be held by an earlier reply; then the attempts run out
    by_cases hretry : usbdEpWritePacket link.inEp.isNone reply = 0 ∧ 1 < n + 1
    · obtain ⟨es, ep, hrun⟩ := ih { link with
        inEp := link.inEp.or (some (origin, reply)), task := .writing origin reply n } rfl
      refine ⟨.write :: es, ep, ?_⟩
      rw [Events.run_cons, Link.step, htask]
      simp only [hretry, and_self, if_true, Option.bind_some]
      exact hrun
    · refine ⟨[.write], link.inEp.or (some (origin, reply)), ?_⟩
      simp only [Events.run_cons, Link.step, htask, hretry, if_false, Option.bind_some,
        Events.run_nil]

theorem deliver {α : Type} (residue : List UInt8 → List UInt8) (link : Link α)
    {origin : Origin} {packet : List UInt8} {pipe : List (Origin × List UInt8)} (hne : packet ≠ [])
    (hpipe : link.outPipe = (origin, packet) :: pipe) (hqueue : link.ctrlInQ = [])
    (htask : link.task = .idle) :
    ∃ es fw ep, Events.run (Link.step residue) link es = some { link with
      outPipe := pipe, firmware := fw, inEp := ep,
      dispatched := link.dispatched ++ (commandOverOnes (origin, packet)).toList } := by
  let queued : Link α := { link with
    outPipe := pipe, ctrlInQ := [(origin, rxFrame ones packet)] }
  have hrx : link.step residue (.rx ones) = some queued := by
    simp only [Link.step, hpipe, bulkctrlDataRxCb_of_ne_nil ones hne, hqueue]
    rfl
  have hidle : queued.task = .idle := htask
  have hhead : queued.ctrlInQ = [(origin, rxFrame ones packet)] := rfl
  let fw := (link.firmware.handle (rxFrame ones packet)).firmware
  by_cases hz : (rxFrame ones packet).length = 0
  · refine ⟨[.rx ones, .take], fw, link.inEp, ?_⟩
    rw [Events.run_cons, hrx, Option.bind_some, Events.run_cons,
      Link.take_silent residue hidle hhead hz, commandOverOnes, if_pos hz, Option.toList_none,
      List.append_nil, ← hqueue]
    rfl
  · obtain ⟨buff, hreply, -⟩ := link.firmware.handle_reply hz
    obtain ⟨es, ep, hrun⟩ := writes_end residue waitIfFull { queued with
      ctrlInQ := [], firmware := fw, task := .writing origin (wireBytes buff) waitIfFull
      dispatched := link.dispatched ++ [(origin, (rxFrame ones packet).cmd)] } rfl
    refine ⟨.rx ones :: .take :: es, fw, ep, ?_⟩
    rw [Events.run_cons, hrx, Option.bind_some, Events.run_cons,
      Link.take_reply residue hidle hhead hreply, Option.bind_some, commandOverOnes, if_neg hz,
      Option.toList_some]
    apply hrun.trans
    rw [← hqueue, ← htask]

/-- All packets in the pipe go through an idle firmware, one after another over a stack of ones. -/
theorem deliver_all {α : Type} (residue : List UInt8 → List UInt8)
    (pipe : List (Origin × List UInt8)) (link : Link α)
    (hne : ∀ x ∈ pipe, x.2 ≠ []) (hpipe : link.outPipe = pipe) (hqueue : link.ctrlInQ = [])
    (htask : link.task = .idle) :
    ∃ es fw ep, Events.run (Link.step residue) link es = some { link with
      outPipe := [], firmware := fw, inEp := ep,
      dispatched := link.dispatched ++ pipe.filterMap commandOverOnes } := by
  induction pipe generalizing link with
  | nil =>
    refine ⟨[], link.firmware, link.inEp, ?_⟩
    rw [Events.run_nil, List.filterMap_nil, List.append_nil, ← hpipe]
  | cons x pipe ih =>
    obtain ⟨hx, hne⟩ := List.forall_mem_cons.mp hne
    obtain ⟨es, fw, ep, hrun⟩ := deliver residue link hx hpipe hqueue htask
    obtain ⟨fs, fw', ep', hrun'⟩ := ih { link with
      outPipe := pipe, firmware := fw, inEp := ep,
      dispatched := link.dispatched ++ (commandOverOnes x).toList } hne rfl hqueue htask
    refine ⟨es ++ fs, fw', ep', ?_⟩
    rw [Events.run_append, hrun, Option.bind_some, hrun', List.append_assoc]
    congr 3
    cases h : commandOverOnes x with
    | none => rw [List.filterMap_cons_none h]; rfl
    | some y => rw [List.filterMap_cons_some h]; rfl

theorem settled_run (residue : List UInt8 → List UInt8) (p : Packet) (fw : Firmware) :
    ∃ es link, Events.run (Link.step residue) (Link.start (sendPacket p) fw) es = some link ∧
      link.Settled ∧ link.dispatched = (outPackets 0 p.packet).filterMap commandOverOnes := by
  obtain ⟨next, hask, -⟩ := sendPacket_eq p
  let sent : Link (Status × Packet) := { Link.start (sendPacket p) fw with
    host := .waiting 0 next, requests := 1, outPipe := outPackets 0 p.packet }
  have hsend : (Link.start (sendPacket p) fw).step residue .send = some sent := by
    rw [hask]
    rfl
  obtain ⟨es, fw', ep, hrun⟩ := deliver_all residue (outPackets 0 p.packet) sent
    (fun x hx => usbPackets_ne_nil (outPackets_packet hx)) rfl rfl rfl
  have hfull : Events.run (Link.step residue) (Link.start (sendPacket p) fw) (.send :: es) =
      Events.run (Link.step residue) sent es := by
    rw [Events.run_cons, hsend, Option.bind_some]
  exact ⟨.send :: es, _, hfull.trans hrun, ⟨rfl, rfl, rfl⟩, List.nil_append _⟩

/-! ### Which payloads are safe -/

theorem oneCommand_frame (c : UInt8) {payload : List UInt8}
    (hlen : (payload.length + 6) % 65536 ≠ 0) (hlater : LaterLengthsZero payload) :
    OneCommand (frame c payload) c where
  ne_nil := by simp [frame, packC]
  first stale := by
    obtain ⟨hfield, hcmd⟩ := rxFrame_first stale c payload
    refine ⟨fun hz => hlen ?_, hcmd⟩
    rw [hfield] at hz
    exact (UInt16.toNat_ofNat' ..).symm.trans (congrArg UInt16.toNat hz)
  later packet hpacket :=
    inert_of_length_field (usbPackets_length_le (List.mem_of_mem_tail hpacket))
      ((laterPackets_iff c payload).mpr hlater packet hpacket)

theorem settled_dispatched {bytes : List UInt8} {c : UInt8} (hne : bytes ≠ [])
    (h : (outPackets 0 bytes).filterMap commandOverOnes = [(⟨0, 0⟩, c)]) :
    (rxFrame ones (bytes.take 64)).length ≠ 0 ∧
      ∀ packet ∈ (usbPackets bytes).tail, (rxFrame ones packet).length = 0 := by
  rw [outPackets_cons 0 hne] at h
  -- only the first packet has the origin `⟨0, 0⟩`
  cases hfirst : commandOverOnes (⟨0, 0⟩, bytes.take 64) with
  | none =>
    rw [List.filterMap_cons_none hfirst] at h
    have hmem := h ▸ List.mem_singleton_self (_, c)
    obtain ⟨x, hx, hcmd⟩ := List.mem_filterMap.mp hmem
    obtain ⟨k, hk, rfl⟩ := List.mem_mapIdx.mp hx
    rw [commandOverOnes] at hcmd
    split at hcmd
    · cases hcmd
    · simp at hcmd
  | some y =>
    rw [List.filterMap_cons_some hfirst] at h
    have htail := (List.cons.inj h).2
    constructor
    · intro hz
      simp [commandOverOnes, hz] at hfirst
    · intro packet hpacket
      obtain ⟨k, hk, rfl⟩ := List.getElem_of_mem hpacket
      have hnone := List.filterMap_eq_nil_iff.mp htail _ (List.mem_mapIdx.mpr ⟨k, hk, rfl⟩)
      rw [commandOverOnes] at hnone
      split at hnone
      · assumption
      · cases hnone

theorem frame_fields_of_dispatchesOnce {p : Packet} {c : UInt8} {payload : List UInt8}
    {fw : Firmware} (hp : p.packet = frame c payload) (h : DispatchesOnce residue p fw) :
    (payload.length + 6) % 65536 ≠ 0 ∧ LaterLengthsZero payload := by
  obtain ⟨es, link, hrun, hsettled, hlog⟩ := settled_run residue p fw
  rw [h.done es link hrun hsettled, hp] at hlog
  obtain ⟨hfirst, hlater⟩ := settled_dispatched (by simp [frame, packC]) hlog.symm
  constructor
  · intro hz
    apply hfirst
    rw [(rxFrame_first ones c payload).1, ← UInt16.toNat_inj, UInt16.toNat_ofNat']
    exact hz
  · rw [← laterPackets_iff c]
    intro packet hpacket
    exact length_field_of_ones (usbPackets_length_le (List.mem_of_mem_tail hpacket))
      (hlater packet hpacket)

/-- One request executes one command if and only if the length field of its frame is not zero and
those of its later packets are. -/
theorem one_command_iff (residue : List UInt8 → List UInt8) (fw : Firmware) (command : Command)
    (payload : List UInt8) :
    DispatchesOnce residue (.make command payload) fw ↔
      (payload.length + 6) % 65536 ≠ 0 ∧ LaterLengthsZero payload := by
  constructor
  · exact frame_fields_of_dispatchesOnce rfl
  · intro h
    rcases h with ⟨hlen, hlater⟩
    exact dispatchesOnce_of_oneCommand fw (oneCommand_frame command.ordinal hlen hlater)

/-- An echo of 58 zeros and the bytes of an ERASEALL packet erases the EEPROM. -/
theorem payload_executed :
    ¬ DispatchesOnce (fun _ => []) (.make .echo (List.replicate 58 0 ++ [1, 6, 0, 16, 0, 0]))
      (.powerUp (fun _ => 0xFF) fun _ => 0) := by
  intro h
  obtain ⟨es, link, hrun, hsettled, hlog⟩ := settled_run (fun _ => [])
    (.make .echo (List.replicate 58 0 ++ [1, 6, 0, 16, 0, 0]))
    (.powerUp (fun _ => 0xFF) fun _ => 0)
  have heraseall : link.dispatched = [(⟨0, 0⟩, 4), (⟨0, 1⟩, 16)] := hlog.trans (by decide)
  have honly := h.only es link hrun
  rw [heraseall] at honly
  exact absurd honly (by decide)

/-- A payload that leaves the frame within one packet is safe. -/
theorem dispatchesOnce_of_short (fw : Firmware) (command : Command) {payload : List UInt8}
    (h58 : payload.length ≤ 58) : DispatchesOnce residue (.make command payload) fw := by
  apply dispatchesOnce_of_oneCommand
  exact oneCommand_frame command.ordinal (by omega) fun k hk => by omega

end UsbSpdt
