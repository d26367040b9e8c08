import UsbSpdt.Library.Events
import UsbSpdt.Host.Device

/-!
# The link between host and firmware

The host, the OUT pipe, `CTRLinQ`, the instrument task and the IN endpoint, which take their steps
in any order. What is under way carries its origin, at which no party looks.
-/

namespace UsbSpdt

/-- The request that something belongs to, and the place of its USB packet in the request. -/
structure Origin where
  request : Nat
  piece : Nat
  deriving DecidableEq, Repr

inductive HostState (α : Type) where
  | running (p : AttenSwitch.Session α)
  | waiting (request : Nat) (next : List UInt8 → AttenSwitch.Session α)

/-- The instrument task waits for a packet, or is in `writePacket`. -/
inductive TaskState where
  | idle
  | writing (origin : Origin) (reply : List UInt8) (timeLeft : Nat)

structure Link (α : Type) where
  host : HostState α
  requests : Nat
  outPipe : List (Origin × List UInt8)
  ctrlInQ : List (Origin × Item)
  task : TaskState
  /-- The IN endpoint holds one packet until the host reads it. -/
  inEp : Option (Origin × List UInt8)
  firmware : Firmware
  dispatched : List (Origin × UInt8)
  /-- The requests whose `bulk_read` has returned, with what it returned unless it timed out. -/
  returned : List (Nat × Option Origin)

def ctrlInQLength : Nat := 2

/-- `xQueueSendFromISR`; a full queue takes nothing. -/
def xQueueSend {β : Type} (queue : List β) (item : β) : List β :=
  if queue.length < ctrlInQLength then queue ++ [item] else queue

def outPackets (request : Nat) (bytes : List UInt8) : List (Origin × List UInt8) :=
  (usbPackets bytes).mapIdx fun k packet => (⟨request, k⟩, packet)

namespace Link

variable {α : Type}

/-- A session with a device that has booted and has not been asked anything. -/
def start (session : AttenSwitch.Session α) (fw : Firmware) : Link α where
  host := .running session
  requests := 0
  outPipe := []
  ctrlInQ := []
  task := .idle
  inEp := none
  firmware := fw
  dispatched := []
  returned := []

inductive Event where
  /-- `bulk_write`. -/
  | send
  /-- `bulkctrl_data_rx_cb`, called with `stale` on the stack. -/
  | rx (stale : Item)
  /-- The task takes an item off the queue and runs it up to the answer. -/
  | take
  /-- One call of `usbd_ep_write_packet`. -/
  | write
  /-- `bulk_read` gets a packet. -/
  | read
  /-- `bulk_read` gives up. -/
  | timeout

def step (residue : List UInt8 → List UInt8) (link : Link α) : Event → Option (Link α)
  | .send =>
    match link.host with
    | .running (.ask bytes next) =>
      some { link with
        host := .waiting link.requests next
        requests := link.requests + 1
        outPipe := link.outPipe ++ outPackets link.requests bytes }
    | _ => none
  | .rx stale =>
    match link.outPipe with
    | [] => none
    | (origin, packet) :: outPipe =>
      match bulkctrlDataRxCb stale packet with
      | none => some { link with outPipe := outPipe }
      | some item =>
        some { link with
          outPipe := outPipe
          ctrlInQ := xQueueSend link.ctrlInQ (origin, item) }
  | .take =>
    match link.task, link.ctrlInQ with
    | .idle, (origin, item) :: ctrlInQ =>
      let round := link.firmware.handle item
      match round.reply with
      | none => some { link with ctrlInQ := ctrlInQ, firmware := round.firmware }
      | some reply =>
        some { link with
          ctrlInQ := ctrlInQ
          firmware := round.firmware
          task := .writing origin reply waitIfFull
          dispatched := link.dispatched ++ [(origin, item.cmd)] }
    | _, _ => none
  | .write =>
    match link.task with
    | .idle => none
    | .writing origin reply timeLeft =>
      let rval := usbdEpWritePacket link.inEp.isNone reply
      some { link with
        inEp := link.inEp.or (some (origin, reply))
        task := if rval = 0 ∧ 1 < timeLeft then .writing origin reply (timeLeft - 1) else .idle }
  | .read =>
    match link.host, link.inEp with
    | .waiting request next, some (origin, reply) =>
      some { link with
        host := .running (next (bulkRead residue reply))
        inEp := none
        returned := link.returned ++ [(request, some origin)] }
    | _, _ => none
  | .timeout =>
    match link.host with
    | .waiting request next =>
      some { link with
        host := .running (next (bulkRead residue []))
        returned := link.returned ++ [(request, none)] }
    | _ => none

/-! ### What a step can do -/

section Inversion

variable {residue : List UInt8 → List UInt8} {link link' : Link α}

theorem step_send (h : link.step residue .send = some link') :
    ∃ bytes next, link.host = .running (.ask bytes next) ∧
      link' = { link with
        host := .waiting link.requests next
        requests := link.requests + 1
        outPipe := link.outPipe ++ outPackets link.requests bytes } := by
  simp only [step] at h
  split at h
  case h_1 bytes next hhost => exact ⟨bytes, next, hhost, (Option.some.inj h).symm⟩
  case h_2 => cases h

theorem step_rx {stale : Item} (h : link.step residue (.rx stale) = some link') :
    ∃ origin packet outPipe, link.outPipe = (origin, packet) :: outPipe ∧
      link' = { link with
        outPipe := outPipe
        ctrlInQ := match bulkctrlDataRxCb stale packet with
          | none => link.ctrlInQ
          | some item => xQueueSend link.ctrlInQ (origin, item) } := by
  simp only [step] at h
  split at h
  case h_1 => cases h
  case h_2 origin packet outPipe hpipe =>
    refine ⟨origin, packet, outPipe, hpipe, ?_⟩
    split at h <;> exact (Option.some.inj h).symm

theorem step_take (h : link.step residue .take = some link') :
    ∃ origin item ctrlInQ, link.task = .idle ∧ link.ctrlInQ = (origin, item) :: ctrlInQ ∧
      link' = match (link.firmware.handle item).reply with
        | none => { link with
            ctrlInQ := ctrlInQ, firmware := (link.firmware.handle item).firmware }
        | some reply => { link with
            ctrlInQ := ctrlInQ
            firmware := (link.firmware.handle item).firmware
            task := .writing origin reply waitIfFull
            dispatched := link.dispatched ++ [(origin, item.cmd)] } := by
  simp only [step] at h
  split at h
  case h_1 origin item ctrlInQ htask hqueue =>
    refine ⟨origin, item, ctrlInQ, htask, hqueue, ?_⟩
    split at h <;> exact (Option.some.inj h).symm
  case h_2 => cases h

theorem step_write (h : link.step residue .write = some link') :
    ∃ origin reply timeLeft, link.task = .writing origin reply timeLeft ∧
      link' = { link with
        inEp := link.inEp.or (some (origin, reply))
        task := if usbdEpWritePacket link.inEp.isNone reply = 0 ∧ 1 < timeLeft then
          .writing origin reply (timeLeft - 1) else .idle } := by
  simp only [step] at h
  split at h
  case h_1 => cases h
  case h_2 origin reply timeLeft htask =>
    exact ⟨origin, reply, timeLeft, htask, (Option.some.inj h).symm⟩

theorem step_read (h : link.step residue .read = some link') :
    ∃ request next origin reply, link.host = .waiting request next ∧
      link.inEp = some (origin, reply) ∧
      link' = { link with
        host := .running (next (bulkRead residue reply))
        inEp := none
        returned := link.returned ++ [(request, some origin)] } := by
  simp only [step] at h
  split at h
  case h_1 request next origin reply hhost hep =>
    exact ⟨request, next, origin, reply, hhost, hep, (Option.some.inj h).symm⟩
  case h_2 => cases h

theorem step_timeout (h : link.step residue .timeout = some link') :
    ∃ request next, link.host = .waiting request next ∧
      link' = { link with
        host := .running (next (bulkRead residue []))
        returned := link.returned ++ [(request, none)] } := by
  simp only [step] at h
  split at h
  case h_1 request next hhost => exact ⟨request, next, hhost, (Option.some.inj h).symm⟩
  case h_2 => cases h

end Inversion

section Take

variable (residue : List UInt8 → List UInt8) {link : Link α} {origin : Origin} {item : Item}
  {queue : List (Origin × Item)}

theorem take_silent (htask : link.task = .idle) (hqueue : link.ctrlInQ = (origin, item) :: queue)
    (hz : item.length = 0) :
    link.step residue .take = some { link with
      ctrlInQ := queue, firmware := (link.firmware.handle item).firmware } := by
  have hreply : (link.firmware.handle item).reply = none := by rw [Firmware.handle_silent _ hz]
  simp only [step, htask, hqueue, hreply]

theorem take_reply (htask : link.task = .idle) (hqueue : link.ctrlInQ = (origin, item) :: queue)
    {reply : List UInt8} (hreply : (link.firmware.handle item).reply = some reply) :
    link.step residue .take = some { link with
      ctrlInQ := queue
      firmware := (link.firmware.handle item).firmware
      task := .writing origin reply waitIfFull
      dispatched := link.dispatched ++ [(origin, item.cmd)] } := by
  simp only [step, htask, hqueue, hreply]

end Take

end Link

end UsbSpdt
