import UsbSpdt.Host.Eeprom
import UsbSpdt.Link.Model

/-!
# Whose reply a call gets

Nothing in a reply says which request it answers. While no `bulk_read` gives up and every request
fits one USB packet, at most one request is under way, and the link is a device that answers at
once. A reply that comes too late is taken for the reply to the next request.
-/

namespace UsbSpdt

open AttenSwitch

variable {α : Type} (residue : List UInt8 → List UInt8)

/-- The session `p` with the firmware `fw` ends as `p₀` with `fw₀` does, on some stack, with a
device that answers at once. -/
def Tracks (p₀ : Session α) (fw₀ : Firmware) (p : Session α) (fw : Firmware) : Prop :=
  ∀ stale, ∃ stale₀, p₀.run (Device.serve residue) ⟨fw₀, none, stale₀⟩ =
    p.run (Device.serve residue) ⟨fw, none, stale⟩

theorem Firmware.reply_ne_nil {fw : Firmware} {item : Item} {reply : List UInt8}
    (h : (fw.handle item).reply = some reply) : reply ≠ [] := by
  by_cases hz : item.length = 0
  · rw [Firmware.handle_silent fw hz] at h
    cases h
  · obtain ⟨buff, hreply, hbuff⟩ := fw.handle_reply hz
    obtain rfl : wireBytes buff = reply := Option.some.inj (hreply.symm.trans h)
    exact wireBytes_ne_nil hbuff

def staleCons (stale : Item) (later : Nat → Item) : Nat → Item
  | 0 => stale
  | n + 1 => later n

theorem Tracks.exchange {p₀ : Session α} {fw₀ fw : Firmware} {bytes reply : List UInt8}
    {next : List UInt8 → Session α} {stale : Item}
    (h : Tracks residue p₀ fw₀ (.ask bytes next) fw) (hne : bytes ≠ []) (h64 : bytes.length ≤ 64)
    (hreply : (fw.handle (rxFrame stale bytes)).reply = some reply) :
    Tracks residue p₀ fw₀ (next (bulkRead residue reply))
      (fw.handle (rxFrame stale bytes)).firmware := by
  intro later
  -- the callback of this exchange finds `stale`, those of the rest of the session find `later`
  obtain ⟨stale₀, hrun⟩ := h (staleCons stale later)
  have hreceive : Device.receive ⟨fw, none, staleCons stale later⟩ bytes =
      ⟨(fw.handle (rxFrame stale bytes)).firmware, some reply, later⟩ :=
    Device.receive_of_reply rfl hne (Firmware.reply_ne_nil hreply) hreply
  have hserve : Device.serve residue ⟨fw, none, staleCons stale later⟩ bytes =
      (bulkRead residue reply, ⟨(fw.handle (rxFrame stale bytes)).firmware, none, later⟩) := by
    rw [Device.serve, usbPackets_single (List.length_pos_iff.mpr hne) h64]
    simp only [List.foldl_cons, List.foldl_nil, hreceive]
    rfl
  refine ⟨stale₀, hrun.trans ?_⟩
  rw [Dialogue.run, hserve]

/-- Nothing is under way while the host does not wait. While it waits, only its request or the
reply to that is, or nothing because the firmware has dropped the request. -/
inductive Alone (p₀ : Session α) (fw₀ : Firmware) :
    HostState α → List (Origin × List UInt8) → List (Origin × Item) → TaskState →
      Option (Origin × List UInt8) → Firmware → Prop where
  | ready {p fw} (hp : Tracks residue p₀ fw₀ p fw) :
      Alone p₀ fw₀ (.running p) [] [] .idle none fw
  | dropped {request next fw} : Alone p₀ fw₀ (.waiting request next) [] [] .idle none fw
  | piped {request next fw} {bytes : List UInt8} (hne : bytes ≠ []) (h64 : bytes.length ≤ 64)
      (hp : Tracks residue p₀ fw₀ (.ask bytes next) fw) :
      Alone p₀ fw₀ (.waiting request next) [(⟨request, 0⟩, bytes)] [] .idle none fw
  | queued {request next fw} {item : Item}
      (hp : ∀ reply, (fw.handle item).reply = some reply →
        Tracks residue p₀ fw₀ (next (bulkRead residue reply)) (fw.handle item).firmware) :
      Alone p₀ fw₀ (.waiting request next) [] [(⟨request, 0⟩, item)] .idle none fw
  | answered {request next fw reply timeLeft} (hne : reply ≠ [])
      (hp : Tracks residue p₀ fw₀ (next (bulkRead residue reply)) fw) :
      Alone p₀ fw₀ (.waiting request next) [] [] (.writing ⟨request, 0⟩ reply timeLeft) none fw
  | held {request next fw reply}
      (hp : Tracks residue p₀ fw₀ (next (bulkRead residue reply)) fw) :
      Alone p₀ fw₀ (.waiting request next) [] [] .idle (some (⟨request, 0⟩, reply)) fw

namespace Alone

variable {residue} {p₀ : Session α} {fw₀ fw : Firmware} {host : HostState α}
  {pipe : List (Origin × List UInt8)} {queue : List (Origin × Item)} {task : TaskState}
  {inEp : Option (Origin × List UInt8)} {origin : Origin} {item : Item} {reply : List UInt8}

theorem send {bytes : List UInt8} {next : List UInt8 → Session α} (request : Nat)
    (h : Alone residue p₀ fw₀ (.running (.ask bytes next)) pipe queue task inEp fw)
    (h64 : bytes.length ≤ 64) :
    Alone residue p₀ fw₀ (.waiting request next) (pipe ++ outPackets request bytes) queue task
      inEp fw := by
  cases h with
  | ready hp =>
    by_cases hne : bytes = []
    · subst hne
      exact .dropped
    · have hpackets : outPackets request bytes = [(⟨request, 0⟩, bytes)] := by
        rw [outPackets, usbPackets_single (List.length_pos_iff.mpr hne) h64]
        rfl
      rw [hpackets]
      exact .piped hne h64 hp

theorem rx {packet : List UInt8} (stale : Item)
    (h : Alone residue p₀ fw₀ host ((origin, packet) :: pipe) queue task inEp fw) :
    Alone residue p₀ fw₀ host pipe (match bulkctrlDataRxCb stale packet with
      | none => queue
      | some item => xQueueSend queue (origin, item)) task inEp fw := by
  cases h with
  | piped hne h64 hp =>
    rw [bulkctrlDataRxCb_of_ne_nil stale hne]
    exact .queued fun reply hreply => hp.exchange residue hne h64 hreply

theorem take_none (h : Alone residue p₀ fw₀ host pipe ((origin, item) :: queue) .idle inEp fw) :
    Alone residue p₀ fw₀ host pipe queue .idle inEp (fw.handle item).firmware := by
  cases h with
  | queued hp => exact .dropped

theorem take_some (h : Alone residue p₀ fw₀ host pipe ((origin, item) :: queue) .idle inEp fw)
    (hreply : (fw.handle item).reply = some reply) :
    Alone residue p₀ fw₀ host pipe queue (.writing origin reply waitIfFull) inEp
      (fw.handle item).firmware := by
  cases h with
  | queued hp => exact .answered (Firmware.reply_ne_nil hreply) (hp reply hreply)

theorem write {timeLeft : Nat}
    (h : Alone residue p₀ fw₀ host pipe queue (.writing origin reply timeLeft) inEp fw) :
    Alone residue p₀ fw₀ host pipe queue
      (if usbdEpWritePacket inEp.isNone reply = 0 ∧ 1 < timeLeft then
        .writing origin reply (timeLeft - 1) else .idle) (inEp.or (some (origin, reply))) fw := by
  cases h with
  | answered hne hp =>
    have htaken : ¬ (usbdEpWritePacket true reply = 0 ∧ 1 < timeLeft) := by
      simp [usbdEpWritePacket, hne]
    rw [Option.isNone_none, if_neg htaken]
    exact .held hp

theorem read {request : Nat} {next : List UInt8 → Session α}
    (h : Alone residue p₀ fw₀ (.waiting request next) pipe queue task (some (origin, reply)) fw) :
    origin = ⟨request, 0⟩ ∧
      Alone residue p₀ fw₀ (.running (next (bulkRead residue reply))) pipe queue task none fw := by
  cases h with
  | held hp => exact ⟨rfl, .ready hp⟩

end Alone

/-- The link keeps to one request at a time, and every call so far has got its own reply. -/
structure InTurn (p₀ : Session α) (fw₀ : Firmware) (link : Link α) : Prop where
  alone : Alone residue p₀ fw₀ link.host link.outPipe link.ctrlInQ link.task link.inEp
    link.firmware
  returned : ∀ ret ∈ link.returned, ret.2 = some ⟨ret.1, 0⟩

/-- The request fits one USB packet, and `bulk_read` does not give up. -/
def Prompt (link : Link α) : Link.Event → Prop
  | .send => ∀ bytes next, link.host = .running (.ask bytes next) → bytes.length ≤ 64
  | .timeout => False
  | _ => True

variable {residue}

theorem InTurn.start (session : Session α) (fw : Firmware) :
    InTurn residue session fw (.start session fw) where
  alone := .ready fun stale => ⟨stale, rfl⟩
  returned _ h := absurd h List.not_mem_nil

theorem InTurn.step {p₀ : Session α} {fw₀ : Firmware} {link link' : Link α} {e : Link.Event}
    (h : InTurn residue p₀ fw₀ link) (he : Prompt link e)
    (hstep : link.step residue e = some link') : InTurn residue p₀ fw₀ link' := by
  obtain ⟨halone, hreturned⟩ := h
  cases e with
  | send =>
    obtain ⟨bytes, next, hhost, rfl⟩ := Link.step_send hstep
    exact ⟨(hhost ▸ halone).send link.requests (he bytes next hhost), hreturned⟩
  | rx stale =>
    obtain ⟨origin, packet, pipe, hpipe, rfl⟩ := Link.step_rx hstep
    exact ⟨(hpipe ▸ halone).rx stale, hreturned⟩
  | take =>
    obtain ⟨origin, item, queue, htask, hqueue, rfl⟩ := Link.step_take hstep
    rw [htask, hqueue] at halone
    cases hreply : (link.firmware.handle item).reply with
    | none => exact ⟨htask ▸ halone.take_none, hreturned⟩
    | some reply => exact ⟨halone.take_some hreply, hreturned⟩
  | write =>
    obtain ⟨origin, reply, timeLeft, htask, rfl⟩ := Link.step_write hstep
    exact ⟨(htask ▸ halone).write, hreturned⟩
  | read =>
    obtain ⟨request, next, origin, reply, hhost, hep, rfl⟩ := Link.step_read hstep
    rw [hhost, hep] at halone
    obtain ⟨rfl, hready⟩ := halone.read
    refine ⟨hready, List.forall_mem_append.mpr ⟨hreturned, ?_⟩⟩
    simp
  | timeout => exact absurd he id

theorem InTurn.run {session : Session α} {fw : Firmware} {es : List Link.Event} {link : Link α}
    (hg : Events.Guarded (Link.step residue) Prompt (.start session fw) es)
    (hrun : Events.run (Link.step residue) (.start session fw) es = some link) :
    InTurn residue session fw link :=
  Events.guarded_invariant (fun _ _ _ h he hstep => h.step he hstep) (.start session fw) hg hrun

/-! ### Reading the EEPROM over the link -/

/-- A session that reads the EEPROM at an address and of a length that it has found out. -/
def readAfter (session : Session α) (addr nbytes : α → Nat) : Session (α × List UInt8) := do
  let a ← session
  let bytes ← readEE (addr a) (nbytes a)
  pure (a, bytes)

theorem run_readAfter {session : Session α} {addr nbytes : α → Nat} {d t : Device} {a : α}
    {bytes : List UInt8} (hidle : d.inEp = none)
    (hrun : (readAfter session addr nbytes).run (Device.serve residue) d = some ((a, bytes), t)) :
    bytes = CyclicMemory.fetch t.image (addr a) (nbytes a) := by
  rw [readAfter, Dialogue.run_bind, Option.bind_eq_some_iff] at hrun
  obtain ⟨⟨a', d'⟩, hsession, hread⟩ := hrun
  have hserve : ∀ (s : Device) bytes, s.inEp = none → (s.serve residue bytes).2.inEp = none :=
    fun _ _ _ => rfl
  have hidle' : d'.inEp = none := Dialogue.run_invariant hserve hidle hsession
  have hensures : Dialogue.Ensures (Device.serve residue)
      (readEE (addr a') (nbytes a') >>= fun bytes => pure (a', bytes)) d' fun r u =>
        r.1 = a' ∧ r.2 = CyclicMemory.fetch u.image (addr a') (nbytes a') := by
    apply Dialogue.ensures_bind
    apply (ensures_readEE residue ⟨hidle', rfl⟩ (addr a') (nbytes a')).mono
    intro bytes u h
    refine Dialogue.ensures_pure ⟨rfl, ?_⟩
    rw [h.2.image]
    exact h.1
  obtain ⟨rfl, hbytes⟩ := hensures.unique hread
  exact hbytes

/-- While no `bulk_read` gives up and every request fits one USB packet, each call that returns gets
the reply to its own request, and `readEE` returns the content of the addresses it was asked for. -/
theorem own_reply_without_timeout {session : Session α} {addr nbytes : α → Nat} {fw : Firmware}
    {es : List Link.Event} {link : Link (α × List UInt8)}
    (hg : Events.Guarded (Link.step residue) Prompt (.start (readAfter session addr nbytes) fw) es)
    (hrun : Events.run (Link.step residue) (.start (readAfter session addr nbytes) fw) es =
      some link) :
    (∀ ret ∈ link.returned, ret.2 = some ⟨ret.1, 0⟩) ∧
      ∀ a bytes, link.host = .running (.done (a, bytes)) →
        bytes.length = nbytes a ∧ ∀ k < nbytes a,
          bytes[k]? = some (CyclicMemory.read link.firmware.eeprom.image (addr a + k)) := by
  have hturn := InTurn.run hg hrun
  refine ⟨hturn.returned, fun a bytes hhost => ?_⟩
  have halone := hturn.alone
  rw [hhost] at halone
  generalize link.outPipe = pipe, link.ctrlInQ = queue, link.task = task, link.inEp = ep at halone
  cases halone with
  | ready hp =>
    -- any stack will do: the session is over
    obtain ⟨stale₀, htracks⟩ := hp fun _ _ => 0
    have hbytes : bytes = CyclicMemory.fetch link.firmware.eeprom.image (addr a) (nbytes a) :=
      run_readAfter rfl htracks
    subst hbytes
    refine ⟨CyclicMemory.fetch_length .., fun k hk => ?_⟩
    rw [List.getElem?_eq_getElem (by simpa using hk), CyclicMemory.fetch_getElem]

/-- What the session has ended with. -/
def HostState.result : HostState α → Option α
  | .running (.done a) => some a
  | _ => none

theorem HostState.result_eq_some {host : HostState α} {a : α} (h : host.result = some a) :
    host = .running (.done a) := by
  unfold result at h
  split at h
  · rw [Option.some.inj h]
  · cases h

/-- `Prompt` as a check on the next event. -/
def isPrompt (link : Link α) : Link.Event → Bool
  | .send =>
    match link.host with
    | .running (.ask bytes _) => bytes.length ≤ 64
    | _ => true
  | .timeout => false
  | _ => true

theorem prompt_of_isPrompt {link : Link α} {e : Link.Event} (h : isPrompt link e = true) :
    Prompt link e := by
  cases e with
  | send =>
    intro bytes next hhost
    simpa only [isPrompt, hhost, decide_eq_true_eq] using h
  | timeout => cases h
  | _ => trivial

/-- Two requests, one for each byte. -/
def twoRequests : List Link.Event :=
  [.send, .rx fun _ => 0, .take, .write, .read, .send, .rx fun _ => 0, .take, .write, .read]

def twoBytes : Firmware := .powerUp (fun i => if i = 0 then 0x41 else 0x42) fun _ => 0

def readBoth : Session (Unit × List UInt8) := readAfter (pure ()) (fun _ => 0) fun _ => 2

theorem run_twoRequests :
    Events.holdsAlong (Link.step fun _ => []) isPrompt (.start readBoth twoBytes) twoRequests =
        true ∧
      (Events.run (Link.step fun _ => []) (.start readBoth twoBytes) twoRequests).map
        (fun link => (link.host.result, link.returned.length)) =
          some (some ((), [0x41, 0x42]), 2) := by
  decide +kernel

/-- The session is over, and each of its two requests has got its own reply. -/
theorem own_reply_two_bytes :
    ∃ link : Link (Unit × List UInt8),
      Events.run (Link.step fun _ => []) (.start readBoth twoBytes) twoRequests = some link ∧
      link.host = .running (.done ((), [0x41, 0x42])) ∧ link.returned.length = 2 ∧
      (∀ ret ∈ link.returned, ret.2 = some ⟨ret.1, 0⟩) ∧
      ∀ k < 2, [0x41, 0x42][k]? = some (CyclicMemory.read link.firmware.eeprom.image (0 + k)) := by
  obtain ⟨hprompt, hend⟩ := run_twoRequests
  obtain ⟨link, hrun, hfacts⟩ := Option.map_eq_some_iff.mp hend
  obtain ⟨hresult, hcount⟩ := Prod.mk.inj hfacts
  have hdone := HostState.result_eq_some hresult
  have hown := own_reply_without_timeout
    (Events.guarded_of_holdsAlong (fun _ _ => prompt_of_isPrompt) hprompt) hrun
  exact ⟨link, hrun, hdone, hcount, hown.1, (hown.2 () [0x41, 0x42] hdone).2⟩

/-! ### A reply that comes too late -/

def readTwice : Session (List UInt8) := do
  let _ ← Dialogue.attempt (readEE 0 1)
  readEE 1 1

theorem readTwice_waiting (fw : Firmware) (stale : Item) :
    ∃ link : Link (List UInt8), Events.run (Link.step fun _ => []) (.start readTwice fw)
        [.send, .rx stale, .timeout, .send, .rx stale] = some link ∧
      link.task = .idle ∧ link.inEp = none ∧ link.firmware = fw ∧ link.returned = [(0, none)] ∧
      (∃ queue, link.ctrlInQ =
        (⟨0, 0⟩, rxFrame stale (frame PktType.readee.toByte (packV 0))) :: queue) ∧
      ∃ next, link.host = .waiting 1 next ∧ ∀ bytes rx, Packet.fromBytes bytes = some rx →
        next bytes = .done ((rx.payload.drop 2).take 1) := by
  refine ⟨_, rfl, rfl, rfl, rfl, rfl, ⟨_, rfl⟩, _, rfl, fun bytes rx hrx => ?_⟩
  simp only [Dialogue.bind, hrx]
  change Dialogue.done ((rx.payload.drop 2).take 1 ++ []) = _
  rw [List.append_nil]

theorem run_answer (residue : List UInt8 → List UInt8) {link : Link α} {origin : Origin}
    {item : Item}
    {queue : List (Origin × Item)} {request : Nat} {next : List UInt8 → Session α}
    {reply : List UInt8} (htask : link.task = .idle) (hep : link.inEp = none)
    (hqueue : link.ctrlInQ = (origin, item) :: queue) (hhost : link.host = .waiting request next)
    (hreply : (link.firmware.handle item).reply = some reply) :
    ∃ link', Events.run (Link.step residue) link [.take, .write, .read] = some link' ∧
      link'.host = .running (next (bulkRead residue reply)) ∧
      link'.returned = link.returned ++ [(request, some origin)] ∧
      link'.firmware = (link.firmware.handle item).firmware := by
  refine ⟨{ link with
    host := .running (next (bulkRead residue reply)), ctrlInQ := queue
    task := if usbdEpWritePacket true reply = 0 ∧ 1 < waitIfFull then
      .writing origin reply (waitIfFull - 1) else .idle
    inEp := none, firmware := (link.firmware.handle item).firmware
    dispatched := link.dispatched ++ [(origin, item.cmd)]
    returned := link.returned ++ [(request, some origin)] }, ?_, rfl, rfl, rfl⟩
  rw [Events.run_cons, Link.take_reply residue htask hqueue hreply, Option.bind_some]
  simp only [Events.run_cons, Link.step, hep, hhost, Option.isNone_none, Option.bind_some,
    Option.none_or, Events.run_nil]

theorem readTwice_returns (fw : Firmware) (stale : Item) :
    ∃ es, ∃ link : Link (List UInt8),
      Events.run (Link.step fun _ => []) (.start readTwice fw) es = some link ∧
      link.returned = [(0, none), (1, some ⟨0, 0⟩)] ∧
      link.host = .running (.done [CyclicMemory.read fw.eeprom.image 0]) ∧
      link.firmware.eeprom.image = fw.eeprom.image := by
  obtain ⟨link, hrun, htask, hep, rfl, hreturned, ⟨queue, hqueue⟩, next, hhost, hnext⟩ :=
    readTwice_waiting fw stale
  obtain ⟨reply, hreply, h6, hcmd, -⟩ := serve_frame (fun _ => [])
    (show (Device.mk link.firmware none fun _ => stale).inEp = none from rfl)
    PktType.readee.toByte (by decide : (packV 0).length ≤ 58)
  obtain ⟨link', hrun', hhost', hreturned', hfirmware⟩ :=
    run_answer (fun _ => []) htask hep hqueue hhost hreply
  have hbyte := readee_reply_byte link.firmware stale 0
  rw [hreply] at hbyte
  have hall := Events.run_append (Link.step fun _ => []) (.start readTwice link.firmware)
    [.send, .rx stale, .timeout, .send, .rx stale] [.take, .write, .read]
  rw [hrun, Option.bind_some, hrun'] at hall
  have himage := after_readee ⟨link.firmware, none, fun _ => stale⟩ 0
  simp only [Device.image, Device.after] at himage
  rw [← hfirmware] at himage
  refine ⟨_, link', hall, ?_, ?_, himage⟩
  · rw [hreturned', hreturned]
    rfl
  · rw [hhost', hnext _ _ (fromBytes_bulkRead _ h6 hcmd)]
    dsimp only
    rw [List.drop_drop, bulkRead, take_one_drop_append _ hbyte]

/-- With a slow firmware a host that has given up once gets the wrong byte. -/
theorem late_reply_misread :
    ∃ es, ∃ link : Link (List UInt8),
      Events.run (Link.step fun _ => []) (.start readTwice
        (.powerUp (fun i => if i = 0 then 0x41 else 0x42) fun _ => 0)) es = some link ∧
      (1, some ⟨0, 0⟩) ∈ link.returned ∧ link.host = .running (.done [0x41]) ∧
      CyclicMemory.read link.firmware.eeprom.image 1 = 0x42 := by
  obtain ⟨es, link, hrun, hreturned, hhost, himage⟩ := readTwice_returns
    (.powerUp (fun i => if i = 0 then 0x41 else 0x42) fun _ => 0) fun _ => 0
  refine ⟨es, link, hrun, ?_, hhost, ?_⟩
  · rw [hreturned]
    simp
  · rw [himage]
    rfl

end UsbSpdt
