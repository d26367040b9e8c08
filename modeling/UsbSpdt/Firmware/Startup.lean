import UsbSpdt.Boot.Stepwise
import UsbSpdt.Firmware.UsbInterrupt
import UsbSpdt.Link.Model
import UsbSpdt.Shell.TypedAhead

/-!
# The start of the firmware

`main` creates the tasks with one priority, and they run in any order from then on. The queues, the
semaphore and the device that they share are null until `vUSBCDCACMTask` has come to create them,
and the polarities are the compiled-in ones until its `readEEprom` has ended.
-/

namespace UsbSpdt

/-- What `vUSBCDCACMTask` sets, and the other tasks use. -/
inductive SharedHandle where
  | uartInQ | ctrlInQ | usbInterrupted | cdcacmDev
  deriving DecidableEq

/-- Where `vUSBCDCACMTask` stands; once it serves the interrupt, `UsbInterrupt` says where. -/
inductive UsbTask where
  | createUartInQ
  | createCtrlInQ
  | readEEprom (left : Program BootGlobals Unit)
  | serve

/-- Where `vDebugShell` stands: it writes its prompt or an echo, or is in `_read`. -/
inductive ShellPoint where
  | write
  | testUartInQ
  | xQueueReceive
  | boardUARTGetChar
  deriving DecidableEq

inductive InstrumentPoint where
  | waitConfigured
  | readPacket
  | writePacket
  deriving DecidableEq

namespace UsbTask

/-- What is left of `readEEprom`. -/
def left : UsbTask → Program BootGlobals Unit
  | .createUartInQ => BootTask.readEEprom
  | .createCtrlInQ => BootTask.readEEprom
  | .readEEprom left => left
  | .serve => pure ()

def serves : UsbTask → Bool
  | .serve => true
  | _ => false

end UsbTask

structure Startup where
  globals : BootGlobals
  usbTask : UsbTask
  usb : UsbInterrupt
  uartInQ : Option UartInQ
  ctrlInQ : Option (List Item)
  cdcacmDev : Bool
  usbConfigured : Bool
  shellPoint : ShellPoint
  rxbyte : UInt8
  shell : DebugShell BootGlobals
  instrument : InstrumentPoint
  /-- What each line and each packet found when the work on it began. -/
  found : List BootGlobals

namespace Startup

/-- The callbacks of `usbd_poll`. -/
inductive Callback where
  | setConfig
  | data (buf : List UInt8)
  | control (stale : Item) (received : List UInt8)

inductive Event where
  | usbTask
  | isr
  | callback (c : Callback)
  | shell
  | instrument

/-- The scheduler starts. -/
def start (cells : Image) (line : LineBuffer) : Startup where
  globals := (Boot.powerUp cells).globals
  usbTask := .createUartInQ
  usb := .start
  uartInQ := none
  ctrlInQ := none
  cdcacmDev := false
  usbConfigured := false
  shellPoint := .write
  rxbyte := 0
  shell := .prompt line (Boot.powerUp cells).globals []
  instrument := .waitConfigured
  found := []

/-! ### The tasks -/

def vUSBCDCACMTask (s : Startup) : Option Startup :=
  match s.usbTask with
  | .createUartInQ => some { s with uartInQ := some .empty, usbTask := .createCtrlInQ }
  | .createCtrlInQ =>
    some { s with ctrlInQ := some [], usbTask := .readEEprom BootTask.readEEprom }
  | .readEEprom left =>
    match left with
    | .done _ => some { s with usbTask := .serve }
    | left => some { s with
        globals := (left.advance s.globals).1
        usbTask := .readEEprom (left.advance s.globals).2 }
  | .serve => s.usb.vUSBCDCACMTask.map fun usb =>
    { s with usb := usb, cdcacmDev := s.cdcacmDev || s.usb.task == .usbdInit }

/-- The endpoints have their callbacks from `cdcacm_set_config` on. -/
def callback (s : Startup) : Callback → Option Startup
  | .setConfig => some { s with usbConfigured := true }
  | .data buf =>
    if s.usbConfigured then
      s.uartInQ.map fun queue => { s with uartInQ := some (queue.cdcacmDataRxCb buf) }
    else some s
  | .control stale received =>
    if s.usbConfigured then
      match bulkctrlDataRxCb stale received with
      | none => some s
      | some item => s.ctrlInQ.map fun queue => { s with ctrlInQ := some (xQueueSend queue item) }
    else some s

variable (cmdParse : BootGlobals → LineBuffer → BootGlobals × LineBuffer)
  (dispatch : BootGlobals → Item → BootGlobals)

/-- The shell goes on with a byte, up to its next output. `cmd_term_get` starts with `rxbyte` 0. -/
def rx (s : Startup) (b : UInt8) : Startup :=
  let shell := DebugShell.rx cmdParse { s.shell with world := s.globals } b
  let worked := shell.passed ≠ s.shell.passed
  { s with
    globals := shell.world
    shellPoint := .write
    rxbyte := if worked then 0 else b
    shell := shell
    found := if worked then s.found ++ [s.globals] else s.found }

def vDebugShell (s : Startup) : Option Startup :=
  match s.shellPoint with
  | .write => some { s with shellPoint := .testUartInQ }
  | .testUartInQ =>
    some { s with shellPoint := if s.uartInQ.isSome then .xQueueReceive else .boardUARTGetChar }
  | .xQueueReceive => do
    let queue ← s.uartInQ
    let received ← queue.receive
    some (rx cmdParse { s with uartInQ := some received.2 } received.1)
  | .boardUARTGetChar => do
    let queue ← s.uartInQ
    some (queue.receive.elim
      (rx cmdParse s s.rxbyte) -- EOF stores nothing, and nobody looks at what is returned
      fun received => rx cmdParse { s with uartInQ := some received.2 } received.1)

def vInstrumentTask (s : Startup) : Option Startup :=
  match s.instrument with
  | .waitConfigured =>
    some { s with instrument := if s.usbConfigured then .readPacket else .waitConfigured }
  | .readPacket => do
    let queue ← s.ctrlInQ
    match queue with
    | [] => none
    | item :: queue =>
      if item.length = 0 then some { s with ctrlInQ := some queue }
      else some { s with
        globals := dispatch s.globals item
        ctrlInQ := some queue
        instrument := .writePacket
        found := s.found ++ [s.globals] }
  | .writePacket => some { s with instrument := .readPacket }

/-! ### The handles -/

/-- What the next statement of a party uses. -/
def uses (s : Startup) : Event → List SharedHandle
  | .usbTask =>
    match s.usb.task with
    | .drainSemaphore => [.usbInterrupted]
    | .take => [.usbInterrupted]
    | _ => []
  | .isr => if s.usb.irqEnabled then [.usbInterrupted] else []
  | .callback .setConfig => []
  | .callback (.data _) => if s.usbConfigured then [.uartInQ] else []
  | .callback (.control _ _) => if s.usbConfigured then [.ctrlInQ] else []
  | .shell =>
    match s.shellPoint with
    | .write => if s.usbConfigured then [.cdcacmDev] else []
    | .testUartInQ => []
    | .xQueueReceive => [.uartInQ]
    | .boardUARTGetChar => [.uartInQ]
  | .instrument =>
    match s.instrument with
    | .waitConfigured => []
    | .readPacket => [.ctrlInQ]
    | .writePacket => [.cdcacmDev]

def isNull (s : Startup) : SharedHandle → Bool
  | .uartInQ => s.uartInQ.isNone
  | .ctrlInQ => s.ctrlInQ.isNone
  | .usbInterrupted => s.usb.usbInterrupted.isNone
  | .cdcacmDev => !s.cdcacmDev

/-- A statement that uses what is null has no result. -/
def step (s : Startup) (e : Event) : Option Startup :=
  if (s.uses e).any s.isNull then none
  else
    match e with
    | .usbTask => s.vUSBCDCACMTask
    | .isr => (s.usb.step .isr).map fun usb => { s with usb := usb }
    | .callback c => if s.usb.task = .poll then s.callback c else none
    | .shell => s.vDebugShell cmdParse
    | .instrument => s.vInstrumentTask dispatch

/-! ### What the shell does with a byte -/

variable {cmdParse dispatch}

theorem rx_reading {s : Startup} {b : UInt8} {input : LineInput}
    (h : TermGet.rx 1023 s.shell.input b = .reading input) :
    rx cmdParse s b = { s with
      shellPoint := .write
      rxbyte := b
      shell := ⟨input, s.globals, s.shell.passed⟩ } := by
  have hshell : DebugShell.rx cmdParse { s.shell with world := s.globals } b =
      ⟨input, s.globals, s.shell.passed⟩ := by
    rw [DebugShell.rx]
    dsimp only
    rw [h]
  simp only [rx, hshell, ne_eq, not_true_eq_false, if_false]

theorem rx_returned {s : Startup} {b : UInt8} {len : UInt32} {input : LineInput}
    (h : TermGet.rx 1023 s.shell.input b = .returned len input) :
    (rx cmdParse s b).found = s.found ++ [s.globals] := by
  have hpassed : (DebugShell.rx cmdParse { s.shell with world := s.globals } b).passed ≠
      s.shell.passed := by
    rw [DebugShell.rx]
    dsimp only
    rw [h]
    simp [DebugShell.prompt]
  exact if_pos hpassed

/-- The NUL of an end of the input. -/
theorem rx_nul {input : LineInput} (h : input.j = 0) :
    ∃ input', TermGet.rx 1023 input 0 = .reading input' ∧ input'.j = 1 := by
  have hj : (input.put 0).j = 1 := by
    change input.j + 1 = 1
    rw [h]
    rfl
  refine ⟨input.put 0, ?_, hj⟩
  rw [TermGet.rx_put (by decide) (by decide), TermGet.loop_of_lt]
  rw [hj]
  decide

/-! ### The order -/

/-- What holds whenever the tasks have come to `s`, if `loaded` is what `readEEprom` makes of the
EEPROM. -/
structure InOrder (loaded : BootGlobals) (s : Startup) : Prop where
  uartInQ : s.uartInQ = none → s.usbTask = .createUartInQ
  ctrlInQ : s.ctrlInQ = none → s.usbTask = .createUartInQ ∨ s.usbTask = .createCtrlInQ
  permit : s.usb.OnePermit
  asleep : s.usbTask.serves = false → s.usb = .start
  device : s.cdcacmDev = false →
    s.usb.task ∈ [UsbTaskPoint.createSemaphore, .drainSemaphore, .disableIrq, .usbdInit]
  configured : s.usbConfigured = true → s.cdcacmDev = true ∧ s.usbTask.serves = true
  instrument : s.instrument ≠ .waitConfigured → s.usbConfigured = true
  empty : s.usbConfigured = false → ∀ queue ∈ s.uartInQ, queue.bytes = []
  receive : s.shellPoint = .xQueueReceive → s.uartInQ ≠ none
  unread : s.usbConfigured = false → s.rxbyte = 0 ∧ (s.shell.input.j = 0 ∨
    s.shell.input.j = 1 ∧ s.uartInQ ≠ none ∧ s.shellPoint ≠ .boardUARTGetChar)
  loads : s.found = [] → (s.usbTask.left.run s.globals).2 = loaded
  first : ∀ globals ∈ s.found.head?, globals = loaded
  worked : s.found ≠ [] → s.usbConfigured = true

variable {loaded : BootGlobals} {s s' : Startup}

theorem inOrder_start (cells : Image) (line : LineBuffer) :
    InOrder (readEEprom (.powerUp cells)).globals (start cells line) where
  uartInQ _ := rfl
  ctrlInQ _ := .inl rfl
  permit := UsbInterrupt.onePermit_start
  asleep _ := rfl
  device _ := List.mem_cons_self
  configured := nofun
  instrument h := absurd rfl h
  empty _ _ h := nomatch h
  receive := nofun
  unread _ := ⟨rfl, .inl rfl⟩
  loads _ := congrArg Prod.snd (BootTask.run_readEEprom (.powerUp cells))
  first _ h := nomatch h
  worked h := absurd rfl h

theorem InOrder.queues (h : s.InOrder loaded) (hconfigured : s.usbConfigured = true) :
    s.uartInQ ≠ none ∧ s.ctrlInQ ≠ none := by
  have hserves := (h.configured hconfigured).2
  constructor
  · intro hnone
    rw [h.uartInQ hnone] at hserves
    cases hserves
  · intro hnone
    rcases h.ctrlInQ hnone with htask | htask
    all_goals
      rw [htask] at hserves
      cases hserves

/-- Nothing that is null is used but the queue of the shell, in `Board_UARTGetChar`. -/
theorem InOrder.null (h : s.InOrder loaded) {e : Event} {handle : SharedHandle}
    (huses : handle ∈ s.uses e) (hnull : s.isNull handle = true) :
    handle = .uartInQ ∧ e = .shell ∧ s.shellPoint = .boardUARTGetChar := by
  cases e with
  | usbTask =>
    have htask : s.usb.task ≠ .createSemaphore := by
      intro htask
      simp [uses, htask] at huses
    have hhandle : handle = .usbInterrupted := by
      cases hpoint : s.usb.task <;> simp_all [uses]
    rw [hhandle, isNull, h.permit.created htask] at hnull
    cases hnull
  | isr =>
    obtain ⟨henabled, hhandle⟩ : s.usb.irqEnabled = true ∧ handle = .usbInterrupted := by
      simpa [uses] using huses
    have htask : s.usb.task ≠ .createSemaphore := by simp [h.permit.enabled henabled]
    rw [hhandle, isNull, h.permit.created htask] at hnull
    cases hnull
  | callback c =>
    cases c with
    | setConfig => cases huses
    | data buf =>
      obtain ⟨hconfigured, rfl⟩ : s.usbConfigured = true ∧ handle = .uartInQ := by
        simpa [uses] using huses
      exact absurd (Option.isNone_iff_eq_none.mp hnull) (h.queues hconfigured).1
    | control stale received =>
      obtain ⟨hconfigured, rfl⟩ : s.usbConfigured = true ∧ handle = .ctrlInQ := by
        simpa [uses] using huses
      exact absurd (Option.isNone_iff_eq_none.mp hnull) (h.queues hconfigured).2
  | shell =>
    cases hpoint : s.shellPoint with
    | write =>
      obtain ⟨hconfigured, rfl⟩ : s.usbConfigured = true ∧ handle = .cdcacmDev := by
        simpa [uses, hpoint] using huses
      rw [isNull, (h.configured hconfigured).1] at hnull
      cases hnull
    | testUartInQ => simp [uses, hpoint] at huses
    | xQueueReceive =>
      obtain rfl : handle = .uartInQ := by simpa [uses, hpoint] using huses
      exact absurd (Option.isNone_iff_eq_none.mp hnull) (h.receive hpoint)
    | boardUARTGetChar =>
      obtain rfl : handle = .uartInQ := by simpa [uses, hpoint] using huses
      exact ⟨rfl, rfl, rfl⟩
  | instrument =>
    cases hpoint : s.instrument with
    | waitConfigured => simp [uses, hpoint] at huses
    | readPacket =>
      have hconfigured := h.instrument (by simp [hpoint])
      obtain rfl : handle = .ctrlInQ := by simpa [uses, hpoint] using huses
      exact absurd (Option.isNone_iff_eq_none.mp hnull) (h.queues hconfigured).2
    | writePacket =>
      have hconfigured := h.instrument (by simp [hpoint])
      obtain rfl : handle = .cdcacmDev := by simpa [uses, hpoint] using huses
      rw [isNull, (h.configured hconfigured).1] at hnull
      cases hnull

/-! ### Every step keeps the order -/

/-- A statement before the interrupt is served, which sets only what is the task's own. -/
theorem InOrder.early (h : s.InOrder loaded) (hearly : s.usbTask.serves = false) {task : UsbTask}
    {globals : BootGlobals} {uartInQ : Option UartInQ} {ctrlInQ : Option (List Item)}
    (huart : uartInQ ≠ none)
    (hempty : ∀ queue ∈ uartInQ, queue.bytes = [])
    (hctrl : ctrlInQ = none → task = .createCtrlInQ)
    (hloads : (task.left.run globals).2 = (s.usbTask.left.run s.globals).2) :
    InOrder loaded { s with
      globals := globals
      usbTask := task
      uartInQ := uartInQ
      ctrlInQ := ctrlInQ } where
  uartInQ hnone := absurd hnone huart
  ctrlInQ hnone := .inr (hctrl hnone)
  permit := h.permit
  asleep _ := h.asleep hearly
  device := h.device
  configured hc := by
    have hserves := (h.configured hc).2
    rw [hearly] at hserves
    cases hserves
  instrument := h.instrument
  empty _ := hempty
  receive _ := huart
  unread hc := (h.unread hc).imp_right (Or.imp_right fun hj => ⟨hj.1, huart, hj.2.2⟩)
  loads hfound := hloads.trans (h.loads hfound)
  first := h.first
  worked := h.worked

theorem InOrder.vUSBCDCACMTask (h : s.InOrder loaded) (hs : s.vUSBCDCACMTask = some s') :
    s'.InOrder loaded := by
  have hqueue (htask : s.usbTask ≠ .createUartInQ) (hearly : s.usbTask.serves = false) :
      s.uartInQ ≠ none ∧ ∀ queue ∈ s.uartInQ, queue.bytes = [] := by
    refine ⟨fun hnone => htask (h.uartInQ hnone), h.empty ?_⟩
    cases hc : s.usbConfigured with
    | false => rfl
    | true =>
      rw [(h.configured hc).2] at hearly
      cases hearly
  unfold Startup.vUSBCDCACMTask at hs
  split at hs
  case h_1 htask =>
    obtain rfl := Option.some.inj hs
    refine h.early (by rw [htask]; rfl) nofun ?_ (fun _ => rfl) (by rw [htask]; rfl)
    rintro queue ⟨⟩
    rfl
  case h_2 htask =>
    obtain rfl := Option.some.inj hs
    obtain ⟨huart, hempty⟩ := hqueue (by simp [htask]) (by rw [htask]; rfl)
    exact h.early (by rw [htask]; rfl) huart hempty nofun (by rw [htask]; rfl)
  case h_3 left htask =>
    have hearly : s.usbTask.serves = false := by rw [htask]; rfl
    obtain ⟨huart, hempty⟩ := hqueue (by simp [htask]) hearly
    have hctrl : s.ctrlInQ ≠ none := by
      intro hnone
      simpa [htask] using h.ctrlInQ hnone
    split at hs
    all_goals obtain rfl := Option.some.inj hs
    · exact h.early hearly huart hempty (fun hnone => absurd hnone hctrl) (by rw [htask]; rfl)
    · refine h.early hearly huart hempty (fun hnone => absurd hnone hctrl) ?_
      rw [htask]
      exact congrArg Prod.snd (Program.run_advance left s.globals)
  case h_4 htask =>
    obtain ⟨usb, husb, rfl⟩ := Option.map_eq_some_iff.mp hs
    have hserves : s.usbTask.serves = true := by rw [htask]; rfl
    have hstep : s.usb.step .task = some usb := husb
    exact { h with
      permit := (h.permit.step hstep).1
      asleep := fun hearly => by
        change s.usbTask.serves = false at hearly
        rw [hserves] at hearly
        cases hearly
      device := fun hdevice => by
        obtain ⟨hdevice, hinit⟩ := Bool.or_eq_false_iff.mp hdevice
        have hpoint := h.device hdevice
        simp only [List.mem_cons, List.not_mem_nil, or_false] at hpoint
        unfold UsbInterrupt.vUSBCDCACMTask at husb
        rcases hpoint with hpoint | hpoint | hpoint | hpoint
        case inr.inr.inr =>
          rw [hpoint] at hinit
          cases hinit
        all_goals
          rw [hpoint] at husb
          obtain rfl := Option.some.inj husb
          simp
      configured := fun hc => ⟨Bool.or_eq_true_iff.mpr (.inl (h.configured hc).1), hserves⟩ }

theorem InOrder.isr (h : s.InOrder loaded) {usb : UsbInterrupt} (hs : s.usb.step .isr = some usb) :
    InOrder loaded { s with usb := usb } := by
  have henabled : s.usb.irqEnabled = true := (Option.ite_none_right_eq_some.mp hs).1
  have htask : s.usb.task = .take := (h.permit.enabled henabled).1
  have hdevice : s.cdcacmDev = true := by
    cases hdevice : s.cdcacmDev with
    | true => rfl
    | false => simpa [htask] using h.device hdevice
  exact { h with
    permit := (h.permit.step hs).1
    asleep := fun hearly => by
      have hstart := h.asleep hearly
      rw [hstart] at htask
      cases htask
    device := fun hnull => by
      change s.cdcacmDev = false at hnull
      rw [hdevice] at hnull
      cases hnull }

theorem InOrder.setUartInQ (h : s.InOrder loaded) (hconfigured : s.usbConfigured = true)
    (queue : UartInQ) : InOrder loaded { s with uartInQ := some queue } :=
  have hnot : s.usbConfigured ≠ false := by rw [hconfigured]; exact Bool.noConfusion
  { h with
    uartInQ := nofun
    empty := fun hc => absurd hc hnot
    receive := fun _ => nofun
    unread := fun hc => absurd hc hnot }

theorem InOrder.callback (h : s.InOrder loaded) {c : Callback} (hpoll : s.usb.task = .poll)
    (hs : s.callback c = some s') : s'.InOrder loaded := by
  have hserves : s.usbTask.serves = true := by
    cases hserves : s.usbTask.serves with
    | true => rfl
    | false =>
      rw [h.asleep hserves] at hpoll
      cases hpoll
  cases c with
  | setConfig =>
    obtain rfl := Option.some.inj hs
    have hdevice : s.cdcacmDev = true := by
      cases hdevice : s.cdcacmDev with
      | true => rfl
      | false => simpa [hpoll] using h.device hdevice
    exact { h with
      configured := fun _ => ⟨hdevice, hserves⟩
      instrument := fun _ => rfl
      empty := nofun
      unread := nofun
      worked := fun _ => rfl }
  | data buf =>
    unfold Startup.callback at hs
    dsimp only at hs
    split at hs
    case isFalse =>
      obtain rfl := Option.some.inj hs
      exact h
    case isTrue hconfigured =>
      obtain ⟨queue, -, rfl⟩ := Option.map_eq_some_iff.mp hs
      exact h.setUartInQ hconfigured _
  | control stale received =>
    unfold Startup.callback at hs
    dsimp only at hs
    split at hs
    case isFalse =>
      obtain rfl := Option.some.inj hs
      exact h
    case isTrue hconfigured =>
      split at hs
      · obtain rfl := Option.some.inj hs
        exact h
      · obtain ⟨queue, -, rfl⟩ := Option.map_eq_some_iff.mp hs
        exact { h with ctrlInQ := nofun }

/-- Work that begins once the host has configured the device finds what `readEEprom` has left. -/
theorem InOrder.begin (h : s.InOrder loaded) (hconfigured : s.usbConfigured = true) :
    ∀ globals ∈ (s.found ++ [s.globals]).head?, globals = loaded := by
  intro globals hglobals
  cases hfound : s.found with
  | nil =>
    rw [hfound] at hglobals
    obtain rfl := Option.some.inj hglobals
    have hloads := h.loads hfound
    cases htask : s.usbTask with
    | serve =>
      rw [htask] at hloads
      exact hloads
    | _ =>
      have hserves := (h.configured hconfigured).2
      rw [htask] at hserves
      cases hserves
  | cons g gs =>
    refine h.first globals ?_
    rwa [hfound] at hglobals ⊢

theorem InOrder.vInstrumentTask {dispatch : BootGlobals → Item → BootGlobals}
    (h : s.InOrder loaded) (hs : s.vInstrumentTask dispatch = some s') : s'.InOrder loaded := by
  unfold Startup.vInstrumentTask at hs
  split at hs
  case h_1 hpoint =>
    obtain rfl := Option.some.inj hs
    exact { h with
      instrument := fun hne => by
        change (if s.usbConfigured then InstrumentPoint.readPacket else .waitConfigured) ≠ _ at hne
        by_cases hc : s.usbConfigured = true
        · exact hc
        · rw [if_neg hc] at hne
          exact absurd rfl hne }
  case h_2 hpoint =>
    have hconfigured := h.instrument (by simp [hpoint])
    obtain ⟨queue, hqueue, hs⟩ := Option.bind_eq_some_iff.mp hs
    split at hs
    · cases hs
    · split at hs
      · obtain rfl := Option.some.inj hs
        exact { h with ctrlInQ := nofun }
      · obtain rfl := Option.some.inj hs
        exact { h with
          ctrlInQ := nofun
          instrument := fun _ => hconfigured
          loads := by simp
          first := h.begin hconfigured
          worked := fun _ => hconfigured }
  case h_3 hpoint =>
    have hconfigured := h.instrument (by simp [hpoint])
    obtain rfl := Option.some.inj hs
    exact { h with instrument := fun _ => hconfigured }

theorem InOrder.rx {cmdParse : BootGlobals → LineBuffer → BootGlobals × LineBuffer}
    (h : s.InOrder loaded) (hconfigured : s.usbConfigured = true) (b : UInt8) :
    (rx cmdParse s b).InOrder loaded := by
  have hnot : s.usbConfigured ≠ false := by rw [hconfigured]; exact Bool.noConfusion
  cases hrx : TermGet.rx 1023 s.shell.input b with
  | reading input =>
    rw [rx_reading hrx]
    exact { h with
      receive := nofun
      unread := fun hc => absurd hc hnot }
  | returned len input =>
    have hfound : (Startup.rx cmdParse s b).found = s.found ++ [s.globals] := rx_returned hrx
    exact { h with
      receive := nofun
      unread := fun hc => absurd hc hnot
      loads := by
        rw [hfound]
        simp
      first := by
        rw [hfound]
        exact h.begin hconfigured
      worked := fun _ => hconfigured }

theorem InOrder.vDebugShell {cmdParse : BootGlobals → LineBuffer → BootGlobals × LineBuffer}
    (h : s.InOrder loaded) (hs : s.vDebugShell cmdParse = some s') : s'.InOrder loaded := by
  -- a byte in the queue is from the host
  have htaken {queue : UartInQ} {received : UInt8 × UartInQ} (hqueue : s.uartInQ = some queue)
      (hreceived : queue.receive = some received) : s.usbConfigured = true := by
    cases hc : s.usbConfigured with
    | true => rfl
    | false =>
      have hempty := h.empty hc queue hqueue
      rw [UartInQ.receive_bytes hreceived] at hempty
      cases hempty
  unfold Startup.vDebugShell at hs
  split at hs
  case h_1 hpoint =>
    obtain rfl := Option.some.inj hs
    exact { h with
      receive := nofun
      unread := fun hc => (h.unread hc).imp_right (Or.imp_right fun hj => ⟨hj.1, hj.2.1, nofun⟩) }
  case h_2 hpoint =>
    obtain rfl := Option.some.inj hs
    exact { h with
      receive := fun htest hnone => by
        change (if s.uartInQ.isSome then ShellPoint.xQueueReceive else _) = _ at htest
        rw [hnone] at htest
        cases htest
      unread := fun hc => by
        refine (h.unread hc).imp_right (Or.imp_right fun hj => ⟨hj.1, hj.2.1, ?_⟩)
        change (if s.uartInQ.isSome then ShellPoint.xQueueReceive else _) ≠ _
        rw [if_pos (Option.isSome_iff_ne_none.mpr hj.2.1)]
        nofun }
  case h_3 hpoint =>
    obtain ⟨queue, hqueue, hs⟩ := Option.bind_eq_some_iff.mp hs
    obtain ⟨received, hreceived, hs⟩ := Option.bind_eq_some_iff.mp hs
    obtain rfl := Option.some.inj hs
    have hconfigured := htaken hqueue hreceived
    exact InOrder.rx (h.setUartInQ hconfigured _) hconfigured _
  case h_4 hpoint =>
    obtain ⟨queue, hqueue, hs⟩ := Option.bind_eq_some_iff.mp hs
    obtain rfl := Option.some.inj hs
    cases hreceived : queue.receive with
    | some received =>
      have hconfigured := htaken hqueue hreceived
      exact InOrder.rx (h.setUartInQ hconfigured _) hconfigured _
    | none =>
      change (Startup.rx cmdParse s s.rxbyte).InOrder loaded
      cases hc : s.usbConfigured with
      | true => exact h.rx hc _
      | false =>
        have hj : s.shell.input.j = 0 :=
          (h.unread hc).2.resolve_right fun hj => hj.2.2 hpoint
        obtain ⟨input, hrx, hinput⟩ := rx_nul hj
        have hrxbyte := (h.unread hc).1
        rw [← hrxbyte] at hrx
        rw [rx_reading hrx]
        exact { h with
          receive := nofun
          unread := fun _ => ⟨hrxbyte, .inr ⟨hinput, by simp [hqueue], nofun⟩⟩ }

theorem InOrder.step {cmdParse : BootGlobals → LineBuffer → BootGlobals × LineBuffer}
    {dispatch : BootGlobals → Item → BootGlobals} (h : s.InOrder loaded) {e : Event}
    (hs : s.step cmdParse dispatch e = some s') : s'.InOrder loaded := by
  unfold Startup.step at hs
  split at hs
  · cases hs
  · cases e with
    | usbTask => exact h.vUSBCDCACMTask hs
    | isr =>
      obtain ⟨usb, husb, rfl⟩ := Option.map_eq_some_iff.mp hs
      exact h.isr husb
    | callback c =>
      obtain ⟨hpoll, hs⟩ := Option.ite_none_right_eq_some.mp hs
      exact h.callback hpoll hs
    | shell => exact h.vDebugShell hs
    | instrument => exact h.vInstrumentTask hs

/-- Some party is about to use what is null. -/
def UsesNull (s : Startup) : Prop := ∃ e, ∃ handle ∈ s.uses e, s.isNull handle = true

theorem InOrder.usesNull_iff (h : s.InOrder loaded) :
    s.UsesNull ↔ s.shellPoint = .boardUARTGetChar ∧ s.uartInQ = none := by
  constructor
  · rintro ⟨e, handle, huses, hnull⟩
    obtain ⟨rfl, -, hpoint⟩ := h.null huses hnull
    exact ⟨hpoint, Option.isNone_iff_eq_none.mp hnull⟩
  · rintro ⟨hpoint, hnone⟩
    exact ⟨.shell, .uartInQ, by simp [uses, hpoint], Option.isNone_iff_eq_none.mpr hnone⟩

/-! ### `vUSBCDCACMTask` first -/

theorem callback_usbTask {c : Callback} (hs : s.callback c = some s') : s'.usbTask = s.usbTask := by
  cases c <;> grind [Startup.callback, Option.map_eq_some_iff]

theorem vDebugShell_usbTask {cmdParse : BootGlobals → LineBuffer → BootGlobals × LineBuffer}
    (hs : s.vDebugShell cmdParse = some s') : s'.usbTask = s.usbTask := by
  unfold Startup.vDebugShell at hs
  split at hs
  · obtain rfl := Option.some.inj hs
    rfl
  · obtain rfl := Option.some.inj hs
    rfl
  · obtain ⟨queue, -, hs⟩ := Option.bind_eq_some_iff.mp hs
    obtain ⟨received, -, hs⟩ := Option.bind_eq_some_iff.mp hs
    obtain rfl := Option.some.inj hs
    rfl
  · obtain ⟨queue, -, hs⟩ := Option.bind_eq_some_iff.mp hs
    obtain rfl := Option.some.inj hs
    cases queue.receive <;> rfl

theorem vInstrumentTask_usbTask {dispatch : BootGlobals → Item → BootGlobals}
    (hs : s.vInstrumentTask dispatch = some s') : s'.usbTask = s.usbTask := by
  grind [Startup.vInstrumentTask, Option.bind_eq_some_iff]

/-- `UARTinQ` is created once and for all. -/
theorem created_step {cmdParse : BootGlobals → LineBuffer → BootGlobals × LineBuffer}
    {dispatch : BootGlobals → Item → BootGlobals} {e : Event} (h : s.usbTask ≠ .createUartInQ)
    (hs : s.step cmdParse dispatch e = some s') : s'.usbTask ≠ .createUartInQ := by
  unfold Startup.step at hs
  split at hs
  · cases hs
  · cases e with
    | usbTask => grind [Startup.vUSBCDCACMTask, Option.map_eq_some_iff]
    | isr =>
      obtain ⟨usb, -, rfl⟩ := Option.map_eq_some_iff.mp hs
      exact h
    | callback c => rwa [callback_usbTask (Option.ite_none_right_eq_some.mp hs).2]
    | shell => rwa [vDebugShell_usbTask hs]
    | instrument => rwa [vInstrumentTask_usbTask hs]
theorem InOrder.not_usesNull (h : s.InOrder loaded) (htask : s.usbTask ≠ .createUartInQ) :
    ¬ s.UsesNull := fun hnull => htask (h.uartInQ (h.usesNull_iff.mp hnull).2)

end Startup

open Startup

/-- In any order of the tasks, the interrupt and the host, the first line or packet that is worked
on finds exactly what `readEEprom` has made of the EEPROM; and nothing is used while it is null,
unless the shell has come to `Board_UARTGetChar` before the first statement of `vUSBCDCACMTask`. -/
theorem startup_in_order (cmdParse : BootGlobals → LineBuffer → BootGlobals × LineBuffer)
    (dispatch : BootGlobals → Item → BootGlobals) {cells : Image} {line : LineBuffer}
    {es : List Startup.Event} {s : Startup}
    (hr : Events.run (Startup.step cmdParse dispatch) (.start cells line) es = some s) :
    (∀ globals ∈ s.found.head?, globals = (readEEprom (.powerUp cells)).globals) ∧
      (s.UsesNull ↔ s.shellPoint = .boardUARTGetChar ∧ s.uartInQ = none) ∧
      (es.head? = some .usbTask → ¬ s.UsesNull) := by
  have h : s.InOrder (readEEprom (.powerUp cells)).globals :=
    Events.invariant (fun _ _ _ h hs => h.step hs) (inOrder_start cells line) hr
  refine ⟨h.first, h.usesNull_iff, fun hhead => h.not_usesNull ?_⟩
  cases es with
  | nil => cases hhead
  | cons e es =>
    obtain rfl := Option.some.inj hhead
    obtain ⟨t, ht, hr'⟩ := Events.run_cons_some hr
    obtain rfl := Option.some.inj ht
    exact Events.invariant (fun _ _ _ h hs => created_step h hs) (by nofun) hr'

/-- The shell, run before `vUSBCDCACMTask`, asks a queue that does not exist. -/
example : (Events.run (Startup.step Prod.mk fun globals _ => globals)
    (.start (fun _ => 0xFF) .zeroed) [.shell, .shell]).any
      (fun s => (s.uses .shell).any s.isNull) = true := rfl

/-- The magic byte, ids 0x1234 and 0x5678, and S1 pulsed low. -/
def withIds : Image := fun i =>
  if i = 0 then 0xAA else if i = 1 then 0x34 else if i = 2 then 0x12
  else if i = 3 then 0x78 else if i = 4 then 0x56 else if i = 0xF then 1 else 0

/-- `vUSBCDCACMTask` has read these and waits for the interrupt after 164 steps. -/
def firstPacket : List Startup.Event :=
  List.replicate 164 .usbTask ++ [.isr, .usbTask, .callback .setConfig,
    .callback (.control (fun _ => 0) [1, 6, 0, 3]), .instrument, .instrument]

theorem run_firstPacket : (Events.run (Startup.step Prod.mk fun globals _ => globals)
    (.start withIds .zeroed) firstPacket).map (·.found.length) = some 1 := by
  decide +kernel

theorem startup_in_order_packet : ∃ s globals, Events.run
      (Startup.step Prod.mk fun globals _ => globals) (.start withIds .zeroed) firstPacket =
        some s ∧
    s.found = [globals] ∧ globals.identity.idVendor = 0x1234 ∧
    globals.identity.idProduct = 0x5678 ∧ globals.board.s1Active = false := by
  obtain ⟨s, hr, hlength⟩ := Option.map_eq_some_iff.mp run_firstPacket
  obtain ⟨globals, hfound⟩ := List.length_eq_one_iff.mp hlength
  have hfirst := (startup_in_order Prod.mk (fun globals _ => globals) hr).1
  obtain rfl := hfirst globals (by rw [hfound]; rfl)
  refine ⟨s, _, hr, hfound, ?_⟩
  decide +kernel

end UsbSpdt
