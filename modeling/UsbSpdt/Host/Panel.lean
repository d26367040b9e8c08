import UsbSpdt.Host.Instrument
import UsbSpdt.Shell.Meaning

/-!
# A host and a terminal

A controller with a host at its library and a terminal at its debug shell. The keys fall between the
calls of the host, and both operate one panel of two relays with their supply, four auxiliary lines
and a memory.
-/

namespace UsbSpdt

open AttenSwitch CyclicMemory Program

/-! ### What the commands of the shell do -/

/-- What a command does on the board. `timer` reads the clock around its waits; the time that the
EEPROM takes counts as idle. -/
def Action.onBoard : Action → Program Board Unit
  | .hvOn on => UsbSpdt.hvOn on
  | .s1J1sel on => UsbSpdt.s1J1sel on
  | .s2J1sel on => UsbSpdt.s2J1sel on
  | .aux 0 on => aux0 on.toInt32.toInt
  | .aux 1 on => aux1 on.toInt32.toInt
  | .aux 2 on => aux2 on.toInt32.toInt
  | .aux 3 on => aux3 on.toInt32.toInt
  | .timer => do
    delayms 10
    delayms 10
    delayms 10
  | _ => pure ()

/-- What the test of the EEPROM leaves there. -/
def testImage : Image := fun i =>
  if i = 0x11 then 1 else if i = 0x12 then 2 else if i = 0x13 then 3 else 0xFF

theorem arrayRun_testee (cells : Image) : (arrayRun cells testeeOps).2 = testImage := by
  have hupdates : (arrayRun cells testeeOps).2 =
      Function.update (Function.update (Function.update (Function.update (Function.update
        (fun _ => 0xFF) 0x10 0x41) 0x11 1) 0x12 2) 0x13 3) 0x10 0xFF := rfl
  funext i
  simp only [hupdates, Function.update_apply, testImage]
  by_cases h10 : i = 0x10
  · subst h10
    rfl
  · simp only [h10, if_false]
    by_cases h11 : i = 0x11
    · subst h11
      rfl
    by_cases h12 : i = 0x12
    · subst h12
      rfl
    · simp only [h11, h12, if_false]

theorem test_holds (e : Eeprom) : (cmdTestee.run e.bus).2.Holds testImage := by
  have hrun := (driverRun_refines ⟨e, rfl, rfl⟩ testeeOps).2
  rw [arrayRun_testee] at hrun
  have htest : (cmdTestee.run e.bus).2 = (driverRun e.bus testeeOps).2 := by
    rw [run_cmdTestee]
  rw [htest]
  exact hrun

/-- The EEPROM after its test. -/
def Eeprom.test (e : Eeprom) : Eeprom where
  bus := (cmdTestee.run e.bus).2
  standby := by
    obtain ⟨e', h, -⟩ := test_holds e
    rw [← h]
    exact e'.standby
  enabled := by
    obtain ⟨e', h, -⟩ := test_holds e
    rw [← h]
    exact e'.enabled

theorem Eeprom.test_image (e : Eeprom) : e.test.image = testImage := by
  obtain ⟨e', h, himage⟩ := test_holds e
  have hcells : e.test.image = e'.image := congrArg (fun bus => bus.chip.cells) h.symm
  exact hcells.trans himage

namespace Plant

def withEeprom (q : Plant) (eeprom : Eeprom) : Plant :=
  { q with device := { q.device with firmware := { q.device.firmware with eeprom } } }

/-- A command of the shell on the controller. Nothing is said of one that accesses the memory of the
processor or that does not return. -/
def perform (w : Wiring) (q : Plant) : Action → Option Plant
  | .peek .. | .poke .. | .hardfault | .resetSystem => none
  | .eeprom9366Test => some (q.withEeprom q.device.firmware.eeprom.test)
  | .eeprom9366EraseAll => some (q.withEeprom q.device.firmware.eeprom.eraseAll)
  | command => some (q.operate w command.onBoard)

end Plant

/-! ### The controller with its two tasks -/

structure Station where
  plant : Plant
  shell : DebugShell (ShellState (List Action))

/-- A call of the host, a key of the terminal, time that passes, or a power cycle, which leaves
something on the stack of the USB callback and in the line buffer. -/
inductive StationEvent where
  | call (c : Call)
  | key (b : UInt8)
  | idle (ticks : Nat)
  | powerCycle (stale : Nat → Item) (line : LineBuffer)

namespace Station

variable (w : Wiring) (residue : List UInt8 → List UInt8)

/-- What the commands that a key has called do. -/
def key (t : Station) (b : UInt8) : Option Station :=
  let shell := DebugShell.rx (shellParse firmwareTables) t.shell b
  let actions := shell.world.memory.drop t.shell.world.memory.length
  (Events.run (Plant.perform w) t.plant actions).map fun plant => ⟨plant, shell⟩

def step (t : Station) : StationEvent → Option (Option Answer × Station)
  | .call c => (t.plant.step w residue (.call c)).map fun r => (r.1, { t with plant := r.2 })
  | .key b => (t.key w b).map fun t => (none, t)
  | .idle ticks =>
    (t.plant.step w residue (.idle ticks)).map fun r => (r.1, { t with plant := r.2 })
  | .powerCycle stale line => (t.plant.powerCycle w stale).map fun plant =>
      (none, ⟨plant, .prompt line ⟨[], [], t.shell.world.atZero, []⟩ []⟩)

end Station

/-! ### The panel -/

instance (typed : List UInt8) : Decidable (Entered typed) :=
  decidable_of_iff (0x0d ∉ typed ∧ 0 ∉ typed ∧ LineEdit.Orderly erases 1022 typed ∧
      (readLine (LineEdit.edit erases typed)).unmatched = none ∧
      (typedWords typed).length ≤ debugShellMaxargs ∧
      required [] ((typedWords typed).headD []) ≤ (typedWords typed).length ∧
      commandOf ((typedWords typed).headD []) ≠ some .reboot ∧
      commandOf ((typedWords typed).headD []) ≠ some .hardfault)
    ⟨fun ⟨h1, h2, h3, h4, h5, h6, h7⟩ => ⟨h1, h2, h3, h4, h5, h6, h7⟩,
      fun ⟨h1, h2, h3, h4, h5, h6, h7⟩ => ⟨h1, h2, h3, h4, h5, h6, h7⟩⟩

structure Panel where
  instrument : Instrument
  aux : Fin 4 → Bool
  /-- The keys since the last prompt. -/
  typed : List UInt8

namespace Panel

variable (w : Wiring)

def select (p : Panel) (s : Switch) (on : Int) : Panel :=
  { p with instrument := { p.instrument with
    relays := p.instrument.relays.command w p.instrument.polarity p.instrument.supply s
      (if on ≠ 0 then .j1 else .j2)
    supply := p.instrument.supply.selected } }

def supplied (p : Panel) (supply : Supply) : Panel :=
  { p with instrument := { p.instrument with supply } }

def put (p : Panel) (image : Image) : Panel :=
  { p with instrument := { p.instrument with image } }

/-- What a command of the shell is for. -/
def act (p : Panel) : Action → Option Panel
  | .peek .. | .poke .. | .hardfault | .resetSystem => none
  | .s1J1sel on => some (p.select w .s1 on)
  | .s2J1sel on => some (p.select w .s2 on)
  | .aux switchN on =>
    some { p with aux := fun k => if k.val = switchN then decide (on ≠ 0) else p.aux k }
  | .eeprom9366Test => some (p.put testImage)
  | .eeprom9366EraseAll => some (p.put fun _ => 0xFF)
  | .hvOn on => some (p.supplied (p.instrument.supply.switch on))
  | .timer =>
    let wait := Supply.elapse (10 / portTickRateMs)
    some (p.supplied (wait (wait (wait p.instrument.supply))))
  | _ => some p

/-- The end of a line does what its words mean; the keys before it do nothing but edit it. -/
def key (p : Panel) (b : UInt8) : Option Panel :=
  if b = 0x0d then
    if Entered p.typed then
      Events.run (act w) { p with typed := [] } (meaning (typedWords p.typed))
    else none
  else if LineEdit.Orderly erases 1022 (p.typed ++ [b]) then
    some { p with typed := p.typed ++ [b] }
  else none

def step (p : Panel) : StationEvent → Option (Option Answer × Panel)
  | .call c => (p.instrument.call w c).map fun r => (some r.1, { p with instrument := r.2 })
  | .key b => (p.key w b).map fun p => (none, p)
  | .idle ticks => some (none, p.supplied (p.instrument.supply.elapse ticks))
  | .powerCycle _ _ => p.instrument.powerCycle.map fun instrument =>
      (none, ⟨instrument, fun _ => false, []⟩)

end Panel

def auxPin : Fin 4 → Pin
  | 0 => .aux0
  | 1 => .aux1
  | 2 => .aux2
  | 3 => .aux3

def Board.aux (b : Board) : Fin 4 → Bool := fun k => b.gpio (auxPin k)

abbrev Board.SameAux (b t : Board) : Prop := t.aux = b.aux

structure Plant.Shows (q : Plant) (p : Panel) : Prop where
  settled : q.Settled
  instrument : q.instrument = p.instrument
  aux : q.device.firmware.board.aux = p.aux

/-- The controller is idle and shows the panel, and its shell stands behind the keys of the line. -/
structure Station.Shows (t : Station) (p : Panel) : Prop where
  plant : t.plant.Shows p
  noCr : 0x0d ∉ p.typed
  orderly : LineEdit.Orderly erases 1022 p.typed
  shell : ∃ line s passed, s.currentContext = [] ∧ t.shell =
    p.typed.foldl (DebugShell.rx (shellParse firmwareTables)) (.prompt line s passed)

/-! ### The auxiliary lines -/

theorem Board.drive_aux (b : Board) {p : Pin} (hp : ∀ k, auxPin k ≠ p) (v : Bool) :
    (b.drive p v).aux = b.aux := funext fun k => Board.drive_gpio_ne b v (hp k)

theorem Board.elapse_aux (n : Nat) (b : Board) : (b.elapse n).aux = b.aux := by
  obtain heq | heq := b.elapse_cases n
  · rw [heq]
    rfl
  · rw [heq]
    exact b.drive_aux (by decide) false

theorem acts_aux_drive {p : Pin} (hp : ∀ k, auxPin k ≠ p) (v : Bool) :
    Acts Board.SameAux (Program.modify (·.drive p v)) :=
  acts_modify fun b => b.drive_aux hp v

theorem acts_aux_hvOn (on : Int) : Acts Board.SameAux (hvOn on) :=
  acts_hvOn_of (fun hgpio _ _ => funext fun _ => congrFun hgpio _)
    (fun b v => b.drive_aux (by decide) v) on

theorem acts_aux_select (d : Selection) :
    Acts Board.SameAux (hvOn 1 >>= fun _ => d.program) := by
  refine acts_bind (acts_aux_hvOn 1) fun _ => d.acts_of ?_ ?_
  · exact fun v b => b.drive_aux (by decide) v
  · exact fun c v b => b.drive_aux (by cases c <;> decide) v

theorem acts_aux_spdtSet (swtch sel : UInt8) :
    Acts Board.SameAux (spdtSet swtch sel) := by
  have hleds : Acts Board.SameAux (showS1 sel) := by
    unfold showS1
    split
    all_goals
      refine acts_bind (acts_aux_drive (by decide) _) fun _ => ?_
      exact acts_bind (acts_aux_drive (by decide) _) fun _ => acts_aux_drive (by decide) _
  unfold spdtSet
  split
  · exact acts_bind hleds fun _ => acts_aux_select (.s1 _)
  · exact acts_aux_select (.s2 _)

namespace Plant

variable (w : Wiring) (residue : List UInt8 → List UInt8)

theorem receive_aux (q : Plant) (packet : List UInt8) :
    (q.receive w packet).device.firmware.board.aux = q.device.firmware.board.aux := by
  change (q.device.receive packet).firmware.board.aux = _
  unfold Device.receive
  split
  · rfl
  · rename_i item _
    change (q.device.firmware.handle item).firmware.board.aux = _
    rw [Firmware.handle_board, Firmware.switching]
    split
    · rfl
    split
    · exact ((acts_aux_spdtSet _ _).keeps (f := Board.aux) Board.elapse_aux _).1
    · rfl

/-- No call of the host touches the auxiliary lines. -/
theorem serve_aux (q : Plant) (bytes : List UInt8) :
    (q.serve w residue bytes).2.device.firmware.board.aux = q.device.firmware.board.aux := by
  have hfold (packets : List (List UInt8)) (q : Plant) :
      (packets.foldl (receive w) q).device.firmware.board.aux = q.device.firmware.board.aux := by
    induction packets generalizing q with
    | nil => rfl
    | cons packet packets ih => exact (ih _).trans (q.receive_aux w packet)
  exact hfold (usbPackets bytes) q

end Plant

/-- A boot leaves them as the power found them. -/
theorem bootSwitching_aux (m : Image) :
    ((bootSwitching m).run .powerUp).2.aux = fun _ => false := by
  have hacts : Acts Board.SameAux (bootSwitching m) :=
    acts_bootSwitching (fun v b => b.drive_aux (by decide) v)
      (fun c v b => b.drive_aux (by cases c <;> decide) v) (fun _ _ => rfl) (fun _ _ => rfl) m
  exact hacts.run (S := Board.SameAux) (fun _ => rfl) (fun hbt htu => htu.trans hbt) .powerUp

theorem Plant.powerCycle_aux {w : Wiring} {q q' : Plant} {stale : Nat → Item}
    (h : q.powerCycle w stale = some q') : q'.device.firmware.board.aux = fun _ => false := by
  have hboard : q'.device.firmware.board = (readEEprom (.powerUp q.device.image)).board := by
    simp only [Plant.powerCycle, Option.ite_none_right_eq_some, Option.some.injEq] at h
    rw [← h.2]
  rw [hboard, readEEprom_switching, bootSwitching_aux]

/-! ### The commands of the shell -/

namespace Plant.Shows

variable {w : Wiring} {q : Plant} {p : Panel} {prog : Program Board Unit}

theorem supply (h : q.Shows p) : q.device.firmware.board.supply = p.instrument.supply :=
  congrArg Instrument.supply h.instrument

/-- A command that leaves the coils alone. -/
theorem operate (h : q.Shows p) (hacts : Acts Board.SameCoils prog) :
    (q.operate w prog).Shows { p with
      instrument := { p.instrument with
        supply := (prog.timed Board.elapse q.device.firmware.board).2.supply }
      aux := (prog.timed Board.elapse q.device.firmware.board).2.aux } := by
  obtain ⟨hsettled, hinstrument⟩ := operate_beside w h.settled hacts
  rw [h.instrument] at hinstrument
  exact ⟨hsettled, hinstrument, rfl⟩

theorem beside (h : q.Shows p) (prog : Program Board Unit)
    (hcoils : Acts Board.SameCoils prog) (haux : Acts Board.SameAux prog) :
    (q.operate w prog).Shows
      (p.supplied (prog.timed Board.elapse q.device.firmware.board).2.supply) := by
  have hshows := h.operate (w := w) hcoils
  rwa [(haux.keeps (f := Board.aux) Board.elapse_aux _).1, h.aux] at hshows

/-- Time that passes. -/
theorem elapse (h : q.Shows p) (ticks : Nat) : (q.operate w (Program.block ticks)).Shows
    (p.supplied (p.instrument.supply.elapse ticks)) := by
  have hshows := h.beside (w := w) (Program.block ticks) trivial trivial
  rwa [timed_block, Board.supply_elapse, h.supply] at hshows

/-- A command that does nothing on the board. -/
theorem still (h : q.Shows p) : (q.operate w (pure ())).Shows p := by
  have hshows := h.beside (w := w) (pure ()) trivial trivial
  rwa [timed_pure, h.supply] at hshows

/-- A command that selects a position of a switch. -/
theorem select (h : q.Shows p) (d : Selection) :
    (q.operate w (hvOn 1 >>= fun _ => d.program)).Shows { p with
      instrument := { p.instrument with
        relays := p.instrument.relays.command w p.instrument.polarity p.instrument.supply d.switch
          d.connector
        supply := p.instrument.supply.selected } } := by
  obtain ⟨hduring, hoff, hpolarity, hsupply⟩ :=
    d.during w (acts_hvOn 1) (supply_hvOn 1 _) h.settled.off q.relays
  refine ⟨⟨h.settled.idle, hoff⟩, ?_, ?_⟩
  · rw [← h.instrument]
    simp only [Plant.operate, Plant.instrument, Device.image, hduring, hpolarity, hsupply]
  · rw [← h.aux]
    exact ((acts_aux_select d).keeps (f := Board.aux) Board.elapse_aux _).1

theorem withEeprom (h : q.Shows p) {eeprom : Eeprom} {image : Image}
    (himage : eeprom.image = image) : (q.withEeprom eeprom).Shows (p.put image) := by
  refine ⟨⟨h.settled.idle, h.settled.off⟩, ?_, h.aux⟩
  rw [Panel.put, ← h.instrument, ← himage]
  rfl

end Plant.Shows

theorem acts_auxLine (k : Fin 4) (on : Int) : Acts Board.SameCoils (auxLine (auxPin k) on) := by
  have hdrive (v : Bool) (b : Board) : Board.SameCoils b (b.drive (auxPin k) v) :=
    sameCoils_drive b v (by revert k; decide) fun c => by cases c <;> revert k <;> decide
  unfold auxLine
  split
  · exact acts_modify (hdrive true)
  · exact acts_modify (hdrive false)

theorem noWait_auxLine (k : Fin 4) (on : Int) : NoWait (auxLine (auxPin k) on) := by
  unfold auxLine
  split <;> trivial

theorem acts_supply_auxLine (k : Fin 4) (on : Int) :
    Acts (fun b t : Board => t.supply = b.supply) (auxLine (auxPin k) on) := by
  have hpin : auxPin k ≠ .hvEnable := by
    revert k
    decide
  unfold auxLine
  split <;> exact acts_modify (Board.supply_drive hpin _)

theorem run_auxLine (k : Fin 4) (on : Int) (b : Board) :
    ((auxLine (auxPin k) on).run b).2.aux = Function.update b.aux k (decide (on ≠ 0)) := by
  have hdrive (v : Bool) : (b.drive (auxPin k) v).aux = Function.update b.aux k v := by
    funext j
    by_cases hj : j = k
    · rw [hj, Function.update_self]
      exact b.drive_gpio_self (auxPin k) v
    · rw [Function.update_of_ne hj]
      exact b.drive_gpio_ne v (by revert j k; decide)
  rw [auxLine]
  by_cases hon : on ≠ 0
  · rw [if_pos hon, decide_eq_true hon, ← hdrive true]
    rfl
  · rw [if_neg hon, decide_eq_false hon, ← hdrive false]
    rfl

theorem toInt_ne_zero (on : UInt32) : on.toInt32.toInt ≠ 0 ↔ on ≠ 0 := by
  refine not_congr ⟨?_, ?_⟩
  · intro h
    have hzero : on.toInt32 = 0 := Int32.toInt_inj.mp h
    have hback := congrArg Int32.toUInt32 hzero
    rwa [UInt32.toUInt32_toInt32] at hback
  · rintro rfl
    rfl

/-- `aux` drives the line that it names. -/
theorem Plant.Shows.auxLine {w : Wiring} {q : Plant} {p : Panel} (h : q.Shows p) (k : Fin 4)
    (on : UInt32) : (q.operate w (auxLine (auxPin k) on.toInt32.toInt)).Shows
      { p with aux := fun j => if j.val = k.val then decide (on ≠ 0) else p.aux j } := by
  have haux : (fun j : Fin 4 => if j.val = k.val then decide (on ≠ 0) else p.aux j) =
      Function.update p.aux k (decide (on.toInt32.toInt ≠ 0)) := by
    funext j
    simp only [Function.update_apply, Fin.ext_iff, toInt_ne_zero]
  obtain ⟨htimed, hwaits⟩ :=
    (noWait_auxLine k on.toInt32.toInt).timed Board.elapse q.device.firmware.board
  have hsupply := (acts_supply_auxLine k on.toInt32.toInt).elapses Board.supply_elapse
    q.device.firmware.board
  rw [hwaits, List.map_nil, List.foldl_nil, h.supply] at hsupply
  have hshows := h.operate (w := w) (acts_auxLine k on.toInt32.toInt)
  rw [hsupply, htimed, run_auxLine, h.aux] at hshows
  rwa [haux]

/-- One command, on the controller and on the panel. -/
theorem perform_shows {w : Wiring} {q : Plant} {p p' : Panel} {act : Action} (h : q.Shows p)
    (hact : p.act w act = some p') :
    ∃ q', q.perform w act = some q' ∧ q'.Shows p' ∧ p'.typed = p.typed := by
  cases act with
  | peek bits a => cases hact
  | poke bits a val => cases hact
  | hardfault => cases hact
  | resetSystem => cases hact
  | eeprom9366Test =>
    obtain rfl := Option.some.inj hact
    exact ⟨_, rfl, h.withEeprom (Eeprom.test_image _), rfl⟩
  | eeprom9366EraseAll =>
    obtain rfl := Option.some.inj hact
    exact ⟨_, rfl, h.withEeprom (Eeprom.eraseAll_image _), rfl⟩
  | s1J1sel on =>
    obtain rfl := Option.some.inj hact
    exact ⟨_, rfl, h.select (.s1 on), rfl⟩
  | s2J1sel on =>
    obtain rfl := Option.some.inj hact
    exact ⟨_, rfl, h.select (.s2 on), rfl⟩
  | aux switchN on =>
    obtain rfl := Option.some.inj hact
    refine ⟨_, rfl, ?_, rfl⟩
    match switchN with
    | 0 => exact h.auxLine 0 on
    | 1 => exact h.auxLine 1 on
    | 2 => exact h.auxLine 2 on
    | 3 => exact h.auxLine 3 on
    | n + 4 =>
      have hnone : (fun k : Fin 4 => if k.val = n + 4 then decide (on ≠ 0) else p.aux k) =
          p.aux := by
        funext k
        exact if_neg (by omega)
      rw [hnone]
      exact h.still
  | hvOn on =>
    obtain rfl := Option.some.inj hact
    have hshows := h.beside (w := w) (hvOn on) (acts_hvOn on) (acts_aux_hvOn on)
    rw [supply_hvOn, h.supply] at hshows
    exact ⟨_, rfl, hshows, rfl⟩
  | timer =>
    obtain rfl := Option.some.inj hact
    have hshows := h.beside (w := w) (Action.onBoard .timer) trivial trivial
    have hsupply : ((Action.onBoard .timer).timed Board.elapse q.device.firmware.board).2.supply =
        ((q.device.firmware.board.supply.elapse 5).elapse 5).elapse 5 := by
      rw [← Board.supply_elapse, ← Board.supply_elapse, ← Board.supply_elapse]
      rfl
    rw [hsupply, h.supply] at hshows
    exact ⟨_, rfl, hshows, rfl⟩
  | _ =>
    -- the others only print
    obtain rfl := Option.some.inj hact
    exact ⟨_, rfl, h.still, rfl⟩

/-! ### Keys -/

namespace Station.Shows

variable {w : Wiring} {t : Station} {p p' : Panel}

/-- Before the end of a line no command has been called. -/
theorem foldl_world {σ : Type} (cmdParse : σ → LineBuffer → σ × LineBuffer) (line : LineBuffer)
    (world : σ) (passed : List (List UInt8)) {typed : List UInt8} (hcr : 0x0d ∉ typed)
    (horderly : LineEdit.Orderly erases 1022 typed) :
    (typed.foldl (DebugShell.rx cmdParse) (.prompt line world passed)).world = world := by
  obtain ⟨s, hrun, -⟩ := DebugShell.foldl_edits cmdParse (DebugShell.holds_prompt line world) hcr
    horderly
  rw [hrun]
  rfl

/-- The commands of a line that is complete. -/
theorem commands (h : t.Shows p)
    (hrun : Events.run (Panel.act w) { p with typed := [] } (meaning (typedWords p.typed)) =
      some p') :
    ∃ plant, Events.run (Plant.perform w) t.plant (meaning (typedWords p.typed)) = some plant ∧
      plant.Shows p' ∧ p'.typed = [] := by
  have hstart : t.plant.Shows { p with typed := [] } :=
    ⟨h.plant.settled, h.plant.instrument, h.plant.aux⟩
  refine Events.run_simulates (R := fun (q : Plant) p => q.Shows p ∧ p.typed = []) ?_
    ⟨hstart, rfl⟩ hrun
  rintro q p act p' ⟨hq, htyped⟩ hact
  obtain ⟨q', hperform, hshows, hkept⟩ := perform_shows hq hact
  exact ⟨q', hperform, hshows, hkept.trans htyped⟩

theorem key (h : t.Shows p) {b : UInt8} (hkey : p.key w b = some p') :
    ∃ t', t.key w b = some t' ∧ t'.Shows p' := by
  obtain ⟨line, s, passed, hcontext, hshell⟩ := h.shell
  have hnow : t.shell.world = s := by
    rw [hshell]
    exact foldl_world _ line s passed h.noCr h.orderly
  have hnext : DebugShell.rx (shellParse firmwareTables) t.shell b =
      (p.typed ++ [b]).foldl (DebugShell.rx (shellParse firmwareTables))
        (.prompt line s passed) := by
    rw [List.foldl_append, ← hshell]
    rfl
  unfold Panel.key at hkey
  split at hkey
  · rename_i hcr
    subst hcr
    obtain ⟨hentered, hrun⟩ := Option.ite_none_right_eq_some.mp hkey
    obtain ⟨plant, hplant, hshows, htyped⟩ := h.commands hrun
    obtain ⟨line', passed', hline⟩ := hentered.line line hcontext passed
    rw [hline] at hnext
    have hmemory : (DebugShell.rx (shellParse firmwareTables) t.shell 0x0d).world.memory =
        s.memory ++ meaning (typedWords p.typed) := by
      rw [hnext]
      rfl
    have hstep : t.key w 0x0d =
        some ⟨plant, DebugShell.rx (shellParse firmwareTables) t.shell 0x0d⟩ := by
      simp only [Station.key, hmemory, hnow, List.drop_left, hplant, Option.map_some]
    refine ⟨_, hstep, hshows, ?_, ?_, line', { s with
      argv := typedWords p.typed
      memory := s.memory ++ meaning (typedWords p.typed) }, passed', hcontext, ?_⟩
    · rw [htyped]
      exact List.not_mem_nil
    · rw [htyped]
      decide
    · rw [htyped]
      exact hnext
  · rename_i hcr
    obtain ⟨horderly, heq⟩ := Option.ite_none_right_eq_some.mp hkey
    obtain rfl := Option.some.inj heq
    have hnoCr : 0x0d ∉ p.typed ++ [b] := by
      rw [List.mem_append, List.mem_singleton]
      exact fun hmem => hmem.elim h.noCr fun hb => hcr hb.symm
    have hworld := foldl_world (shellParse firmwareTables) line s passed hnoCr horderly
    have hstep : t.key w b =
        some ⟨t.plant, DebugShell.rx (shellParse firmwareTables) t.shell b⟩ := by
      simp only [Station.key, hnext, hworld, hnow, List.drop_length, Events.run_nil,
        Option.map_some]
    refine ⟨_, hstep, ⟨h.plant.settled, h.plant.instrument, h.plant.aux⟩, hnoCr, horderly, ?_⟩
    exact ⟨line, s, passed, hcontext, hnext⟩

/-- One event, for the controller and for the panel. -/
theorem step (residue : List UInt8 → List UInt8) (h : t.Shows p) {e : StationEvent}
    {answer : Option Answer} (hstep : p.step w e = some (answer, p')) :
    ∃ t', t.step w residue e = some (answer, t') ∧ t'.Shows p' := by
  cases e with
  | key b =>
    obtain ⟨p₁, hkey, heq⟩ := Option.map_eq_some_iff.mp hstep
    obtain ⟨rfl, rfl⟩ := Prod.mk.inj heq
    obtain ⟨t', ht, hshows⟩ := h.key hkey
    exact ⟨t', by rw [Station.step, ht, Option.map_some], hshows⟩
  | call c =>
    obtain ⟨⟨a, u⟩, hcall, heq⟩ := Option.map_eq_some_iff.mp hstep
    obtain ⟨rfl, rfl⟩ := Prod.mk.inj heq
    obtain ⟨hinstrument, hsettled⟩ := run_call w residue h.plant.settled c
    rw [h.plant.instrument, hcall] at hinstrument
    obtain ⟨⟨a', q⟩, hrun, heq'⟩ := Option.map_eq_some_iff.mp hinstrument
    obtain ⟨rfl, hq⟩ := Prod.mk.inj heq'
    have haux : q.device.firmware.board.aux = p.aux := by
      have hserve (q : Plant) (bytes : List UInt8) (hq : q.device.firmware.board.aux = p.aux) :
          (q.serve w residue bytes).2.device.firmware.board.aux = p.aux :=
        (q.serve_aux w residue bytes).trans hq
      exact Dialogue.run_invariant hserve h.plant.aux hrun
    refine ⟨{ t with plant := q }, ?_, ⟨hsettled _ q hrun, hq, haux⟩, h.noCr, h.orderly, h.shell⟩
    rw [Station.step, Plant.step, hrun]
    rfl
  | idle ticks =>
    obtain ⟨rfl, rfl⟩ := Prod.mk.inj (Option.some.inj hstep)
    exact ⟨_, rfl, h.plant.elapse ticks, h.noCr, h.orderly, h.shell⟩
  | powerCycle stale line =>
    obtain ⟨u, hcycle, heq⟩ := Option.map_eq_some_iff.mp hstep
    obtain ⟨rfl, rfl⟩ := Prod.mk.inj heq
    obtain ⟨hinstrument, hsettled⟩ := powerCycle_instrument w t.plant stale
    rw [h.plant.instrument, hcycle] at hinstrument
    obtain ⟨q, hq, hu⟩ := Option.map_eq_some_iff.mp hinstrument
    refine ⟨⟨q, .prompt line ⟨[], [], t.shell.world.atZero, []⟩ []⟩, ?_,
      ⟨hsettled q hq, hu, Plant.powerCycle_aux hq⟩, List.not_mem_nil,
      (by decide : LineEdit.Orderly erases 1022 []), line, _, [], rfl, rfl⟩
    rw [Station.step, hq]
    rfl

end Station.Shows

/-- In any order of calls of the host, keys at the terminal, idle times and power cycles, if the
shell can follow the lines, host and terminal operate one panel: each call answers what the panel
answers, a line does at its end what its words mean, and the keys before that do nothing. -/
theorem one_panel (w : Wiring) (residue : List UInt8 → List UInt8) {t : Station} {p p' : Panel}
    (h : t.Shows p) {es : List StationEvent} {answers : List (Option Answer)}
    (hrun : Service.tryRun (Panel.step w) p es = some (answers, p')) :
    ∃ t', Service.tryRun (Station.step w residue) t es = some (answers, t') ∧ t'.Shows p' :=
  Service.tryRun_simulates (fun _ _ _ _ _ h hstep => h.step residue hstep) h hrun

/-- The power has come on, and the shell prompts. -/
def newStation (image : Image) (line : LineBuffer) : Station :=
  ⟨newPlant image, .prompt line ⟨[], [], [], []⟩ []⟩

def newPanel (image : Image) : Panel :=
  ⟨(newPlant image).instrument, fun _ => false, []⟩

/-- `s2 B` with a call that selects the other position between its keys, then `aux 3 1`. The supply
is turned off, and `s1 B` comes 20 ticks before the timer expires. -/
def bothWays : List StationEvent :=
  (ascii "s2 ").map .key ++ .call (.spdt .sw2 .j1sel) ::
    (ascii "B\raux 3 1\rhv 0\r").map .key ++ .idle 4940 :: (ascii "s1 B\r").map .key

theorem newStation_shows (image : Image) (line : LineBuffer) :
    (newStation image line).Shows (newPanel image) where
  plant := ⟨⟨rfl, powerUp_coilsOff⟩, rfl, rfl⟩
  noCr := List.not_mem_nil
  orderly := (by decide : LineEdit.Orderly erases 1022 [])
  shell := ⟨line, _, [], rfl, rfl⟩

theorem run_bothWays :
    (Service.tryRun (Panel.step fun _ => true) (newPanel fun _ => 0xFF) bothWays).map
      (fun r => (r.2.instrument.relays .s2, r.2.aux 3, r.2.instrument.relays .s1)) =
        some (some .j2, true, some .j1) := by
  decide +kernel

theorem one_panel_both_ways : ∃ answers t',
    Service.tryRun (Station.step (fun _ => true) fun _ => []) (newStation (fun _ => 0xFF) .zeroed)
      bothWays = some (answers, t') ∧
    t'.plant.relays .s2 = some .j2 ∧ t'.plant.device.firmware.board.gpio .aux3 = true ∧
    t'.plant.relays .s1 = some .j1 := by
  obtain ⟨⟨answers, p⟩, hrun, hend⟩ := Option.map_eq_some_iff.mp run_bothWays
  obtain ⟨hrelay, haux, hunmoved⟩ : p.instrument.relays .s2 = some .j2 ∧ p.aux 3 = true ∧
      p.instrument.relays .s1 = some .j1 := by
    simpa only [Prod.mk.injEq] using hend
  obtain ⟨t', ht, hshows⟩ :=
    one_panel (fun _ => true) (fun _ => []) (newStation_shows (fun _ => 0xFF) .zeroed) hrun
  have hinstrument := hshows.plant.instrument
  refine ⟨answers, t', ht, ?_, ?_, ?_⟩
  · rw [← hrelay, ← hinstrument]
    rfl
  · have hlines := hshows.plant.aux
    rw [← haux, ← hlines]
    rfl
  · rw [← hunmoved, ← hinstrument]
    rfl

end UsbSpdt
