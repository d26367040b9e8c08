import UsbSpdt.Firmware.Shell
import UsbSpdt.Library.Serial

/-!
# EEPROM operations of two tasks

The instrument task and the debug shell share the bus without a lock, and an operation blocks with
the chip still selected. Bits of another operation are then lost in the instruction of the first,
and while the chip programs its cells it hears nothing at all. Operations of which none begins while
the other task has the chip selected or programming are those of some serial order.
-/

namespace UsbSpdt

open Program

/-- The instructions that keep the chip busy for a time. -/
def ChipInstr.programs : ChipInstr → Bool
  | .eraseAll => true
  | .erase _ => true
  | .write _ _ => true
  | .writeEnable => false
  | .other => false

/-- Between the two states the chip was deselected after an instruction that changes cells. -/
def Chip.startsProgramming (c c' : Chip) : Bool :=
  match c.phase, c'.phase with
  | .complete i, .standby => c.writeEnabled && i.programs
  | _, _ => false

/-- The bus as the two tasks share it. `log` holds the operations that have returned. -/
structure SharedEeprom where
  bus : EepromBus
  /-- Ticks until the chip has programmed its cells. -/
  busy : Nat
  log : List (FirmwareTask × EepromOp × Option UInt8)

namespace SharedEeprom

/-- A busy chip ignores its lines. `programTicks` is the time that it takes to program. -/
def drive (programTicks : Nat) (f : EepromBus → EepromBus) (s : SharedEeprom) : SharedEeprom :=
  if s.busy = 0 then
    { s with
      bus := f s.bus
      busy := if s.bus.chip.startsProgramming (f s.bus).chip then programTicks else 0 }
  else { s with bus := { f s.bus with chip := s.bus.chip } }

/-- The chip is neither selected nor programming. -/
def Free (s : SharedEeprom) : Prop := s.bus.chip.phase = .standby ∧ s.busy = 0

instance : DecidablePred Free := fun s =>
  match h : s.bus.chip.phase with
  | .standby => decidable_of_iff (s.busy = 0) ⟨fun hbusy => ⟨h, hbusy⟩, And.right⟩
  | .selected | .instruction _ | .dataIn .. | .dataOut _ | .complete _ =>
    isFalse fun hfree => ChipPhase.noConfusion (h.symm.trans hfree.1)

end SharedEeprom

/-- The chip programs while time passes, whatever the tasks do. -/
def eepromSurroundings : Surroundings SharedEeprom where
  tick s := some { s with busy := s.busy - 1 }
  react _ := none

/-- An operation of a task, whose result is noted when it returns. -/
def sharedBody (programTicks : Nat) (i : FirmwareTask) (o : EepromOp) :
    Program SharedEeprom Unit := do
  let r ← o.body.within SharedEeprom.bus (SharedEeprom.drive programTicks)
  Program.modify fun s => { s with log := s.log ++ [(i, o, r)] }

/-- While a task is at work the others leave the bus alone, and the chip goes on programming. -/
structure Undisturbed (n : Nat) (s t : SharedEeprom) : Prop where
  bus : t.bus = s.bus
  busy : t.busy ≤ s.busy - n

theorem rely_undisturbed : Rely Undisturbed where
  refl := fun s => ⟨rfl, Nat.le_refl _⟩
  trans := by
    intro m n s t u h k
    have hm := h.busy
    have hn := k.busy
    exact ⟨k.bus.trans h.bus, by omega⟩
  mono := by
    intro m n s t hmn h
    have hn := h.busy
    exact ⟨h.bus, by omega⟩

/-! ### An operation alone -/

/-- The chip is idle whenever the program drives it, if it is busy for `busy` ticks at first, and
selected whenever the program blocks. -/
def Settles (programTicks : Nat) {α : Type} : Program EepromBus α → EepromBus → Nat →
    (α → EepromBus → Nat → Prop) → Prop
  | .done a, bus, busy, K => K a bus busy
  | .act f next, bus, busy, K => busy = 0 ∧ Settles programTicks next (f bus)
      (if bus.chip.startsProgramming (f bus).chip then programTicks else 0) K
  | .look next, bus, busy, K => Settles programTicks (next bus) bus busy K
  | .wait n next, bus, busy, K =>
    bus.chip.phase ≠ .standby ∧ Settles programTicks next bus (busy - n) K

variable {programTicks : Nat} {α β : Type}

theorem settles_bind {p : Program EepromBus α} {f : α → Program EepromBus β} {bus : EepromBus}
    {busy : Nat} {K : β → EepromBus → Nat → Prop}
    (h : Settles programTicks p bus busy fun a bus busy => Settles programTicks (f a) bus busy K) :
    Settles programTicks (p >>= f) bus busy K := by
  change Settles programTicks (p.bind f) bus busy K
  induction p generalizing bus busy with
  | done a => exact h
  | act g next ih => exact ⟨h.1, ih h.2⟩
  | look next ih => exact ih bus h
  | wait n next ih => exact ⟨h.1, ih h.2⟩

/-- A program that settles alone does so beside others that leave the bus alone. -/
theorem throughout_within {Q : α → SharedEeprom → Prop} {p : Program EepromBus α}
    {s : SharedEeprom} {busy : Nat} {K : α → EepromBus → Nat → Prop}
    (hp : Settles programTicks p s.bus busy K) (hbusy : s.busy ≤ busy)
    (hK : ∀ a t n, t.busy ≤ n → K a t.bus n → Q a t) :
    Throughout Undisturbed (fun p t => p.running = false → ¬ t.Free) Q
      (p.within SharedEeprom.bus (SharedEeprom.drive programTicks)) s := by
  induction p generalizing s busy with
  | done a => exact hK a s busy hbusy hp
  | act g next ih =>
    obtain ⟨rfl, hnext⟩ := hp
    have hdrive : s.drive programTicks g = { s with
        bus := g s.bus
        busy := if s.bus.chip.startsProgramming (g s.bus).chip then programTicks else 0 } :=
      if_pos (Nat.le_zero.mp hbusy)
    constructor
    · intro hrunning
      cases hrunning
    · rw [hdrive]
      exact ih hnext (Nat.le_refl _)
  | look next ih => exact ⟨nofun, ih s.bus hp hbusy⟩
  | wait n next ih =>
    obtain ⟨hselected, hnext⟩ := hp
    constructor
    · rintro t ht - - ⟨hstandby, -⟩
      rw [ht.bus] at hstandby
      exact hselected hstandby
    · intro t ht
      have htbusy := ht.busy
      rw [← ht.bus] at hnext
      exact ih hnext (by omega)

theorem Settles.mono {p : Program EepromBus α} {bus : EepromBus} {busy : Nat}
    {K K' : α → EepromBus → Nat → Prop} (h : Settles programTicks p bus busy K)
    (hK : ∀ a bus n, K a bus n → K' a bus n) : Settles programTicks p bus busy K' := by
  induction p generalizing bus busy with
  | done a => exact hK a bus busy h
  | act g next ih => exact ⟨h.1, ih h.2⟩
  | look next ih => exact ih bus h
  | wait n next ih => exact ⟨h.1, ih h.2⟩

/-- What settles ends as it does alone. -/
theorem Settles.run {p : Program EepromBus α} {bus : EepromBus} {busy : Nat}
    {K : α → EepromBus → Nat → Prop} (h : Settles programTicks p bus busy K) :
    Settles programTicks p bus busy fun a bus' n => K a bus' n ∧ p.run bus = (a, bus') := by
  induction p generalizing bus busy with
  | done a => exact ⟨h, rfl⟩
  | act g next ih => exact ⟨h.1, ih h.2⟩
  | look next ih => exact ih bus h
  | wait n next ih => exact ⟨h.1, ih h.2⟩

/-! ### The routines of the driver -/

theorem Chip.select_phase (c : Chip) : c.select.phase ≠ .standby := by
  obtain ⟨cells, en, phase⟩ := c
  cases phase <;> exact ChipPhase.noConfusion

theorem Chip.decode_phase (cells : Image) (bits : List Bool) : decode cells bits ≠ .standby := by
  unfold decode
  split <;> exact ChipPhase.noConfusion

theorem Chip.clock_phase {c : Chip} (h : c.phase ≠ .standby) (b : Bool) :
    (c.clock b).phase ≠ .standby := by
  obtain ⟨cells, en, phase⟩ := c
  cases phase with
  | standby => exact absurd rfl h
  | selected => cases b <;> exact ChipPhase.noConfusion
  | instruction bits =>
    simp only [clock]
    split
    · exact ChipPhase.noConfusion
    · exact decode_phase cells _
  | dataIn address bits =>
    simp only [clock]
    split <;> exact ChipPhase.noConfusion
  | dataOut bits => exact ChipPhase.noConfusion
  | complete i => exact ChipPhase.noConfusion

/-- Bits do not deselect the chip. -/
theorem Chip.shift_phase {c : Chip} (h : c.phase ≠ .standby) (bits : List Bool) :
    (c.shift bits).2.phase ≠ .standby := by
  induction bits generalizing c with
  | nil => exact h
  | cons b bits ih => exact ih (clock_phase h b)

theorem not_startsProgramming_self (c : Chip) : c.startsProgramming c = false := by
  obtain ⟨cells, en, phase⟩ := c
  cases phase <;> rfl

theorem not_startsProgramming_select (c : Chip) : c.startsProgramming c.select = false := by
  obtain ⟨cells, en, phase⟩ := c
  cases phase <;> rfl

theorem not_startsProgramming_shift (c : Chip) (bits : List Bool) :
    c.startsProgramming (c.shift bits).2 = false := by
  obtain ⟨cells, en, phase⟩ := c
  cases phase with
  | complete i =>
    rw [Chip.shift_complete]
    rfl
  | standby => rfl
  | selected => rfl
  | instruction bits => rfl
  | dataIn address bits => rfl
  | dataOut bits => rfl

theorem settles_spiXfer {b : UInt8} {bus : EepromBus} {K : UInt8 → EepromBus → Nat → Prop}
    (h : K (UInt8.ofNat (Bits.toNat (bus.chip.shift (Bits.ofNat 8 b.toNat)).1))
      { bus with chip := (bus.chip.shift (Bits.ofNat 8 b.toNat)).2 } 0) :
    Settles programTicks (spiXfer b) bus 0 K := by
  constructor
  · rfl
  · change K _ _ (if bus.chip.startsProgramming (bus.chip.shift (Bits.ofNat 8 b.toNat)).2 then _
      else 0)
    rw [not_startsProgramming_shift]
    exact h

theorem settles_assertCS {bus : EepromBus} {K : Unit → EepromBus → Nat → Prop}
    (h : K () { bus with chip := bus.chip.select } 0) :
    Settles programTicks assertCS bus 0 K := by
  constructor
  · rfl
  · rw [not_startsProgramming_select]
    exact h

theorem settles_deassertCS {bus : EepromBus} {K : Unit → EepromBus → Nat → Prop}
    (hselected : bus.chip.phase ≠ .standby)
    (h : K () { bus with chip := bus.chip.deselect }
      (if bus.chip.startsProgramming bus.chip.deselect then programTicks else 0)) :
    Settles programTicks deassertCS bus 0 K := ⟨hselected, rfl, h⟩

/-- A transaction leaves the chip busy only if its instruction programs. -/
theorem settles_spiTransaction {command : UInt8} {address : UInt16} {data : UInt8}
    {bus : EepromBus} {K : UInt8 → EepromBus → Nat → Prop}
    (h : ∀ r c, c = (bus.chip.select.shift (Bits.ofNat 6 command.toNat ++
        Bits.ofNat 9 address.toNat ++ Bits.ofNat 1 (data.toNat >>> 7) ++
          Bits.ofNat 8 ((data.toNat &&& 0x7f) <<< 1))).2 →
      K r { bus with chip := c.deselect }
        (if c.startsProgramming c.deselect then programTicks else 0)) :
    Settles programTicks (spiTransaction command address data) bus 0 K := by
  rw [← bits_b1_b2] at h
  apply settles_bind
  apply settles_assertCS
  apply settles_bind
  apply settles_spiXfer
  apply settles_bind
  apply settles_spiXfer
  apply settles_bind
  apply settles_spiXfer
  apply settles_bind
  apply settles_deassertCS (Chip.shift_phase (Chip.shift_phase (Chip.shift_phase
    bus.chip.select_phase _) _) _)
  apply h
  simp only [bits_byte, Chip.shift_append_snd]

theorem settles_spiCMD {command : UInt8} {address : UInt16} {bus : EepromBus}
    {K : Unit → EepromBus → Nat → Prop}
    (h : ∀ c, c = (bus.chip.select.shift
        (Bits.ofNat 7 command.toNat ++ Bits.ofNat 9 address.toNat)).2 →
      K () { bus with chip := c.deselect }
        (if c.startsProgramming c.deselect then programTicks else 0)) :
    Settles programTicks (spiCMD command address) bus 0 K := by
  rw [← bits_command] at h
  apply settles_bind
  apply settles_assertCS
  apply settles_bind
  apply settles_spiXfer
  apply settles_bind
  apply settles_spiXfer
  apply settles_deassertCS (Chip.shift_phase (Chip.shift_phase bus.chip.select_phase _) _)
  apply h
  simp only [bits_byte, Chip.shift_append_snd]

theorem settles_writeEnable (cells : Image) (en : Bool) (flag : UInt32) :
    Settles programTicks writeEnable (.rest cells en flag) 0 fun _ _ n => n = 0 := by
  change Settles programTicks (if flag = 0 then _ else _) (.rest cells en flag) 0 _
  split
  · apply settles_bind
    apply settles_spiCMD
    rintro c rfl
    have hquiet : (⟨cells, en, .complete .writeEnable⟩ : Chip).startsProgramming
        ⟨cells, true, .standby⟩ = false := Bool.and_false en
    change Settles programTicks _ _ (if (⟨cells, en, .complete .writeEnable⟩ :
      Chip).startsProgramming ⟨cells, true, .standby⟩ then programTicks else 0) _
    rw [hquiet]
    constructor
    · rfl
    · rw [not_startsProgramming_self]
      rfl
  · rfl

theorem busy_le {b : Bool} (h : programTicks ≤ 10 / portTickRateMs) :
    (if b then programTicks else 0) ≤ 10 / portTickRateMs := by
  split
  · exact h
  · exact Nat.zero_le _

namespace EepromOp

/-- What an operation does on the bus. -/
def work : EepromOp → Program EepromBus (Option UInt8)
  | .write address data => do
    writeEnable
    let _ ← spiTransaction 0x5 address data
    pure none
  | .read address => do pure (some (← eeprom9366Read address))
  | .erase address => do
    writeEnable
    spiCMD 0x7 address
    pure none
  | .eraseAll => do
    writeEnable
    spiCMD 0x4 0x100
    pure none

/-- How long it waits behind that. -/
def pauseMs : EepromOp → Option Nat
  | .read _ => none
  | _ => some 10

def pause {σ : Type} (o : EepromOp) : Program σ Unit := o.pauseMs.elim (pure ()) delayms

theorem body_eq (o : EepromOp) :
    o.body = o.work >>= fun r => o.pause >>= fun _ => pure r := by
  cases o with
  | read address => rfl
  | write address data =>
    simp only [body, eeprom9366Write, work, Program.bind_assoc]
    rfl
  | erase address =>
    simp only [body, eeprom9366Erase, work, Program.bind_assoc]
    rfl
  | eraseAll =>
    simp only [body, eeprom9366EraseAll, work, Program.bind_assoc]
    rfl

/-- Behind its work the chip is busy for as long as the operation waits at most. -/
def pauseTicks (o : EepromOp) : Nat := o.pauseMs.elim 0 (· / portTickRateMs)

theorem work_settles (h : programTicks ≤ 10 / portTickRateMs) (o : EepromOp) (e : Eeprom) :
    Settles programTicks o.work e.bus 0 fun _ _ n => n ≤ o.pauseTicks := by
  rw [e.bus_eq]
  cases o with
  | read address =>
    refine settles_bind (settles_spiTransaction fun r c hc => ?_)
    rw [Chip.shift_append_snd, shift_readStream] at hc
    rw [hc]
    exact Nat.le_refl 0
  | write address data =>
    refine settles_bind ((settles_writeEnable _ _ _).mono ?_)
    rintro _ bus n rfl
    exact settles_bind (settles_spiTransaction fun _ _ _ => busy_le h)
  | erase address =>
    refine settles_bind ((settles_writeEnable _ _ _).mono ?_)
    rintro _ bus n rfl
    exact settles_bind (settles_spiCMD fun _ _ => busy_le h)
  | eraseAll =>
    refine settles_bind ((settles_writeEnable _ _ _).mono ?_)
    rintro _ bus n rfl
    exact settles_bind (settles_spiCMD fun _ _ => busy_le h)

theorem run_body (o : EepromOp) (bus : EepromBus) : o.body.run bus = o.work.run bus := by
  have hpause (bus : EepromBus) : (o.pause : Program EepromBus Unit).run bus = ((), bus) := by
    cases o <;> rfl
  rw [body_eq, Program.run_bind, Program.run_bind, hpause]
  rfl

theorem throughout_pause (o : EepromOp) {s : SharedEeprom} (hstandby : s.bus.chip.phase = .standby)
    (hbusy : s.busy ≤ o.pauseTicks) :
    Throughout Undisturbed (fun _ _ => True) (fun _ => SharedEeprom.Free) o.pause s := by
  unfold pause
  unfold pauseTicks at hbusy
  cases hms : o.pauseMs with
  | none =>
    rw [hms] at hbusy
    exact ⟨hstandby, Nat.le_zero.mp hbusy⟩
  | some ms =>
    rw [hms] at hbusy
    refine ⟨fun _ _ _ => trivial, fun t ht => ⟨?_, ?_⟩⟩
    · rw [ht.bus]
      exact hstandby
    · exact Nat.le_zero.mp (Nat.le_trans ht.busy (Nat.le_of_eq (Nat.sub_eq_zero_of_le hbusy)))

theorem acts_pause {S : SharedEeprom → SharedEeprom → Prop} (o : EepromOp) :
    Acts S (o.pause : Program SharedEeprom Unit) := by
  cases o <;> trivial

end EepromOp

/-! ### The operations of both tasks -/

/-- The operations run one after another on the driver: their results and the bus they leave. -/
def serialRun (bus : EepromBus) (order : List (FirmwareTask × EepromOp)) :
    List (FirmwareTask × EepromOp × Option UInt8) × EepromBus :=
  Service.run (fun bus call => ((call.1, call.2, (call.2.body.run bus).1), (call.2.body.run bus).2))
    bus order

theorem serialRun_concat (bus : EepromBus) (order : List (FirmwareTask × EepromOp))
    (i : FirmwareTask) (o : EepromOp) :
    serialRun bus (order ++ [(i, o)]) =
      ((serialRun bus order).1 ++ [(i, o, (o.body.run (serialRun bus order).2).1)],
        (o.body.run (serialRun bus order).2).2) := by
  rw [serialRun, Service.run_append]
  rfl

/-- The operations in a log. -/
def operations (log : List (FirmwareTask × EepromOp × Option UInt8)) :
    List (FirmwareTask × EepromOp) := log.map fun x => (x.1, x.2.1)

theorem notedBy_operations (i : FirmwareTask)
    (log : List (FirmwareTask × EepromOp × Option UInt8)) :
    Tasks.notedBy i (operations log) = (Tasks.entries i log).map fun x => x.2.1 := by
  simp [Tasks.notedBy, operations, Tasks.entries, List.filter_map, Function.comp_def]

namespace SharedEeprom

def start (e : Eeprom) : SharedEeprom := ⟨e.bus, 0, []⟩

/-- What has been read and is stored is that of the serial run. -/
structure Serial (e : Eeprom) (log : List (FirmwareTask × EepromOp × Option UInt8))
    (s : SharedEeprom) : Prop where
  run : serialRun e.bus (operations log) = (log, s.bus)
  rest : ∃ e' : Eeprom, e'.bus = s.bus

end SharedEeprom

/-- From there an operation leads to the serial run with one more. -/
theorem throughout_work {e : Eeprom} {log : List (FirmwareTask × EepromOp × Option UInt8)}
    {s : SharedEeprom} (h : programTicks ≤ 10 / portTickRateMs) (hs : s.Serial e log)
    (hfree : s.Free) (i : FirmwareTask) (o : EepromOp) :
    Throughout Undisturbed (fun p t => p.running = false → ¬ t.Free)
      (fun r t => t.Serial e (log ++ [(i, o, r)]) ∧
        Throughout Undisturbed (fun _ _ => True) (fun _ => SharedEeprom.Free) o.pause t)
      (o.work.within SharedEeprom.bus (SharedEeprom.drive programTicks)) s := by
  obtain ⟨e', he'⟩ := hs.rest
  have hsettles := (o.work_settles h e').run
  rw [he'] at hsettles
  refine throughout_within hsettles (Nat.le_of_eq hfree.2) ?_
  rintro r t n hbusy ⟨hn, hrun⟩
  have hrest : ∃ e'' : Eeprom, e''.bus = t.bus := by
    obtain ⟨e'', hbus, -⟩ := (EepromOp.body_refines s.bus e'.image o ⟨e', he', rfl⟩).2
    rw [EepromOp.run_body, hrun] at hbus
    exact ⟨e'', hbus⟩
  refine ⟨⟨?_, hrest⟩, ?_⟩
  · have hops : operations (log ++ [(i, o, r)]) = operations log ++ [(i, o)] := List.map_append ..
    rw [hops, serialRun_concat, hs.run, EepromOp.run_body, hrun]
  · obtain ⟨e'', hbus⟩ := hrest
    exact o.throughout_pause (hbus ▸ e''.standby) (Nat.le_trans hbusy hn)

/-- An operation does not touch the log. -/
theorem acts_within_log {S : SharedEeprom → SharedEeprom → Prop}
    (hS : ∀ s t, t.log = s.log → S s t) (p : Program EepromBus α) :
    Acts S (p.within SharedEeprom.bus (SharedEeprom.drive programTicks)) := by
  induction p with
  | done a => trivial
  | act f next ih =>
    refine ⟨fun s => hS _ _ ?_, ih⟩
    unfold SharedEeprom.drive
    split <;> rfl
  | look next ih => exact fun s => ih s.bus
  | wait n next ih => exact ih

def eepromSerial (h : programTicks ≤ 10 / portTickRateMs) (e : Eeprom) :
    Tasks.Serial FirmwareTask SharedEeprom EepromOp (Option UInt8) where
  surroundings := eepromSurroundings
  work _ o := o.work.within SharedEeprom.bus (SharedEeprom.drive programTicks)
  pause o := o.pause
  note x s := { s with log := s.log ++ [x] }
  notes s := s.log
  R := Undisturbed
  J log s := s.Serial e log
  Free := SharedEeprom.Free
  rely := rely_undisturbed
  tick := by
    intro s t ht
    obtain rfl : { s with busy := s.busy - 1 } = t := Option.some.inj ht
    exact ⟨⟨rfl, Nat.le_refl _⟩, rfl⟩
  react := fun _ _ ht => nomatch ht
  rest := fun log s t hs hst =>
    ⟨by rw [hst.bus]; exact hs.run, by rw [hst.bus]; exact hs.rest⟩
  free := fun s t hs hst => by
    have hbusy := hst.busy
    rw [hs.2] at hbusy
    exact ⟨by rw [hst.bus]; exact hs.1, Nat.le_zero.mp hbusy⟩
  noted := fun x s => ⟨⟨rfl, Nat.le_refl _⟩, rfl⟩
  begins := fun i o => by cases o <;> rfl
  works := fun i o log s hs hfree => throughout_work h hs hfree i o
  quiet := fun i o => acts_within_log (fun _ _ hlog => hlog) o.work
  pauses := fun o => o.acts_pause

theorem eepromSerial_body (h : programTicks ≤ 10 / portTickRateMs) (e : Eeprom) :
    (eepromSerial h e).body = sharedBody programTicks := by
  funext i o
  have hpause : (o.pause : Program EepromBus Unit).within SharedEeprom.bus
      (SharedEeprom.drive programTicks) = o.pause := by
    cases o <;> rfl
  rw [sharedBody, EepromOp.body_eq, within_bind]
  simp only [within_bind, hpause, Program.bind_assoc]
  rfl

/-- The two tasks, executing EEPROM operations on a chip that programs for `programTicks`. -/
abbrev eepromTasksStep (programTicks : Nat) :=
  Tasks.step eepromSurroundings (sharedBody programTicks)

/-- No operation begins while one of the other task is in progress and the chip is still selected or
programming. -/
abbrev BeginsFree : Tasks FirmwareTask SharedEeprom EepromOp → TaskEvent FirmwareTask EepromOp →
    Prop :=
  Tasks.BeginsFree SharedEeprom.Free

/-- What the tasks have read and what the chip holds is what some order of their operations, each
task's in its own order, leads to when they run one after another. -/
def Serialisable (e : Eeprom) (es : List (TaskEvent FirmwareTask EepromOp))
    (s : SharedEeprom) : Prop :=
  ∃ order : List (FirmwareTask × EepromOp), (∀ i, Tasks.notedBy i order = Tasks.issued i es) ∧
    (∀ i : FirmwareTask, s.log.filter (fun x => x.1 = i) =
      (serialRun e.bus order).1.filter fun x => x.1 = i) ∧
    s.bus.chip.cells = (serialRun e.bus order).2.chip.cells

theorem notesLast_sharedBody (i : FirmwareTask) (o : EepromOp) :
    NotesLast (fun s => operations s.log) (i, o) (sharedBody programTicks i o) := by
  refine notesLast_bind (acts_within_log (fun s t hlog => ?_) o.body) fun r =>
    Or.inr ⟨fun s => List.map_append .., rfl⟩
  exact congrArg operations hlog

/-- From any EEPROM at rest, in every run to its end in which no operation begins while the other
task has the chip selected or programming, when the chip programs within the driver's wait. -/
theorem eeprom_operations_serialise (programTicks : Nat)
    (hticks : programTicks ≤ 10 / portTickRateMs) (e : Eeprom)
    (es : List (TaskEvent FirmwareTask EepromOp)) (sys : Tasks FirmwareTask SharedEeprom EepromOp)
    (hfree : Events.Guarded (eepromTasksStep programTicks) BeginsFree
      (Tasks.start (SharedEeprom.start e)) es)
    (hrun : Events.run (eepromTasksStep programTicks) (Tasks.start (SharedEeprom.start e)) es =
      some sys)
    (hdone : ∀ i, (sys.prog i).idle = true) : Serialisable e es sys.state := by
  have hordered : (eepromSerial hticks e).Ordered sys := by
    have hstart : (SharedEeprom.start e).Serial e [] := ⟨rfl, e, rfl⟩
    rw [eepromTasksStep, ← eepromSerial_body hticks e] at hfree hrun
    exact Tasks.Serial.ordered_invariant hstart ⟨e.standby, rfl⟩ rfl hfree hrun
  obtain ⟨log, hserial, hlog⟩ := hordered.of_idle hdone
  have hnoted : Tasks.InOrder (fun s => operations s.log) es sys := by
    refine Tasks.noted_in_order ?_ ?_ notesLast_sharedBody rfl hrun
    · intro s t ht
      obtain rfl : { s with busy := s.busy - 1 } = t := Option.some.inj ht
      rfl
    · exact fun _ _ ht => nomatch ht
  refine ⟨operations log, fun i => ?_, fun i => ?_, ?_⟩
  · rw [← hnoted.of_idle (hdone i), notedBy_operations, notedBy_operations]
    exact congrArg _ (hlog i).symm
  · rw [hserial.run]
    exact hlog i
  · rw [hserial.run]

def erasedEeprom : Eeprom := Eeprom.powerUp fun _ => 0xFF

/-- The instrument task writes a byte. It still waits when the chip has programmed it, and meanwhile
the shell reads it. -/
def readAfterWrite : List (TaskEvent FirmwareTask EepromOp) :=
  .call .instrument (.write 0x10 0x41) :: (List.replicate 18 (.task .instrument) ++
    List.replicate 3 .tick ++ .call .shell (.read 0x10) :: (List.replicate 10 (.task .shell) ++
    List.replicate 2 .tick ++ List.replicate 2 (.task .instrument)))

theorem run_readAfterWrite : (Events.run (eepromTasksStep 3)
      (Tasks.start (SharedEeprom.start erasedEeprom)) readAfterWrite).map
      (fun sys => (sys.state.log, (sys.prog .instrument).idle, (sys.prog .shell).idle)) =
    some ([(.shell, .read 0x10, some 0x41), (.instrument, .write 0x10 0x41, none)], true, true) :=
  rfl

theorem free_readAfterWrite : Events.holdsAlong (eepromTasksStep 3)
    (fun sys e => decide (BeginsFree sys e)) (Tasks.start (SharedEeprom.start erasedEeprom))
      readAfterWrite = true := rfl

theorem eeprom_operations_serialise_in_wait : ∃ sys, Events.run (eepromTasksStep 3)
      (Tasks.start (SharedEeprom.start erasedEeprom)) readAfterWrite = some sys ∧
    Serialisable erasedEeprom readAfterWrite sys.state := by
  obtain ⟨sys, hrun, hfacts⟩ := Option.map_eq_some_iff.mp run_readAfterWrite
  simp only [Prod.mk.injEq] at hfacts
  obtain ⟨-, hinstrument, hshell⟩ := hfacts
  refine ⟨sys, hrun, ?_⟩
  refine eeprom_operations_serialise 3 (by decide) erasedEeprom readAfterWrite sys ?_ hrun ?_
  · exact Events.guarded_of_holdsAlong (fun _ _ => of_decide_eq_true) free_readAfterWrite
  · intro i
    cases i with
    | instrument => exact hinstrument
    | shell => exact hshell

/-- The shell reads while the instrument task is blocked with the chip selected. -/
def readInsideWrite : List (TaskEvent FirmwareTask EepromOp) :=
  .call .instrument (.write 0x10 0x41) :: (List.replicate 6 (.task .instrument) ++
    .call .shell (.read 0x10) :: (List.replicate 7 (.task .shell) ++
    List.replicate 10 (.task .instrument) ++ List.replicate 3 (.task .shell) ++
    List.replicate 2 (.task .instrument) ++ List.replicate 5 .tick ++
    List.replicate 2 (.task .instrument)))

theorem run_readInsideWrite : (Events.run (eepromTasksStep 3)
      (Tasks.start (SharedEeprom.start erasedEeprom)) readInsideWrite).map
      (fun sys => (sys.state.log, (sys.prog .instrument).idle, (sys.prog .shell).idle)) =
    some ([(.shell, .read 0x10, some 0), (.instrument, .write 0x10 0x41, none)], true, true) := rfl

theorem serialRun_read_write : (serialRun erasedEeprom.bus
    [(.shell, .read 0x10), (.instrument, .write 0x10 0x41)]).1 =
      [(.shell, .read 0x10, some 0xFF), (.instrument, .write 0x10 0x41, none)] := rfl

theorem serialRun_write_read : (serialRun erasedEeprom.bus
    [(.instrument, .write 0x10 0x41), (.shell, .read 0x10)]).1 =
      [(.instrument, .write 0x10 0x41, none), (.shell, .read 0x10, some 0x41)] := rfl

theorem order_of_one {i : FirmwareTask} {o : EepromOp} {order : List (FirmwareTask × EepromOp)}
    (hself : Tasks.notedBy i order = [o]) (hother : ∀ j, j ≠ i → Tasks.notedBy j order = []) :
    order = [(i, o)] := by
  cases order with
  | nil => cases hself
  | cons x order =>
    by_cases hx : x.1 = i
    · subst hx
      rw [Tasks.notedBy_cons_self, List.cons.injEq] at hself
      have hnil : order = [] := by
        apply Tasks.nil_of_notedBy
        intro j
        by_cases hj : j = x.1
        · rw [hj, hself.2]
        · rw [← Tasks.notedBy_cons_ne (Ne.symm hj), hother j hj]
      rw [hnil, ← hself.1]
    · have hnil := hother x.1 hx
      rw [Tasks.notedBy_cons_self] at hnil
      cases hnil

/-- Two operations, one of each task, have two orders. -/
theorem orders_of_two {a b : EepromOp} {order : List (FirmwareTask × EepromOp)}
    (hinstrument : Tasks.notedBy .instrument order = [a])
    (hshell : Tasks.notedBy .shell order = [b]) :
    order = [(.instrument, a), (.shell, b)] ∨ order = [(.shell, b), (.instrument, a)] := by
  rcases order with _ | ⟨⟨i, o⟩, order⟩
  · cases hinstrument
  cases i with
  | instrument =>
    obtain ⟨rfl, hrest⟩ := List.cons.inj hinstrument
    refine Or.inl (congrArg _ (order_of_one (i := .shell) hshell fun j hj => ?_))
    cases j with
    | instrument => exact hrest
    | shell => exact absurd rfl hj
  | shell =>
    obtain ⟨rfl, hrest⟩ := List.cons.inj hshell
    refine Or.inr (congrArg _ (order_of_one (i := .instrument) hinstrument fun j hj => ?_))
    cases j with
    | instrument => exact absurd rfl hj
    | shell => exact hrest

/-- The bits of the read land in the instruction of the write, and it returns a byte that was never
stored. -/
theorem read_inside_write_not_serialisable : ∃ sys, Events.run (eepromTasksStep 3)
      (Tasks.start (SharedEeprom.start erasedEeprom)) readInsideWrite = some sys ∧
    (∀ i, (sys.prog i).idle = true) ∧
      ¬ Serialisable erasedEeprom readInsideWrite sys.state := by
  obtain ⟨sys, hrun, hfacts⟩ := Option.map_eq_some_iff.mp run_readInsideWrite
  simp only [Prod.mk.injEq] at hfacts
  obtain ⟨hlog, hinstrument, hshell⟩ := hfacts
  refine ⟨sys, hrun, ?_, ?_⟩
  · intro i
    cases i with
    | instrument => exact hinstrument
    | shell => exact hshell
  · rintro ⟨order, horder, hvalues, -⟩
    have hread := hvalues .shell
    rw [hlog] at hread
    rcases orders_of_two (horder .instrument) (horder .shell) with rfl | rfl
    · rw [serialRun_write_read] at hread
      simp at hread
    · rw [serialRun_read_write] at hread
      simp at hread

end UsbSpdt
