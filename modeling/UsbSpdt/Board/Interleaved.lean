import UsbSpdt.Board.SwitchCommands
import UsbSpdt.Firmware.Shell

/-!
# Switch commands of two tasks

The instrument task and the debug shell share the coil lines and their enable without a lock. What
one command does to them another undoes if it starts to drive during the delay of the first; as long
as none does, no pulse is cut short.
-/

namespace UsbSpdt

open Program

/-- A position of one of the two switches. -/
inductive Selection where
  | s1 (on : Int)
  | s2 (on : Int)

namespace Selection

def program : Selection → Program Board Unit
  | .s1 on => s1Drive on
  | .s2 on => s2Drive on

def coil : Selection → Coil
  | .s1 on => s1Coil on
  | .s2 on => s2Coil on

theorem drives (d : Selection) {b : Board} (h : b.CoilsOff) : Drives d.coil d.program b := by
  cases d with
  | s1 on => exact drives_s1Drive on h
  | s2 on => exact drives_s2Drive on h

theorem lastWait (d : Selection) : d.program.LastWait (swDelay / portTickRateMs) := by
  cases d with
  | s1 on => exact lastWait_s1Drive on
  | s2 on => exact lastWait_s2Drive on

theorem waits (d : Selection) : ¬ NoWait d.program ∧ d.program.running = true := by
  cases d with
  | s1 on => exact ⟨not_noWait_s1Drive on, rfl⟩
  | s2 on => exact ⟨not_noWait_s2Drive on, rfl⟩

theorem acts_of {S : Board → Board → Prop}
    (henable : ∀ (v : Bool) (b : Board), S b (b.drive .swEnable v))
    (hcoil : ∀ (c : Coil) (v : Bool) (b : Board), S b (b.drive c.pin v)) (d : Selection) :
    Acts S d.program := by
  cases d with
  | s1 on => exact (acts_drive_of henable hcoil on).1
  | s2 on => exact (acts_drive_of henable hcoil on).2

end Selection

/-- `CMD_SPDT` of the instrument task, and the commands `s1` and `s2` of the shell. -/
inductive SwitchRequest where
  | spdt (swtch sel : UInt8)
  | sw1 (argv : List (List UInt8))
  | sw2 (argv : List (List UInt8))

namespace SwitchRequest

def body : SwitchRequest → Program Board Unit
  | .spdt swtch sel => spdtSet swtch sel
  | .sw1 argv => cmdSw1 argv
  | .sw2 argv => cmdSw2 argv

/-- A shell command with a wrong argument selects nothing. -/
def selection : SwitchRequest → Option Selection
  | .spdt swtch sel =>
    let on : Int := if sel = j1sel then 1 else 0
    some (if swtch = UsbSpdt.sw1 then .s1 on else .s2 on)
  | .sw1 argv => (switchArg argv).map .s1
  | .sw2 argv => (switchArg argv).map .s2

/-- The part of the request that drives the coil lines. -/
def driven (o : SwitchRequest) : Program Board Unit :=
  (o.selection.map Selection.program).getD (.done ())

theorem driven_eq {o : SwitchRequest} {d : Selection} (h : o.selection = some d) :
    o.driven = d.program := by
  rw [driven, h, Option.map_some, Option.getD_some]

end SwitchRequest

theorem acts_led {p : Pin} {v : Bool} (h : p ∈ [Pin.d4, Pin.d5, Pin.d6]) :
    Acts Board.SameCoils (Program.modify (·.drive p v)) := by
  apply acts_modify
  intro b
  apply sameCoils_drive b v
  · rintro rfl
    simp at h
  · rintro c rfl
    cases c <;> simp [Coil.pin] at h

theorem acts_showS1 (sel : UInt8) : Acts Board.SameCoils (showS1 sel) := by
  unfold showS1
  split
  all_goals
    refine acts_bind (acts_led (by simp)) fun _ => acts_bind (acts_led (by simp)) fun _ => ?_
    exact acts_led (by simp)

theorem inLead_j1sel {d : Selection} {lead : Program Board Unit} (h : Acts Board.SameCoils lead) :
    InLead Board.SameCoils d.program (do
      lead
      hvOn 1
      d.program) :=
  ⟨lead >>= fun _ => hvOn 1, acts_bind h fun _ => acts_hvOn 1, (Program.bind_assoc ..).symm⟩

theorem SwitchRequest.lead (o : SwitchRequest) : InLead Board.SameCoils o.driven o.body := by
  cases o with
  | spdt swtch sel =>
    simp only [driven, selection, body, spdtSet]
    split
    · exact inLead_j1sel (d := .s1 _) (acts_showS1 sel)
    · exact ⟨hvOn 1, acts_hvOn 1, rfl⟩
  | sw1 argv =>
    simp only [driven, selection, body, cmdSw1]
    cases switchArg argv with
    | some on => exact ⟨hvOn 1, acts_hvOn 1, rfl⟩
    | none => exact ⟨.done (), trivial, rfl⟩
  | sw2 argv =>
    simp only [driven, selection, body, cmdSw2]
    cases switchArg argv with
    | some on => exact ⟨hvOn 1, acts_hvOn 1, rfl⟩
    | none => exact ⟨.done (), trivial, rfl⟩

theorem SwitchRequest.lastWait {o : SwitchRequest} {d : Selection} (h : o.selection = some d) :
    o.body.LastWait (swDelay / portTickRateMs) := by
  obtain ⟨lead, -, hbody⟩ := o.lead
  rw [hbody, driven_eq h]
  exact lastWait_bind fun _ => d.lastWait

/-- The promise of a request, while it drives. -/
def KeepsPulse (o : SwitchRequest) (p : Program Board Unit) (b : Board) : Prop :=
  ∃ d, o.selection = some d ∧ Pulse d.coil p b

theorem throughout_driven (o : SwitchRequest) {b : Board} (h : b.CoilsOff) :
    Throughout (fun _ => Board.SameCoils) (KeepsPulse o) (fun _ => Board.CoilsOff) o.driven b := by
  unfold SwitchRequest.driven
  cases hd : o.selection with
  | none => exact h
  | some d => exact (d.drives h).mono (fun _ _ hp => ⟨d, hd, hp⟩) fun _ _ hoff => hoff

theorem switchRequest_discipline : Tasks.Discipline hvSurroundings (fun _ => Board.SameCoils)
    Board.CoilsOff (fun (_ : FirmwareTask) o => SwitchRequest.body o)
    (fun _ o => SwitchRequest.driven o) (fun _ o => KeepsPulse o) InLastWait where
  rely := rely_sameCoils
  tick := fun _ _ => sameCoils_tick
  react := fun _ _ => sameCoils_react
  rest := fun _ _ hb hbt => hb.same hbt
  lead := fun _ o => o.lead
  begins := by
    intro _ o
    unfold SwitchRequest.driven
    cases o.selection with
    | none => rfl
    | some d => cases d <;> rfl
  crit := fun _ o _ hb => throughout_driven o hb
  inside := by
    rintro _ o p b ⟨d, -, hp⟩ hblocked -
    exact hp.blocked hblocked

/-- The two tasks, executing switch requests beside the clock and the turn-off timer. -/
abbrev switchTasksStep := Tasks.step hvSurroundings fun (_ : FirmwareTask) o => SwitchRequest.body o

/-- No request starts to drive its coil during the delay of another. -/
abbrev DrivesAlone : Tasks FirmwareTask Board SwitchRequest → TaskEvent FirmwareTask SwitchRequest →
    Prop :=
  Tasks.EntersAlone (fun _ o => SwitchRequest.driven o) InLastWait

/-- During the delay of a request its coil is energised. -/
def PulsesWhole (sys : Tasks FirmwareTask Board SwitchRequest) : Prop :=
  ∀ i o d, sys.op i = some o → o.selection = some d → InLastWait (sys.prog i) →
    sys.state.Energised d.coil

theorem pulsesWhole_of_apart {sys : Tasks FirmwareTask Board SwitchRequest}
    (h : Tasks.Apart (fun _ => Board.SameCoils) Board.CoilsOff (fun _ o => SwitchRequest.driven o)
      (fun _ o => KeepsPulse o) sys) : PulsesWhole sys := by
  intro i o d hop hd hwait
  have hbusy : (sys.prog i).idle = false := by
    by_contra hidle
    exact not_inLastWait_of_idle (by simpa using hidle) hwait
  rcases h.busy rely_sameCoils hop hbusy with hlead | ⟨d', hd', hpulse⟩
  · rw [SwitchRequest.driven_eq hd] at hlead
    exact absurd hwait (hlead.not_inLastWait sys.state d.waits.1 d.waits.2)
  · obtain rfl : d = d' := Option.some.inj (hd.symm.trans hd')
    exact hpulse.live hwait

/-! ### Both lines of a relay -/

/-- The active levels are `level`, and no relay has both its lines active. -/
structure OneWay (level : Coil → Bool) (b : Board) : Prop where
  level : ∀ c, b.level c = level c
  pair : ∀ c, ¬ (b.Active c ∧ b.Active c.other)

theorem OneWay.same {level : Coil → Bool} {b t : Board} (h : OneWay level b)
    (hs : Board.SameCoils b t) : OneWay level t where
  level := fun c => (hs.level c).trans (h.level c)
  pair := by
    intro c
    rw [hs.active, hs.active]
    exact h.pair c

theorem OneWay.drive_enable {level : Coil → Bool} {b : Board} (h : OneWay level b) (v : Bool) :
    OneWay level (b.drive .swEnable v) where
  level := fun c => (b.level_drive _ v c).trans (h.level c)
  pair := by
    intro c
    simp only [Board.Active, Board.drive_gpio_ne b v (Coil.pin_ne_enable _), Board.level_drive]
    exact h.pair c

theorem OneWay.lower {level : Coil → Bool} {b : Board} (h : OneWay level b) (c : Coil) :
    OneWay level (b.drive c.pin (!level c)) where
  level := fun d => (b.level_drive _ _ d).trans (h.level d)
  pair := by
    rintro d ⟨hd, hother⟩
    rw [← h.level c] at hd hother
    have hdc : d ≠ c := fun hdc => b.not_active_lowered c (hdc ▸ hd)
    have hoc : d.other ≠ c := fun hoc => b.not_active_lowered c (hoc ▸ hother)
    exact h.pair d ⟨(b.active_drive_ne _ hdc).mp hd, (b.active_drive_ne _ hoc).mp hother⟩

theorem OneWay.raise {level : Coil → Bool} {b : Board} (h : OneWay level b) {c : Coil}
    (hidle : ¬ b.Active c.other) : OneWay level (b.drive c.pin (level c)) where
  level := fun d => (b.level_drive _ _ d).trans (h.level d)
  pair := by
    rintro d ⟨hd, hother⟩
    by_cases hdc : d = c
    · subst hdc
      exact hidle ((b.active_drive_ne _ d.other_ne).mp hother)
    · have hactive := (b.active_drive_ne _ hdc).mp hd
      by_cases hoc : d.other = c
      · subst hoc
        rw [d.other_other] at hidle
        exact hidle hactive
      · exact h.pair d ⟨hactive, (b.active_drive_ne _ hoc).mp hother⟩

theorem keeps_raise {level : Coil → Bool} {b : Board} {next : Program Board Unit} (c : Coil)
    (h : OneWay level b) (hnext : ∀ t, OneWay level t → Keeps (OneWay level) next t) :
    Keeps (OneWay level) (do
      Program.modify (·.drive c.other.pin !level c)
      Program.modify (·.drive c.pin (level c))
      next) b := by
  have hsame : level c.other = level c := by rw [← h.level, ← h.level, Board.level_other]
  have hlow := h.lower c.other
  have hidle := b.not_active_lowered c.other
  rw [h.level] at hidle
  rw [hsame] at hlow hidle
  exact ⟨h, hlow, hnext _ (hlow.raise hidle)⟩

theorem keeps_hold {level : Coil → Bool} {b : Board} (c : Coil) (h : OneWay level b) :
    Keeps (OneWay level) (do
      delayms swDelay
      Program.modify (·.drive c.pin !level c)
      gpioClear .swEnable) b :=
  ⟨h, fun _ ht => ⟨ht, ht.lower c, (ht.lower c).drive_enable false⟩⟩

theorem Selection.keeps {level : Coil → Bool} (d : Selection) (b : Board) (h : OneWay level b) :
    Keeps (OneWay level) d.program b := by
  cases d with
  | s1 on =>
    rw [program, s1Drive_eq]
    have hup := h.drive_enable true
    have hlevel : b.s1Active = level (s1Coil on) := by rw [← level_s1Coil b on, h.level]
    constructor
    · exact h
    constructor
    · exact hup
    change Keeps (OneWay level) (do
      Program.modify (·.drive (s1Coil on).other.pin !b.s1Active)
      Program.modify (·.drive (s1Coil on).pin b.s1Active)
      delayms swDelay
      Program.modify (·.drive (s1Coil on).pin !b.s1Active)
      gpioClear .swEnable) _
    rw [hlevel]
    exact keeps_raise (s1Coil on) hup fun t ht => keeps_hold (s1Coil on) ht
  | s2 on =>
    rw [program, s2Drive_eq]
    have hlevel : b.s2Active = level (s2Coil on) := by rw [← level_s2Coil b on, h.level]
    constructor
    · exact h
    change Keeps (OneWay level) (do
      Program.modify (·.drive (s2Coil on).other.pin !b.s2Active)
      Program.modify (·.drive (s2Coil on).pin b.s2Active)
      gpioSet .swEnable
      delayms swDelay
      Program.modify (·.drive (s2Coil on).pin !b.s2Active)
      gpioClear .swEnable) _
    rw [hlevel]
    exact keeps_raise (s2Coil on) h fun t ht =>
      ⟨ht, keeps_hold (s2Coil on) (ht.drive_enable true)⟩

theorem SwitchRequest.keeps {level : Coil → Bool} (o : SwitchRequest) (b : Board)
    (h : OneWay level b) : Keeps (OneWay level) o.body b := by
  obtain ⟨lead, hlead, hbody⟩ := o.lead
  rw [hbody]
  refine keeps_acts_bind (fun _ _ hs hb => hb.same hs) hlead (fun _ t ht => ?_) h
  unfold driven
  cases o.selection with
  | none => exact ht
  | some d => exact d.keeps t ht

theorem Board.CoilsOff.oneWay {b : Board} (h : b.CoilsOff) : OneWay b.level b where
  level := fun _ => rfl
  pair := fun c hc => nomatch (h.active c).mp hc.1

/-- The delay of every request is that of `SW_DELAY`. In every run no relay is driven both ways, and
in every run in which no request starts to drive during the delay of another no pulse is cut. -/
theorem concurrent_pulses_whole :
    (∀ (o : SwitchRequest) (d : Selection), o.selection = some d →
      o.body.LastWait (swDelay / portTickRateMs)) ∧
    ∀ (s1 s2 : Int) (es : List (TaskEvent FirmwareTask SwitchRequest))
      (sys : Tasks FirmwareTask Board SwitchRequest),
      Events.run switchTasksStep (Tasks.start (Board.configured s1 s2)) es = some sys →
      (∀ c, ¬ (sys.state.Active c ∧ sys.state.Active c.other)) ∧
        (Events.Guarded switchTasksStep DrivesAlone (Tasks.start (Board.configured s1 s2)) es →
          PulsesWhole sys) := by
  refine ⟨fun o d => SwitchRequest.lastWait, fun s1 s2 es sys hrun => ⟨?_, fun halone => ?_⟩⟩
  · have hoff := configured_coilsOff s1 s2
    have hway := Tasks.shared_invariant (I := OneWay (Board.configured s1 s2).level)
      (fun _ _ hb ht => hb.same (sameCoils_tick ht)) (fun _ _ hb ht => hb.same (sameCoils_react ht))
      (fun _ o b hb => o.keeps b hb) hoff.oneWay hrun
    exact hway.pair
  · exact pulsesWhole_of_apart (Tasks.exclusive_invariant switchRequest_discipline
      (configured_coilsOff s1 s2) halone hrun)

/-- The instrument task selects S1 up to its delay, and 10 ticks later the shell S2. -/
def selectOverPulse : List (TaskEvent FirmwareTask SwitchRequest) :=
  .call .instrument (.spdt 0 0) :: (List.replicate 6 (.task .instrument) ++
    List.replicate 30 .tick ++ List.replicate 8 (.task .instrument) ++ List.replicate 10 .tick ++
    .call .shell (.sw2 [[], [0x41]]) :: (List.replicate 8 (.task .shell) ++
    List.replicate 30 .tick ++ List.replicate 3 (.task .instrument)))

theorem run_selectOverPulse : (Events.run switchTasksStep (Tasks.start (Board.configured 1 1))
      selectOverPulse).map (fun sys => (sys.op .shell, sys.prog .shell,
        sys.state.gpio .swEnable, sys.state.gpio .s2u)) =
    some (some (.sw2 [[], [0x41]]), .wait 10 (do
        gpioClear .s2u
        gpioClear .swEnable), false, true) := rfl

/-- The instrument task ends its pulse of S1 while the shell is in the delay of S2: the enable
falls, and the line of S2 is still active. -/
theorem pulse_cut_by_other_task : ∃ sys, Events.run switchTasksStep
      (Tasks.start (Board.configured 1 1)) selectOverPulse = some sys ∧
    InLastWait (sys.prog .shell) ∧ sys.state.gpio .s2u = true ∧
      sys.state.gpio .swEnable = false ∧ ¬ PulsesWhole sys := by
  obtain ⟨sys, hrun, hfacts⟩ := Option.map_eq_some_iff.mp run_selectOverPulse
  simp only [Prod.mk.injEq] at hfacts
  obtain ⟨hop, hprog, henable, hline⟩ := hfacts
  have hwait : InLastWait (sys.prog .shell) := ⟨10, _, hprog, trivial⟩
  refine ⟨sys, hrun, hwait, hline, henable, ?_⟩
  intro hwhole
  have hup := (hwhole .shell _ (.s2 1) hop rfl hwait).1
  rw [henable] at hup
  cases hup

/-- The instrument task selects S1; while it powers up, the shell rejects a command for S2. -/
def selectInTurn : List (TaskEvent FirmwareTask SwitchRequest) :=
  .call .instrument (.spdt 0 0) :: (List.replicate 6 (.task .instrument) ++
    List.replicate 10 .tick ++ .call .shell (.sw2 [[], [0x43]]) :: (List.replicate 20 .tick ++
    List.replicate 8 (.task .instrument) ++ List.replicate 10 .tick))

theorem alone_selectInTurn : Events.holdsAlong switchTasksStep Tasks.alone
    (Tasks.start (Board.configured 1 1)) selectInTurn = true := rfl

theorem run_selectInTurn : (Events.run switchTasksStep (Tasks.start (Board.configured 1 1))
    selectInTurn).map (fun sys => sys.state.gpio .s1u) = some true := rfl

theorem SwitchRequest.driven_begins (o : SwitchRequest) :
    o.driven.running = true ∨ o.driven.idle = true := by
  cases hd : o.selection with
  | none =>
    rw [driven, hd]
    exact Or.inr rfl
  | some d =>
    rw [driven_eq hd]
    exact Or.inl d.waits.2

theorem concurrent_pulses_whole_in_turn : ∃ sys, Events.run switchTasksStep
      (Tasks.start (Board.configured 1 1)) selectInTurn = some sys ∧ PulsesWhole sys := by
  obtain ⟨sys, hrun, -⟩ := Option.map_eq_some_iff.mp run_selectInTurn
  refine ⟨sys, hrun, (concurrent_pulses_whole.2 1 1 selectInTurn sys hrun).2 ?_⟩
  refine Events.guarded_of_holdsAlong (Tasks.entersAlone_of_alone ?_ ?_) alone_selectInTurn
  · exact fun _ o => o.driven_begins
  · exact fun _ => not_inLastWait_of_idle

end UsbSpdt
