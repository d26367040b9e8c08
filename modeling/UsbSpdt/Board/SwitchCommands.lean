import UsbSpdt.Board.Coils

/-!
# Switch commands of one task

Any sequence of polarity settings and selections, executed by one task beside the turn-off timer
from the state that `setupGPIOs` leaves.
-/

namespace UsbSpdt

open Program

namespace Board

theorem not_energised_of_off {b : Board} (h : b.gpio .swEnable = false) (c : Coil) :
    ¬ b.Energised c := by
  rintro ⟨hup, -⟩
  rw [h] at hup
  cases hup

end Board

/-- No coil but `goal` is energised, and `goal` is while the program is in its last wait. -/
structure Promise (goal : Option Coil) (p : Program Board Unit) (b : Board) : Prop where
  only : ∀ c, b.Energised c → goal = some c
  pulse : ∀ c, goal = some c → InLastWait p → b.Energised c

theorem Pulse.promise {c : Coil} {p : Program Board Unit} {b : Board} (h : Pulse c p b) :
    Promise (some c) p b where
  only := fun d hd => congrArg some (h.only d hd.2).symm
  pulse := by
    intro d hd hwait
    obtain rfl : c = d := Option.some.inj hd
    exact h.live hwait

theorem promise_off {p : Program Board Unit} {b : Board} (h : b.gpio .swEnable = false) :
    Promise none p b where
  only := fun c hc => absurd hc (Board.not_energised_of_off h c)
  pulse := nofun

/-! ### Setting the polarity -/

theorem s1SetPulseHigh_eq (setting : Int) : s1SetPulseHigh setting = (do
    gpioClear .swEnable
    Program.modify ({ · with s1PulseHigh := UInt8.ofInt setting })
    let b ← Program.get
    Program.modify (·.drive .s1d !b.s1Active)
    Program.modify (·.drive .s1u !b.s1Active)) := by
  refine congrArg (Program.act _) (congrArg (Program.act _) (congrArg Program.look ?_))
  funext b
  by_cases hb : b.s1PulseHigh = 0
  all_goals
    simp only [Program.bind, Board.s1Active, hb, ne_eq, not_true, not_false_iff, if_true, if_false,
      decide_true, decide_false]
    rfl

theorem s2SetPulseHigh_eq (setting : Int) : s2SetPulseHigh setting = (do
    gpioClear .swEnable
    Program.modify ({ · with s2PulseHigh := UInt8.ofInt setting })
    let b ← Program.get
    Program.modify (·.drive .s2d !b.s2Active)
    Program.modify (·.drive .s2u !b.s2Active)) := by
  refine congrArg (Program.act _) (congrArg (Program.act _) (congrArg Program.look ?_))
  funext b
  by_cases hb : b.s2PulseHigh = 0
  all_goals
    simp only [Program.bind, Board.s2Active, hb, ne_eq, not_true, not_false_iff, if_true, if_false,
      decide_true, decide_false]
    rfl

/-- The lines of S1 may be active between the two settings, but nothing is energised. -/
theorem throughout_s1SetPulseHigh (setting : Int) {b : Board} (h : b.CoilsOff) :
    Throughout (fun _ => Board.SameCoils) (Promise none) (fun _ => Board.CoilsOff)
      (s1SetPulseHigh setting) b := by
  rw [s1SetPulseHigh_eq]
  refine ⟨promise_off h.enable, promise_off rfl, promise_off rfl, promise_off rfl,
    promise_off rfl, ?_⟩
  obtain ⟨-, hlines⟩ := (Board.coilsOff_iff b).mp h
  refine (Board.coilsOff_iff _).mpr ⟨rfl, rfl, rfl, ?_, ?_⟩
  · exact hlines.s2u
  · exact hlines.s2d

theorem throughout_s2SetPulseHigh (setting : Int) {b : Board} (h : b.CoilsOff) :
    Throughout (fun _ => Board.SameCoils) (Promise none) (fun _ => Board.CoilsOff)
      (s2SetPulseHigh setting) b := by
  rw [s2SetPulseHigh_eq]
  refine ⟨promise_off h.enable, promise_off rfl, promise_off rfl, promise_off rfl,
    promise_off rfl, ?_⟩
  obtain ⟨-, hlines⟩ := (Board.coilsOff_iff b).mp h
  refine (Board.coilsOff_iff _).mpr ⟨rfl, ?_, ?_, rfl, rfl⟩
  · exact hlines.s1u
  · exact hlines.s1d

theorem noWait_s1SetPulseHigh (setting : Int) : NoWait (s1SetPulseHigh setting) := by
  rw [s1SetPulseHigh_eq]
  exact fun _ => trivial

theorem noWait_s2SetPulseHigh (setting : Int) : NoWait (s2SetPulseHigh setting) := by
  rw [s2SetPulseHigh_eq]
  exact fun _ => trivial

theorem powerUp_coilsOff : Board.powerUp.CoilsOff :=
  (Board.coilsOff_iff _).mpr ⟨rfl, rfl, rfl, rfl, rfl⟩

theorem configured_coilsOff (s1 s2 : Int) : (Board.configured s1 s2).CoilsOff :=
  (throughout_s1SetPulseHigh s1 ((throughout_s2SetPulseHigh s2 powerUp_coilsOff).run
    (noWait_s2SetPulseHigh s2))).run (noWait_s1SetPulseHigh s1)

/-! ### Sequences of commands -/

inductive SwitchOp where
  | s1SetPulseHigh (setting : Int)
  | s2SetPulseHigh (setting : Int)
  | s1J1sel (on : Int)
  | s2J1sel (on : Int)

namespace SwitchOp

def body : SwitchOp → Program Board Unit
  | .s1SetPulseHigh setting => UsbSpdt.s1SetPulseHigh setting
  | .s2SetPulseHigh setting => UsbSpdt.s2SetPulseHigh setting
  | .s1J1sel on => UsbSpdt.s1J1sel on
  | .s2J1sel on => UsbSpdt.s2J1sel on

/-- The part of the routine that touches the coil lines. -/
def driven : SwitchOp → Program Board Unit
  | .s1SetPulseHigh setting => UsbSpdt.s1SetPulseHigh setting
  | .s2SetPulseHigh setting => UsbSpdt.s2SetPulseHigh setting
  | .s1J1sel on => s1Drive on
  | .s2J1sel on => s2Drive on

/-- The coil that the operation is to energise. -/
def goal : SwitchOp → Option Coil
  | .s1SetPulseHigh _ => none
  | .s2SetPulseHigh _ => none
  | .s1J1sel on => some (s1Coil on)
  | .s2J1sel on => some (s2Coil on)

theorem driven_waits {o : SwitchOp} {c : Coil} (h : o.goal = some c) :
    ¬ NoWait o.driven ∧ o.driven.running = true := by
  cases o with
  | s1SetPulseHigh setting => cases h
  | s2SetPulseHigh setting => cases h
  | s1J1sel on => exact ⟨not_noWait_s1Drive on, rfl⟩
  | s2J1sel on => exact ⟨not_noWait_s2Drive on, rfl⟩

theorem lastWait_body {o : SwitchOp} {c : Coil} (h : o.goal = some c) :
    o.body.LastWait (swDelay / portTickRateMs) := by
  cases o with
  | s1SetPulseHigh setting => cases h
  | s2SetPulseHigh setting => cases h
  | s1J1sel on => exact lastWait_bind fun _ => lastWait_s1Drive on
  | s2J1sel on => exact lastWait_bind fun _ => lastWait_s2Drive on

end SwitchOp

theorem switchOp_discipline : Tasks.Discipline hvSurroundings (fun _ => Board.SameCoils)
    Board.CoilsOff (fun (_ : Unit) o => SwitchOp.body o) (fun _ o => SwitchOp.driven o)
    (fun _ o => Promise (SwitchOp.goal o)) (fun _ => True) where
  rely := rely_sameCoils
  tick := fun _ _ => sameCoils_tick
  react := fun _ _ => sameCoils_react
  rest := fun _ _ hb hbt => hb.same hbt
  lead := by
    intro _ o
    cases o with
    | s1SetPulseHigh setting => exact ⟨.done (), trivial, rfl⟩
    | s2SetPulseHigh setting => exact ⟨.done (), trivial, rfl⟩
    | s1J1sel on => exact ⟨hvOn 1, acts_hvOn 1, rfl⟩
    | s2J1sel on => exact ⟨hvOn 1, acts_hvOn 1, rfl⟩
  begins := by
    intro _ o
    cases o <;> rfl
  crit := by
    intro _ o b hb
    cases o with
    | s1SetPulseHigh setting => exact throughout_s1SetPulseHigh setting hb
    | s2SetPulseHigh setting => exact throughout_s2SetPulseHigh setting hb
    | s1J1sel on => exact (drives_s1Drive on hb).mono (fun _ _ h => h.promise) fun _ _ h => h
    | s2J1sel on => exact (drives_s2Drive on hb).mono (fun _ _ h => h.promise) fun _ _ h => h
  inside := fun _ _ _ _ _ _ _ => trivial

/-- What is asked of the coils at every moment of the task. -/
structure Selective (sys : Tasks Unit Board SwitchOp) : Prop where
  rest : (sys.prog ()).idle = true → sys.state.gpio .swEnable = false ∧ sys.state.LinesIdle
  only : ∀ c, sys.state.Energised c →
    (sys.prog ()).idle = false ∧ ∃ o, sys.op () = some o ∧ o.goal = some c
  pulse : ∀ o c, sys.op () = some o → o.goal = some c → InLastWait (sys.prog ()) →
    sys.state.Energised c

/-- One task executing switch operations beside the clock and the turn-off timer. -/
abbrev switchStep := Tasks.step hvSurroundings fun (_ : Unit) o => SwitchOp.body o

theorem selective_of_apart {sys : Tasks Unit Board SwitchOp}
    (h : Tasks.Apart (fun _ => Board.SameCoils) Board.CoilsOff (fun _ o => SwitchOp.driven o)
      (fun _ o => Promise (SwitchOp.goal o)) sys) : Selective sys where
  rest := by
    intro hidle
    apply (Board.coilsOff_iff sys.state).mp
    rcases h with ⟨-, hrest⟩ | ⟨i, o, -, hbusy, -, -⟩
    · exact hrest
    · rw [hidle] at hbusy
      cases hbusy
  only := by
    intro c hc
    rcases h with ⟨-, hrest⟩ | ⟨i, o, hop, hbusy, hcrit, -⟩
    · exact absurd hc (Board.not_energised_of_off hrest.enable c)
    · exact ⟨hbusy, o, hop, (hcrit.now rely_sameCoils hbusy).only c hc⟩
  pulse := by
    intro o c hop hgoal hwait
    have hbusy : (sys.prog ()).idle = false := by
      by_contra hidle
      exact not_inLastWait_of_idle (by simpa using hidle) hwait
    obtain ⟨hnoWait, hrun⟩ := SwitchOp.driven_waits hgoal
    rcases h.busy rely_sameCoils hop hbusy with hlead | hpromise
    · exact absurd hwait (hlead.not_inLastWait sys.state hnoWait hrun)
    · exact hpromise.pulse c hgoal hwait

/-! ### The polarities in force -/

/-- The bytes behind the polarities of S1 and S2. -/
def Board.pulseHigh (b : Board) : UInt8 × UInt8 := (b.s1PulseHigh, b.s2PulseHigh)

abbrev Board.SamePulseHigh (b t : Board) : Prop := t.pulseHigh = b.pulseHigh

/-- What an operation makes of the polarities. -/
def SwitchOp.set (v : UInt8 × UInt8) : SwitchOp → UInt8 × UInt8
  | .s1SetPulseHigh setting => (UInt8.ofInt setting, v.2)
  | .s2SetPulseHigh setting => (v.1, UInt8.ofInt setting)
  | _ => v

def setBy (v : UInt8 × UInt8) : TaskEvent Unit SwitchOp → UInt8 × UInt8
  | .call _ o => o.set v
  | _ => v

/-- The polarities that the calls have set last. -/
def lastSet (es : List (TaskEvent Unit SwitchOp)) : UInt8 × UInt8 :=
  es.foldl setBy Board.powerUp.pulseHigh

/-- A routine that keeps the polarities, which are `v`, or that of a setter, which leaves `v`. -/
inductive Sets (v : UInt8 × UInt8) (op : Option SwitchOp) (p : Program Board Unit) (b : Board) :
    Prop
  | keeps (hp : Acts Board.SamePulseHigh p) (hb : b.pulseHigh = v)
  | setter (hop : ∀ o ∈ op, o.goal = none) (hp : NoWait p) (hend : (p.run b).2.pulseHigh = v)

namespace Sets

variable {v : UInt8 × UInt8} {op : Option SwitchOp} {p p' : Program Board Unit} {b t : Board}

theorem now (h : Sets v op p b) (hp : p.idle = true ∨ ∃ o ∈ op, o.goal ≠ none) :
    b.pulseHigh = v := by
  cases h with
  | keeps _ hb => exact hb
  | setter hop _ hend =>
    rcases hp with hidle | ⟨o, ho, hgoal⟩
    · cases p with
      | done u => exact hend
      | act f next => cases hidle
      | look next => cases hidle
      | wait n next => cases hidle
    · exact absurd (hop o ho) hgoal

theorem call (hb : b.pulseHigh = v) (o : SwitchOp) : Sets (o.set v) (some o) o.body b := by
  have hselect (on : Int) := acts_drive_of (S := Board.SamePulseHigh) (fun _ _ => rfl)
    (fun _ _ _ => rfl) on
  have hhv : Acts Board.SamePulseHigh (hvOn 1) :=
    acts_hvOn_of (S := Board.SamePulseHigh) (fun _ h1 h2 => Prod.ext h1 h2) (fun _ _ => rfl) 1
  cases o with
  | s1SetPulseHigh setting =>
    refine .setter (by simp [SwitchOp.goal]) (noWait_s1SetPulseHigh setting) ?_
    change ((s1SetPulseHigh setting).run b).2.pulseHigh = _
    rw [s1SetPulseHigh_eq]
    exact congrArg (Prod.mk _) (congrArg Prod.snd hb)
  | s2SetPulseHigh setting =>
    refine .setter (by simp [SwitchOp.goal]) (noWait_s2SetPulseHigh setting) ?_
    change ((s2SetPulseHigh setting).run b).2.pulseHigh = _
    rw [s2SetPulseHigh_eq]
    exact congrArg (Prod.mk · _) (congrArg Prod.fst hb)
  | s1J1sel on => exact .keeps (acts_bind hhv fun _ => (hselect on).1) hb
  | s2J1sel on => exact .keeps (acts_bind hhv fun _ => (hselect on).2) hb

theorem move (h : Sets v op p b) (hm : Moves p b p' t) : Sets v op p' t := by
  cases h with
  | keeps hp hb =>
    cases hm with
    | act f next => exact .keeps hp.2 ((hp.1 b).trans hb)
    | look next => exact .keeps (hp b) hb
    | wait next => exact .keeps hp hb
  | setter hop hp hend =>
    cases hm with
    | act f next => exact .setter hop hp hend
    | look next => exact .setter hop (hp b) hend
    | wait next => exact hp.elim

/-- While the routine does not run, the others leave the polarities alone. -/
theorem beside (h : Sets v op p b) (hblocked : p.running = false)
    (hbt : t.pulseHigh = b.pulseHigh) : Sets v op p t ∧ Sets v op p.elapse t := by
  cases p with
  | done u =>
    have hb := h.now (Or.inl rfl)
    exact ⟨.keeps trivial (hbt.trans hb), .keeps trivial (hbt.trans hb)⟩
  | act f next => cases hblocked
  | look next => cases hblocked
  | wait n next =>
    cases h with
    | keeps hp hb => exact ⟨.keeps hp (hbt.trans hb), .keeps hp (hbt.trans hb)⟩
    | setter hop hp hend => exact hp.elim

end Sets

theorem pulseHigh_of_sameCoils {b t : Board} (h : Board.SameCoils b t) :
    t.pulseHigh = b.pulseHigh := Prod.ext h.s1 h.s2

theorem step_sets {v : UInt8 × UInt8} {sys sys' : Tasks Unit Board SwitchOp}
    {e : TaskEvent Unit SwitchOp} (h : Sets v (sys.op ()) (sys.prog ()) sys.state)
    (hs : switchStep sys e = some sys') :
    Sets (setBy v e) (sys'.op ()) (sys'.prog ()) sys'.state := by
  cases e with
  | call i o =>
    obtain ⟨-, hidle, rfl⟩ := Tasks.step_call hs
    exact .call (h.now (Or.inl hidle)) o
  | task i =>
    obtain ⟨p, b, hmoves, rfl, -⟩ := Tasks.step_task hs
    exact h.move hmoves
  | tick =>
    obtain ⟨hready, b, htick, rfl⟩ := Tasks.step_tick hs
    exact (h.beside (hready ()) (pulseHigh_of_sameCoils (sameCoils_tick htick))).2
  | react =>
    obtain ⟨hready, b, hreact, rfl⟩ := Tasks.step_react hs
    exact (h.beside (hready ()) (pulseHigh_of_sameCoils (sameCoils_react hreact))).1

theorem run_sets {v : UInt8 × UInt8} {sys sys' : Tasks Unit Board SwitchOp}
    {es : List (TaskEvent Unit SwitchOp)} (h : Sets v (sys.op ()) (sys.prog ()) sys.state)
    (hrun : Events.run switchStep sys es = some sys') :
    Sets (es.foldl setBy v) (sys'.op ()) (sys'.prog ()) sys'.state := by
  induction es generalizing v sys with
  | nil =>
    obtain rfl := Option.some.inj hrun
    exact h
  | cons e es ih =>
    obtain ⟨sys₁, hs, hrest⟩ := Events.run_cons_some hrun
    exact ih (step_sets h hs) hrest

/-! ### Any sequence -/

/-- The last wait of a selection is that of `SW_DELAY`; in it the coil asked for is energised, and
no coil is at any other moment of any run. The polarities in force are those that were set last. -/
theorem switch_commands_pulse_requested :
    (∀ (o : SwitchOp) (c : Coil), o.goal = some c →
      o.body.LastWait (swDelay / portTickRateMs)) ∧
    ∀ (es : List (TaskEvent Unit SwitchOp)) (sys : Tasks Unit Board SwitchOp),
      Events.run switchStep (Tasks.start Board.powerUp) es = some sys → Selective sys ∧
        ((sys.prog ()).idle = true ∨ (∃ o ∈ sys.op (), o.goal ≠ none) →
          sys.state.pulseHigh = lastSet es) := by
  refine ⟨fun o c h => SwitchOp.lastWait_body h, fun es sys hrun => ⟨?_, ?_⟩⟩
  · have halone : Events.Guarded switchStep
        (Tasks.EntersAlone (fun _ o => SwitchOp.driven o) fun _ => True)
        (Tasks.start Board.powerUp) es := by
      refine Events.guarded_of_forall (fun sys e => ?_) _ es
      cases e with
      | call i o => trivial
      | task i => exact fun _ j hj => absurd rfl hj
      | tick => trivial
      | react => trivial
    exact selective_of_apart (Tasks.exclusive_invariant switchOp_discipline powerUp_coilsOff
      halone hrun)
  · have hstart : Sets Board.powerUp.pulseHigh none (.done ()) Board.powerUp := .keeps trivial rfl
    refine (run_sets ?_ hrun).now
    exact hstart

open TaskEvent in
/-- S1 is selected after the start, up to 39 ticks into its delay. -/
def selectFirst : List (TaskEvent Unit SwitchOp) :=
  call () (.s1J1sel 1) :: (List.replicate 3 (task ()) ++ List.replicate 30 tick ++
    List.replicate 8 (task ()) ++ List.replicate 39 tick)

theorem run_selectFirst : (Events.run switchStep (Tasks.start Board.powerUp) selectFirst).map
      (fun sys => (sys.state.gpio .swEnable, sys.state.gpio .s1u, sys.state.s1Active)) =
    some (true, true, true) := rfl

theorem switch_commands_pulse_requested_s1 :
    ∃ sys, Events.run switchStep (Tasks.start Board.powerUp) selectFirst = some sys ∧
      Selective sys ∧ sys.state.Energised .s1u := by
  obtain ⟨sys, hrun, hfacts⟩ := Option.map_eq_some_iff.mp run_selectFirst
  simp only [Prod.mk.injEq] at hfacts
  obtain ⟨henable, hline, hactive⟩ := hfacts
  obtain ⟨hselective, -⟩ := switch_commands_pulse_requested.2 selectFirst sys hrun
  exact ⟨sys, hrun, hselective, henable, hline.trans hactive.symm⟩

end UsbSpdt
