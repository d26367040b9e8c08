import UsbSpdt.Board.Spdt

/-!
# Coil pulses and the high-voltage supply

One task operates the switches and the high voltage beside the turn-off timer. The supply is up
during every coil pulse as long as no power-up begins while the timer is about to expire; a timer
left running by `hvOn(0)` can otherwise turn the supply off inside the power-up wait.
-/

namespace UsbSpdt

inductive BoardOp where
  | hvOn (on : Int)
  | s1J1sel (on : Int)
  | s2J1sel (on : Int)

namespace BoardOp

def body : BoardOp → Program Board Unit
  | .hvOn on => UsbSpdt.hvOn on
  | .s1J1sel on => UsbSpdt.s1J1sel on
  | .s2J1sel on => UsbSpdt.s2J1sel on

def PowersUp : BoardOp → Prop
  | .hvOn on => on ≠ 0
  | .s1J1sel _ => True
  | .s2J1sel _ => True

end BoardOp

/-- A task operating the board beside the clock and the turn-off timer. -/
abbrev boardStep := Program.step hvSurroundings BoardOp.body

/-- The supply is up while a coil line is driven, and outside `hvOn` the flag tells the truth. -/
structure Powered (b : Board) : Prop where
  coil : b.CoilDriven → b.gpio .hvEnable = true
  flag : b.hvOnCalls = 0 → b.hvState = 1 → b.gpio .hvEnable = true

/-- A power-up begins only when the timer is dormant or has longer to go than the power-up wait. -/
def ClearOfTimer (b : Board) (o : BoardOp) : Prop :=
  o.PowersUp → b.hvState = 0 → ∀ r, b.hvTimer = some r → 60 / portTickRateMs < r

structure AtRest (b : Board) : Prop where
  lines : b.LinesIdle
  noCall : b.hvOnCalls = 0
  flag : b.hvState = 0 ∨ b.hvState = 1 ∧ b.gpio .hvEnable = true

theorem powered_of_supply {b : Board} (h : b.gpio .hvEnable = true) : Powered b :=
  ⟨fun _ => h, fun _ _ => h⟩

theorem AtRest.powered {b : Board} (h : AtRest b) : Powered b where
  coil := fun hd => absurd hd h.lines.not_driven
  flag := by
    intro _ h1
    rcases h.flag with h0 | ⟨-, hv⟩
    · simp [h0] at h1
    · exact hv

theorem atRest_tick {b t : Board} (h : AtRest b) (ht : hvSurroundings.tick b = some t) :
    AtRest t := by
  obtain ⟨-, rfl⟩ := hvSurroundings_tick ht
  exact ⟨h.lines.congr (fun _ _ => rfl) rfl rfl, h.noCall, h.flag⟩

theorem atRest_react {b t : Board} (h : AtRest b) (ht : hvSurroundings.react b = some t) :
    AtRest t := by
  obtain ⟨-, rfl⟩ := hvSurroundings_react ht
  refine ⟨h.lines.congr (fun p hp => ?_) rfl rfl, h.noCall, Or.inl rfl⟩
  exact Board.drive_gpio_ne b false hp

/-- The board when `hvOn(1)` has returned. -/
def Board.supplied (b : Board) : Board :=
  { b.drive .hvEnable true with hvState := 1, hvTimer := some (hvTimeout / portTickRateMs) }

theorem supplied_supply (b : Board) : b.supplied.gpio .hvEnable = true :=
  Board.drive_gpio_self b .hvEnable true

theorem supplied_of_up {b : Board} (hs : b.hvState = 1) (hv : b.gpio .hvEnable = true) :
    b.supplied = { b with hvTimer := some (hvTimeout / portTickRateMs) } := by
  have hg : Function.update b.gpio .hvEnable true = b.gpio :=
    Function.update_eq_self_iff.mpr hv.symm
  simp only [Board.supplied, Board.drive, hg, ← hs]

theorem AtRest.powered_inside {b c : Board} (hb : AtRest b)
    (hg : ∀ p, p ≠ .hvEnable → c.gpio p = b.gpio p) (h1 : c.s1PulseHigh = b.s1PulseHigh)
    (h2 : c.s2PulseHigh = b.s2PulseHigh) (hc : c.hvOnCalls ≠ 0) : Powered c :=
  ⟨fun hd => absurd hd (hb.lines.congr hg h1 h2).not_driven, fun h => absurd h hc⟩

theorem safe_hvOn_on {b : Board} {on : Int} {Q : Unit → Board → Prop} (hon : on ≠ 0)
    (hb : AtRest b)
    (hclear : b.hvState = 0 → ∀ r, b.hvTimer = some r → 60 / portTickRateMs < r)
    (hQ : Q () b.supplied) : Program.Safe hvSurroundings Powered (hvOn on) Q b := by
  have henter : Powered { b with hvOnCalls := b.hvOnCalls + 1 } :=
    hb.powered_inside (fun _ _ => rfl) rfl rfl (Nat.succ_ne_zero _)
  have hup : b.supplied.gpio .hvEnable = true := supplied_supply b
  unfold hvOn hvSwitch hvPowerUp
  rw [if_pos hon]
  refine Program.safe_modify_bind hb.powered ?_
  refine Program.safe_bind (Program.safe_bind (Program.safe_get_bind ?_))
  rcases hb.flag with h0 | ⟨h1, hv⟩
  · rw [if_pos h0]
    refine Program.safe_modify_bind henter (Program.safe_bind ?_)
    refine safe_delayms (hclear h0) (fun _ => powered_of_supply hup) ?_
    refine Program.safe_modify (powered_of_supply hup) (powered_of_supply hup) ?_
    refine Program.safe_modify (powered_of_supply hup) (powered_of_supply hup) ?_
    exact Program.safe_modify (powered_of_supply hup) (powered_of_supply hup) hQ
  · rw [if_neg (by simp [h1])]
    refine Program.safe_pure henter ?_
    refine Program.safe_modify henter (powered_of_supply hv) ?_
    refine Program.safe_modify (powered_of_supply hv) (powered_of_supply hv) ?_
    rw [supplied_of_up h1 hv] at hQ
    exact hQ

theorem safe_hvOn_off {b : Board} (hb : AtRest b) :
    Program.Safe hvSurroundings Powered (hvOn 0) (fun _ => AtRest) b := by
  have hoff : ∀ p, p ≠ Pin.hvEnable → (b.drive .hvEnable false).gpio p = b.gpio p :=
    fun p hp => Board.drive_gpio_ne b false hp
  have hrest : AtRest { b.drive .hvEnable false with hvState := 0 } :=
    ⟨hb.lines.congr hoff rfl rfl, hb.noCall, Or.inl rfl⟩
  unfold hvOn hvSwitch
  rw [if_neg (by decide)]
  refine Program.safe_modify_bind hb.powered (Program.safe_bind ?_)
  refine Program.safe_modify_bind ?_ (Program.safe_modify ?_ ?_ (Program.safe_modify ?_ ?_ hrest))
  · exact hb.powered_inside (fun _ _ => rfl) rfl rfl (Nat.succ_ne_zero _)
  · exact hb.powered_inside hoff rfl rfl (Nat.succ_ne_zero _)
  · exact hb.powered_inside hoff rfl rfl (Nat.succ_ne_zero _)
  · exact hb.powered_inside hoff rfl rfl (Nat.succ_ne_zero _)
  · exact hrest.powered

theorem safe_hold {b : Board} {q : Pin} {level : Bool} {Q : Unit → Board → Prop}
    (hv : b.gpio .hvEnable = true) (hq : q ≠ .hvEnable)
    (htimer : b.hvTimer = some (hvTimeout / portTickRateMs))
    (hQ : ∀ timer, Q () { b.drive q level with hvTimer := timer }) :
    Program.Safe hvSurroundings Powered
      (do delayms swDelay; Program.modify (·.drive q level)) Q b := by
  have hup : (b.drive q level).gpio .hvEnable = true := by
    rw [Board.drive_gpio_ne b level (Ne.symm hq), hv]
  refine Program.safe_bind (safe_delayms ?_ (fun _ => powered_of_supply hv) ?_)
  · intro r hr
    obtain rfl : hvTimeout / portTickRateMs = r := by
      simpa only [htimer, Option.some.injEq] using hr
    decide
  · exact Program.safe_modify (powered_of_supply hv) (powered_of_supply hup) (hQ _)

/-- A board in the middle of a select command: supply up and flagged, timer restarted. -/
structure UnderWay (b : Board) : Prop where
  supply : b.gpio .hvEnable = true
  timer : b.hvTimer = some (hvTimeout / portTickRateMs)
  flag : b.hvState = 1
  noCall : b.hvOnCalls = 0

theorem UnderWay.drive {b : Board} (h : UnderWay b) {p : Pin} (level : Bool)
    (hp : p ≠ .hvEnable) : UnderWay (b.drive p level) where
  supply := (Board.drive_gpio_ne b level (Ne.symm hp)).trans h.supply
  timer := h.timer
  flag := h.flag
  noCall := h.noCall

theorem UnderWay.atRest {b : Board} (h : UnderWay b) (hl : b.LinesIdle) : AtRest b :=
  ⟨hl, h.noCall, Or.inr ⟨h.flag, h.supply⟩⟩

theorem supplied_underWay {b : Board} (hb : AtRest b) : UnderWay b.supplied :=
  ⟨supplied_supply b, rfl, rfl, hb.noCall⟩

theorem safe_drive_bind {b : Board} {p : Pin} {level : Bool} {f : Unit → Program Board Unit}
    {Q : Unit → Board → Prop} (h : UnderWay b)
    (hf : Program.Safe hvSurroundings Powered (f ()) Q (b.drive p level)) :
    Program.Safe hvSurroundings Powered (Program.modify (·.drive p level) >>= f) Q b :=
  Program.safe_modify_bind (powered_of_supply h.supply) hf

/-- A select command holds its line and comes back to rest once the enable is lowered. -/
def Released (b : Board) : Prop :=
  b.LinesIdle ∧ b.gpio .hvEnable = true ∧ b.hvState = 1 ∧ b.hvOnCalls = 0

theorem UnderWay.released {b : Board} (h : UnderWay b) {c : Board} (hl : c.LinesIdle)
    (hv : c.gpio .hvEnable = b.gpio .hvEnable) (hs : c.hvState = b.hvState)
    (hc : c.hvOnCalls = b.hvOnCalls) : Released c :=
  ⟨hl, hv.trans h.supply, hs.trans h.flag, hc.trans h.noCall⟩

theorem safe_s1Pulse {b : Board} {on : Int} (h : UnderWay b) (hl : b.LinesIdle) :
    Program.Safe hvSurroundings Powered (s1Pulse on) (fun _ => Released) b := by
  unfold s1Pulse
  apply Program.safe_get_bind
  by_cases hp : b.s1PulseHigh = 0 <;> by_cases hon : on = 0
  all_goals
    simp only [hp, hon, ne_eq, not_true_eq_false, not_false_eq_true, if_true, if_false]
    refine safe_drive_bind h (safe_drive_bind (h.drive _ (by decide)) ?_)
    refine safe_hold ((h.drive _ (by decide)).drive _ (by decide)).supply (by decide) h.timer
      fun timer => h.released ?_ rfl rfl rfl
    refine ⟨?_, ?_, hl.s2u, hl.s2d⟩ <;>
      simp [Board.drive, Function.update, Board.s1Active, hp]

theorem safe_s2Pulse {b : Board} {on : Int} (h : UnderWay b) (hl : b.LinesIdle) :
    Program.Safe hvSurroundings Powered (s2Pulse on) (fun _ => Released) b := by
  unfold s2Pulse
  apply Program.safe_get_bind
  by_cases hp : b.s2PulseHigh = 0 <;> by_cases hon : on = 0
  all_goals
    simp only [hp, hon, ne_eq, not_true_eq_false, not_false_eq_true, if_true, if_false]
    refine safe_drive_bind h (safe_drive_bind (h.drive _ (by decide))
      (safe_drive_bind ((h.drive _ (by decide)).drive _ (by decide)) ?_))
    refine safe_hold (((h.drive _ (by decide)).drive _ (by decide)).drive _ (by decide)).supply
      (by decide) h.timer fun timer => h.released ?_ rfl rfl rfl
    refine ⟨hl.s1u, hl.s1d, ?_, ?_⟩ <;>
      simp [Board.drive, Function.update, Board.s2Active, hp]

theorem Released.atRest {b : Board} (h : Released b) : AtRest b :=
  ⟨h.1, h.2.2.2, Or.inr ⟨h.2.2.1, h.2.1⟩⟩

theorem Released.disable {b : Board} (h : Released b) : Released (b.drive .swEnable false) :=
  ⟨⟨h.1.s1u, h.1.s1d, h.1.s2u, h.1.s2d⟩, h.2⟩

theorem safe_disable {b : Board} (h : Released b) :
    Program.Safe hvSurroundings Powered (gpioClear .swEnable) (fun _ => AtRest) b :=
  Program.safe_modify (powered_of_supply h.2.1) (powered_of_supply h.2.1) h.disable.atRest

/-- Every operation taken up clear of the timer is powered at every moment. -/
theorem safe_boardOp {b : Board} {o : BoardOp} (hb : AtRest b) (hclear : ClearOfTimer b o) :
    Program.Safe hvSurroundings Powered o.body (fun _ => AtRest) b := by
  have hlines : b.supplied.LinesIdle :=
    hb.lines.congr (fun p hp => Board.drive_gpio_ne b true hp) rfl rfl
  have hway := supplied_underWay hb
  cases o with
  | hvOn on =>
    by_cases hon : on = 0
    · subst hon
      exact safe_hvOn_off hb
    · exact safe_hvOn_on hon hb (hclear hon) (hway.atRest hlines)
  | s1J1sel on =>
    have hclear' := hclear trivial
    change Program.Safe hvSurroundings Powered (s1J1sel on) (fun _ => AtRest) b
    unfold s1J1sel
    refine Program.safe_bind (safe_hvOn_on (by decide) hb hclear' ?_)
    refine safe_drive_bind hway (Program.safe_bind ?_)
    have henabled := hway.drive (p := .swEnable) true (by decide)
    refine (safe_s1Pulse henabled ⟨hlines.s1u, hlines.s1d, hlines.s2u, hlines.s2d⟩).mono ?_
    exact fun _ _ _ hr => safe_disable hr
  | s2J1sel on =>
    have hclear' := hclear trivial
    change Program.Safe hvSurroundings Powered (s2J1sel on) (fun _ => AtRest) b
    unfold s2J1sel
    refine Program.safe_bind (safe_hvOn_on (by decide) hb hclear' (Program.safe_bind ?_))
    exact (safe_s2Pulse hway hlines).mono fun _ _ _ hr => safe_disable hr

theorem configured_hv (s1 s2 : Int) : (Board.configured s1 s2).hvOnCalls = 0 ∧
    (Board.configured s1 s2).hvState = 0 ∧ (Board.configured s1 s2).hvTimer = none := by
  by_cases h1 : UInt8.ofInt s1 = 0 <;> by_cases h2 : UInt8.ofInt s2 = 0 <;>
    simp [Board.configured, s1SetPulseHigh, s2SetPulseHigh, gpioClear, gpioSet, Board.drive,
      Board.powerUp, h1, h2]

theorem configured_atRest (s1 s2 : Int) : AtRest (Board.configured s1 s2) where
  lines := by
    by_cases h1 : UInt8.ofInt s1 = 0 <;> by_cases h2 : UInt8.ofInt s2 = 0 <;>
      constructor <;> simp [Board.configured, s1SetPulseHigh, s2SetPulseHigh, gpioClear, gpioSet,
        Board.drive, Function.update, Board.s1Active, Board.s2Active, Board.powerUp, h1, h2]
  noCall := (configured_hv s1 s2).1
  flag := Or.inl (configured_hv s1 s2).2.1

/-- From any configured board, in every run whose power-ups all begin clear of the timer, the
supply is up at every moment of every coil pulse, and the flag tells the truth outside `hvOn`. -/
theorem coil_pulses_powered (s1 s2 : Int) (es : List (Program.Event BoardOp))
    (sys : Board × Program Board Unit)
    (hclear : Events.Guarded boardStep (Program.CallGuard ClearOfTimer)
      (Board.configured s1 s2, .done ()) es)
    (hrun : Events.run boardStep (Board.configured s1 s2, .done ()) es = some sys) :
    Powered sys.1 := by
  have hcall (b : Board) (o : BoardOp) (hb : AtRest b) (ho : ClearOfTimer b o) :
      Program.Safe hvSurroundings Powered (BoardOp.body o) (fun _ => AtRest) b :=
    safe_boardOp hb ho
  exact Program.safe_invariant (fun _ h => h.powered) (fun _ _ => atRest_tick)
    (fun _ _ => atRest_react) hcall (configured_atRest s1 s2) hclear hrun

open Program.Event in
def onThenOff : List (Program.Event BoardOp) :=
  [call (.hvOn 1), task, task, task] ++ List.replicate 30 tick ++ [task, task, task, task] ++
    [call (.hvOn 0), task, task, task, task]

open Program.Event in
/-- S1 is selected; 40 ms of its pulse have passed. -/
def selectIntoPulse : List (Program.Event BoardOp) :=
  [call (.s1J1sel 1), task, task, task] ++ List.replicate 30 tick ++
    [task, task, task, task, task, task, task, task] ++ List.replicate 20 tick

/-- `ClearOfTimer` as a check on the next event. -/
def startsClear (sys : Board × Program Board Unit) : Program.Event BoardOp → Bool
  | .call (.hvOn 0) => true
  | .call _ => sys.1.hvState ≠ 0 || sys.1.hvTimer.all (60 / portTickRateMs < ·)
  | _ => true

theorem callGuard_of_startsClear (sys : Board × Program Board Unit) (e : Program.Event BoardOp)
    (h : startsClear sys e = true) : Program.CallGuard ClearOfTimer sys e := by
  unfold startsClear at h
  split at h
  case h_1 => exact fun hp => absurd rfl hp
  case h_2 =>
    intro _ h0 r hr
    simpa [h0, hr] using h
  case h_3 _ hcall =>
    cases e with
    | call o => exact (hcall o rfl).elim
    | task => trivial
    | tick => trivial
    | react => trivial

theorem run_selectIntoPulse : (Events.run boardStep (Board.configured 1 1, .done ())
      (onThenOff ++ selectIntoPulse)).map (fun sys => (sys.1.gpio .s1u, sys.1.s1Active)) =
    some (true, true) := rfl

/-- The timer of an earlier power-up still runs when S1 is selected, with more than the power-up
wait to go: the supply is up in the middle of the pulse. -/
theorem coil_pulses_powered_select : ∃ sys, Events.run boardStep (Board.configured 1 1, .done ())
      (onThenOff ++ selectIntoPulse) = some sys ∧
    Powered sys.1 ∧ sys.1.CoilDriven ∧ sys.1.gpio .hvEnable = true := by
  obtain ⟨sys, hrun, hfacts⟩ := Option.map_eq_some_iff.mp run_selectIntoPulse
  have hpowered : Powered sys.1 := by
    refine coil_pulses_powered 1 1 (onThenOff ++ selectIntoPulse) sys ?_ hrun
    exact Events.guarded_of_holdsAlong callGuard_of_startsClear rfl
  simp only [Prod.mk.injEq] at hfacts
  have hdriven : sys.1.CoilDriven := Or.inl (hfacts.1.trans hfacts.2.symm)
  exact ⟨sys, hrun, hpowered, hdriven, hpowered.coil hdriven⟩

open Program.Event in
/-- S1 is selected with 20 ticks of the timer left, 10 less than the power-up wait. -/
def selectOverTimer : List (Program.Event BoardOp) :=
  [call (.s1J1sel 1), task, task, task] ++ List.replicate 20 tick ++ [react] ++
    List.replicate 10 tick ++ [task, task, task, task, task, task, task, task]

theorem run_idle_ticks {b : Board} {n r : Nat} (ht : b.hvTimer = some (n + r)) :
    Events.run boardStep (b, .done ()) (List.replicate n .tick) =
      some ({ b with hvTimer := some r }, .done ()) := by
  induction n generalizing b with
  | zero =>
    rw [Nat.zero_add] at ht
    simp only [List.replicate_zero, Events.run_nil, ← ht]
  | succ n ih =>
    have hstep : boardStep (b, .done ()) .tick =
        some ({ b with hvTimer := some (n + r) }, .done ()) := by
      have : b.hvTimer = some (n + r + 1) := by rw [ht]; congr 1; omega
      simp only [boardStep, Program.step, hvSurroundings, this, Option.map_some]
    rw [List.replicate_succ, Events.run_cons, hstep, Option.bind_some, ih rfl]

theorem run_onThenOff : Events.run boardStep (Board.configured 1 1, .done ()) onThenOff =
    some ({ ((Board.configured 1 1).drive .hvEnable true).drive .hvEnable false with
      hvTimer := some (4980 + 20) }, .done ()) := rfl

theorem run_selectOverTimer : (Events.run boardStep
      ({ ((Board.configured 1 1).drive .hvEnable true).drive .hvEnable false with
        hvTimer := some 20 }, .done ()) selectOverTimer).map
      (fun sys => (sys.1.gpio .s1u, sys.1.s1Active, sys.1.gpio .hvEnable, sys.1.hvState)) =
    some (true, true, false, 1) := rfl

/-- The timer of an earlier power-up expires inside the wait of the next one: the line of S1 is
then driven, and `hvState` says the supply is up, with `HVEnable` low. -/
theorem stale_timer_cuts_supply : ∃ sys, Events.run boardStep (Board.configured 1 1, .done ())
      (onThenOff ++ (List.replicate 4980 .tick ++ selectOverTimer)) = some sys ∧
    sys.1.CoilDriven ∧ sys.1.hvState = 1 ∧ sys.1.gpio .hvEnable = false ∧ ¬ Powered sys.1 := by
  obtain ⟨sys, hrun, hfacts⟩ := Option.map_eq_some_iff.mp run_selectOverTimer
  simp only [Prod.mk.injEq] at hfacts
  obtain ⟨hline, hactive, hsupply, hflag⟩ := hfacts
  have hdriven : sys.1.CoilDriven := Or.inl (hline.trans hactive.symm)
  refine ⟨sys, ?_, hdriven, hflag, hsupply, fun hp => ?_⟩
  · rw [Events.run_append, run_onThenOff, Option.bind_some, Events.run_append,
      run_idle_ticks rfl, Option.bind_some]
    exact hrun
  · exact absurd (hp.coil hdriven) (by simp [hsupply])

end UsbSpdt
