import UsbSpdt.Board.CoilSupply
import UsbSpdt.Board.Interleaved
import UsbSpdt.Library.Pledges

/-!
# The supply turns itself off

Both tasks raise the high voltage, and the timer that turns it off is started only behind the
power-up wait. Wherever their calls of `hvOn` are taken the processor, by each other and by a timer
that expires, the supply is never left on without a timer when they have returned.
-/

namespace UsbSpdt

open Program

/-- The ticks of a whole period of the turn-off timer. -/
def hvPeriod : Nat := hvTimeout / portTickRateMs

/-- The timer runs for no longer than its period, and it runs while the supply is on. -/
structure Board.Timed (b : Board) : Prop where
  bound : ∀ r, b.hvTimer = some r → r ≤ hvPeriod
  armed : b.gpio .hvEnable = true → b.hvTimer ≠ none

theorem Board.Timed.congr {b t : Board} (h : b.Timed) (hgpio : t.gpio .hvEnable = b.gpio .hvEnable)
    (htimer : t.hvTimer = b.hvTimer) : t.Timed where
  bound := htimer ▸ h.bound
  armed := by
    rw [hgpio, htimer]
    exact h.armed

theorem timed_tick {b t : Board} (h : b.Timed) (ht : hvSurroundings.tick b = some t) : t.Timed := by
  obtain ⟨-, rfl⟩ := hvSurroundings_tick ht
  constructor
  · intro r hr
    obtain ⟨r', hr', rfl⟩ := Option.map_eq_some_iff.mp hr
    exact (Nat.sub_le r' 1).trans (h.bound r' hr')
  · intro hv
    simpa using h.armed hv

theorem timed_react {b t : Board} (ht : hvSurroundings.react b = some t) : t.Timed := by
  obtain ⟨-, rfl⟩ := hvSurroundings_react ht
  exact ⟨nofun, fun hv => absurd hv (by simp)⟩

theorem acts_timed_drive {p : Pin} (hp : p ≠ .hvEnable) (v : Bool) :
    Acts (fun b t : Board => b.Timed → t.Timed) (Program.modify (·.drive p v)) :=
  acts_modify fun b h => h.congr (Board.drive_gpio_ne b v hp.symm) rfl

theorem timed_reset (b : Board) : ({ b with hvTimer := some hvPeriod } : Board).Timed where
  bound := fun _ hr => Nat.le_of_eq (Option.some.inj hr).symm
  armed := fun _ => nofun

theorem owes_xTimerReset : Owes Board.Timed xTimerReset := Or.inl timed_reset

/-- What raises the supply has the start of the timer ahead of it. -/
theorem pledged_hvOn (on : Int) : Pledged Board.Timed (hvOn on) := by
  have hkept {f : Board → Board} (hgpio : ∀ b, (f b).gpio .hvEnable = b.gpio .hvEnable)
      (htimer : ∀ b, (f b).hvTimer = b.hvTimer) : Pledged Board.Timed (Program.modify f) :=
    Acts.pledged (acts_modify fun b h => h.congr (hgpio b) (htimer b))
  have hreset : Pledged Board.Timed xTimerReset := ⟨Or.inl fun b _ => timed_reset b, trivial⟩
  have hswitch : Pledged Board.Timed (hvSwitch on) := by
    unfold hvSwitch
    split
    · intro b
      change Pledged Board.Timed ((if b.hvState = 0 then _ else _) >>= fun _ => xTimerReset)
      split
      · -- the power-up wait
        refine ⟨Or.inr (owes_bind fun _ => owes_xTimerReset), ?_⟩
        exact pledged_bind (hkept (fun _ => rfl) fun _ => rfl) fun _ => hreset
      · exact hreset
    · refine pledged_bind (p := gpioClear .hvEnable) ?_ fun _ =>
        hkept (fun _ => rfl) fun _ => rfl
      refine ⟨Or.inl fun b h => ⟨h.bound, fun hv => absurd hv ?_⟩, trivial⟩
      rw [Board.drive_gpio_self]
      exact Bool.false_ne_true
  refine pledged_bind (hkept (fun _ => rfl) fun _ => rfl) fun _ => ?_
  exact pledged_bind hswitch fun _ => hkept (fun _ => rfl) fun _ => rfl

theorem Selection.acts_timed (d : Selection) :
    Acts (fun b t : Board => b.Timed → t.Timed) d.program := by
  have hdrive {p : Pin} (hp : p ≠ .hvEnable) (v : Bool) (b : Board) :
      b.Timed → (b.drive p v).Timed := fun h => h.congr (Board.drive_gpio_ne b v hp.symm) rfl
  exact acts_of (hdrive (p := .swEnable) (by decide)) (fun c => hdrive (by cases c <;> decide)) d

theorem pledged_select (d : Selection) : Pledged Board.Timed (hvOn 1 >>= fun _ => d.program) :=
  pledged_bind (pledged_hvOn 1) fun _ => d.acts_timed.pledged

theorem pledged_showS1 (sel : UInt8) : Pledged Board.Timed (showS1 sel) := by
  apply Acts.pledged
  unfold showS1
  split
  all_goals
    refine acts_bind (acts_timed_drive (by decide) _) fun _ => ?_
    exact acts_bind (acts_timed_drive (by decide) _) fun _ => acts_timed_drive (by decide) _

/-- What the tasks do that raises or lowers the supply: switch requests and the command `hv`. -/
inductive SupplyRequest where
  | switch (o : SwitchRequest)
  | hv (on : Int)

def SupplyRequest.body : SupplyRequest → Program Board Unit
  | switch o => o.body
  | hv on => hvOn on

theorem SupplyRequest.pledged (o : SupplyRequest) : Pledged Board.Timed o.body := by
  cases o with
  | hv on => exact pledged_hvOn on
  | switch o =>
    cases o with
    | spdt swtch sel =>
      change Pledged Board.Timed (spdtSet swtch sel)
      unfold spdtSet
      split
      · exact pledged_bind (pledged_showS1 sel) fun _ => pledged_select (.s1 _)
      · exact pledged_select (.s2 _)
    | sw1 argv =>
      change Pledged Board.Timed (cmdSw1 argv)
      unfold cmdSw1
      split
      · exact pledged_select (.s1 _)
      · trivial
    | sw2 argv =>
      change Pledged Board.Timed (cmdSw2 argv)
      unfold cmdSw2
      split
      · exact pledged_select (.s2 _)
      · trivial

/-- The two tasks, which preempt each other, beside the clock and the turn-off timer. -/
abbrev supplyStep := Tasks.preempt hvSurroundings fun (_ : FirmwareTask) o => SupplyRequest.body o

theorem configured_supply (s1 s2 : Int) :
    (Board.configured s1 s2).gpio .hvEnable = false := by
  by_cases h1 : UInt8.ofInt s1 = 0 <;> by_cases h2 : UInt8.ofInt s2 = 0 <;>
    simp [Board.configured, s1SetPulseHigh, s2SetPulseHigh, gpioClear, gpioSet, Board.drive,
      Function.update, Board.powerUp, h1, h2]

/-- In every run, a board on which nobody is about to start the timer is timed. -/
theorem solvent_of_run (s1 s2 : Int) {es : List (TaskEvent FirmwareTask SupplyRequest)}
    {sys : Tasks FirmwareTask Board SupplyRequest}
    (hrun : Events.run supplyStep (Tasks.start (Board.configured s1 s2)) es = some sys) :
    Tasks.Solvent Board.Timed sys := by
  have hstart : (Board.configured s1 s2).Timed := by
    obtain ⟨-, -, htimer⟩ := configured_hv s1 s2
    refine ⟨fun r hr => ?_, fun hv => ?_⟩
    · rw [htimer] at hr
      cases hr
    · rw [configured_supply] at hv
      cases hv
  exact Tasks.pledged_invariant (fun _ _ => timed_tick) (fun _ _ _ => timed_react)
    (fun _ o => o.pledged) hstart hrun

def isTick {ι ω : Type} : TaskEvent ι ω → Bool
  | .tick => true
  | _ => false

/-- Nobody does anything but the clock and the timer. -/
def OnlyClock (quiet : List (TaskEvent FirmwareTask SupplyRequest)) : Prop :=
  ∀ e ∈ quiet, e = .tick ∨ e = .react

/-- Nothing raises the supply meanwhile, and the timer runs down. -/
theorem quiet_run {quiet : List (TaskEvent FirmwareTask SupplyRequest)} (hquiet : OnlyClock quiet)
    {sys sys' : Tasks FirmwareTask Board SupplyRequest}
    (hrun : Events.run supplyStep sys quiet = some sys')
    (hon : sys'.state.gpio .hvEnable = true) : sys.state.gpio .hvEnable = true ∧
      sys.state.hvTimer = sys'.state.hvTimer.map (· + quiet.countP isTick) := by
  induction quiet generalizing sys with
  | nil =>
    obtain rfl : sys = sys' := by simpa using hrun
    exact ⟨hon, by simp⟩
  | cons e quiet ih =>
    obtain ⟨sys₁, hstep, hrest⟩ := Events.run_cons_some hrun
    obtain ⟨hon₁, htimer₁⟩ := ih (fun e' h => hquiet e' (List.mem_cons_of_mem e h)) hrest
    obtain rfl | rfl := hquiet e List.mem_cons_self
    · obtain ⟨s, hs, rfl⟩ := Tasks.preempt_tick hstep
      obtain ⟨hpending, rfl⟩ := hvSurroundings_tick hs
      refine ⟨hon₁, ?_⟩
      rw [List.countP_cons_of_pos rfl]
      change sys.state.hvTimer.map (· - 1) = _ at htimer₁
      cases hnow : sys.state.hvTimer with
      | none =>
        rw [hnow, Option.map_none, eq_comm, Option.map_eq_none_iff] at htimer₁
        rw [htimer₁, Option.map_none]
      | some r =>
        have hr : r ≠ 0 := by
          rintro rfl
          exact hpending hnow
        rw [hnow, Option.map_some, eq_comm, Option.map_eq_some_iff] at htimer₁
        obtain ⟨r', hr', hsum⟩ := htimer₁
        rw [hr', Option.map_some]
        congr 1
        omega
    · -- the timer has turned the supply off
      obtain ⟨s, hs, rfl⟩ := Tasks.preempt_react hstep
      obtain ⟨-, rfl⟩ := hvSurroundings_react hs
      change (sys.state.drive .hvEnable false).gpio .hvEnable = true at hon₁
      rw [Board.drive_gpio_self] at hon₁
      cases hon₁

/-- From any configured board, after any run of the two tasks in which all their operations have
come to an end, the supply is off as soon as more than a period of the timer has gone by. -/
theorem supply_turns_off (s1 s2 : Int)
    {es quiet : List (TaskEvent FirmwareTask SupplyRequest)}
    {sys sys' : Tasks FirmwareTask Board SupplyRequest}
    (hrun : Events.run supplyStep (Tasks.start (Board.configured s1 s2)) es = some sys)
    (hidle : ∀ i, (sys.prog i).idle = true) (hquiet : OnlyClock quiet)
    (hrest : Events.run supplyStep sys quiet = some sys')
    (hlong : hvPeriod < quiet.countP isTick) :
    sys'.state.gpio .hvEnable = false := by
  by_contra hon
  rw [Bool.not_eq_false] at hon
  obtain ⟨hon₀, htimer⟩ := quiet_run hquiet hrest hon
  have htimed := (solvent_of_run s1 s2 hrun).of_idle hidle
  obtain ⟨r, hr⟩ := Option.ne_none_iff_exists'.mp (htimed.armed hon₀)
  have hbound := htimed.bound r hr
  rw [hr, eq_comm, Option.map_eq_some_iff] at htimer
  obtain ⟨r', -, hsum⟩ := htimer
  omega

/-! ### A run of a whole period -/

/-- While all tasks are idle only the board changes. -/
theorem step_of_idle {sys : Tasks FirmwareTask Board SupplyRequest}
    (hidle : ∀ i, (sys.prog i).idle = true) :
    supplyStep sys .tick = (hvSurroundings.tick sys.state).map ({ sys with state := · }) ∧
      supplyStep sys .react = (hvSurroundings.react sys.state).map ({ sys with state := · }) := by
  have hdone : ∀ i, ∃ u, sys.prog i = .done u := by
    intro i
    have hi := hidle i
    cases hp : sys.prog i with
    | done u => exact ⟨u, rfl⟩
    | _ =>
      rw [hp] at hi
      cases hi
  have helapse : (fun i => (sys.prog i).elapse) = sys.prog := by
    funext i
    obtain ⟨u, hp⟩ := hdone i
    rw [hp]
    rfl
  simp only [supplyStep, Tasks.preempt, helapse, and_self]

theorem run_ticks {sys : Tasks FirmwareTask Board SupplyRequest} {n r : Nat}
    (hidle : ∀ i, (sys.prog i).idle = true) (htimer : sys.state.hvTimer = some (n + r)) :
    Events.run supplyStep sys (List.replicate n .tick) =
      some { sys with state := { sys.state with hvTimer := some r } } := by
  induction n generalizing sys with
  | zero =>
    rw [Nat.zero_add] at htimer
    simp only [List.replicate_zero, Events.run_nil, ← htimer]
  | succ n ih =>
    have hpending : sys.state.hvTimer = some (n + r + 1) := by
      rw [htimer, Nat.add_right_comm]
    have htick : hvSurroundings.tick sys.state =
        some { sys.state with hvTimer := some (n + r) } := by
      simp only [hvSurroundings, hpending]
    rw [List.replicate_succ, Events.run_cons, (step_of_idle hidle).1, htick, Option.map_some,
      Option.bind_some]
    exact ih hidle rfl

def turnOn : List (TaskEvent FirmwareTask SupplyRequest) :=
  .call .shell (.hv 1) :: (List.replicate 3 (.task .shell) ++ List.replicate 30 .tick ++
    List.replicate 4 (.task .shell))

/-- The supply stays up for a whole period, at the end of which the timer turns it off. -/
def wholePeriod : List (TaskEvent FirmwareTask SupplyRequest) :=
  List.replicate hvPeriod .tick ++ [.react, .tick]

theorem run_turnOn : (Events.run supplyStep (Tasks.start (Board.configured 1 1)) turnOn).map
      (fun sys => (sys.state.hvTimer, (sys.prog .instrument).idle, (sys.prog .shell).idle)) =
    some (some hvPeriod, true, true) := rfl

theorem supply_turns_off_hv : ∃ sys', Events.run supplyStep
      (Tasks.start (Board.configured 1 1)) (turnOn ++ wholePeriod) = some sys' ∧
    sys'.state.gpio .hvEnable = false := by
  obtain ⟨sys, hon, hfacts⟩ := Option.map_eq_some_iff.mp run_turnOn
  simp only [Prod.mk.injEq] at hfacts
  obtain ⟨htimer, hinstrument, hshell⟩ := hfacts
  have hidle : ∀ i, (sys.prog i).idle = true := by
    intro i
    cases i
    · exact hinstrument
    · exact hshell
  have hquiet : OnlyClock wholePeriod := by
    intro e he
    simp only [wholePeriod, List.mem_append, List.mem_replicate, List.mem_cons, List.not_mem_nil,
      or_false] at he
    obtain ⟨-, rfl⟩ | rfl | rfl := he
    · exact Or.inl rfl
    · exact Or.inr rfl
    · exact Or.inl rfl
  have hlong : hvPeriod < wholePeriod.countP isTick := by
    simp [wholePeriod, isTick, List.countP_replicate]
  have hstep (b : Board) := @step_of_idle { sys with state := b } hidle
  have hreact : hvSurroundings.react { sys.state with hvTimer := some 0 } =
      some { sys.state.drive .hvEnable false with hvState := 0, hvTimer := none } := rfl
  have hrest : ∃ sys', Events.run supplyStep sys wholePeriod = some sys' := by
    rw [wholePeriod, Events.run_append, run_ticks (n := hvPeriod) (r := 0) hidle htimer,
      Option.bind_some, Events.run_cons, (hstep _).2, hreact, Option.map_some, Option.bind_some,
      Events.run_cons, (hstep _).1]
    exact ⟨_, rfl⟩
  obtain ⟨sys', hsys'⟩ := hrest
  refine ⟨sys', ?_, supply_turns_off 1 1 hon hidle hquiet hsys' hlong⟩
  rw [Events.run_append, hon, Option.bind_some, hsys']

end UsbSpdt
