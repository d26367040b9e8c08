import Mathlib.Logic.Function.Basic
import UsbSpdt.Library.Waits
import UsbSpdt.Platform

/-!
# Board state and high-voltage control

The GPIO lines and the high-voltage part of `bsp.c`: `hvOn`, the one-shot turn-off timer and its
callback. Time is counted in scheduler ticks.
-/

namespace UsbSpdt

/-- The output lines named in `bsp.h`. -/
inductive Pin where
  | s1u | s1d | s2u | s2d | swEnable
  | aux0 | aux1 | aux2 | aux3
  | d4 | d5 | d6 | greenLed | redLed | hvEnable
  deriving DecidableEq, Repr

/-- Lines, flags and the timer that the board operations share. `hvOnCalls` counts the calls of
`hvOn` in progress; no operation reads it. -/
structure Board where
  gpio : Pin → Bool
  hvState : UInt32
  s1PulseHigh : UInt8
  s2PulseHigh : UInt8
  /-- Ticks until `HVTimer` expires; `none` while it is dormant. -/
  hvTimer : Option Nat
  hvOnCalls : Nat

namespace Board

def drive (b : Board) (p : Pin) (level : Bool) : Board :=
  { b with gpio := Function.update b.gpio p level }

@[simp] theorem drive_gpio_self (b : Board) (p : Pin) (level : Bool) :
    (b.drive p level).gpio p = level := Function.update_self ..

theorem drive_gpio_ne (b : Board) {p q : Pin} (level : Bool) (h : q ≠ p) :
    (b.drive p level).gpio q = b.gpio q := Function.update_of_ne h ..

end Board

def gpioSet (p : Pin) : Program Board Unit := Program.modify (·.drive p true)

def gpioClear (p : Pin) : Program Board Unit := Program.modify (·.drive p false)

def hvTimeout : Nat := 10000

/-- `xTimerReset(xTimers[0],5)`: the timer runs for its whole period from now on. -/
def xTimerReset : Program Board Unit :=
  Program.modify ({ · with hvTimer := some (hvTimeout / portTickRateMs) })

def xTimerStop : Program Board Unit := Program.modify ({ · with hvTimer := none })

def setHvState (v : UInt32) : Program Board Unit := Program.modify ({ · with hvState := v })

def enterHvOn : Program Board Unit :=
  Program.modify fun b => { b with hvOnCalls := b.hvOnCalls + 1 }

def leaveHvOn : Program Board Unit :=
  Program.modify fun b => { b with hvOnCalls := b.hvOnCalls - 1 }

def hvPowerUp : Program Board Unit := do
  if (← Program.get).hvState = 0 then
    gpioSet .hvEnable
    delayms 60 -- power-up time is about 40 ms
    setHvState 1

def hvSwitch (on : Int) : Program Board Unit := do
  if on ≠ 0 then
    hvPowerUp
    xTimerReset
  else
    gpioClear .hvEnable
    setHvState 0

def hvOn (on : Int) : Program Board Unit := do
  enterHvOn
  hvSwitch on
  leaveHvOn

def vhvTimerExpired : Program Board Unit := do
  xTimerStop
  hvOn 0

/-- The clock and the timer task beside the task that operates the board. The timer task preempts
it, so an expired timer runs its callback to the end before time goes on. -/
def hvSurroundings : Program.Surroundings Board where
  tick b := match b.hvTimer with
    | none => some b
    | some 0 => none
    | some (t + 1) => some { b with hvTimer := some t }
  react b := if b.hvTimer = some 0 then some (vhvTimerExpired.run b).2 else none

/-- What a wait of `n` ticks does to the board: the timer runs on, and its callback turns the supply
off. At the same tick the timer task goes first, since it has the higher priority. -/
def Board.elapse (n : Nat) (b : Board) : Board :=
  match b.hvTimer with
  | none => b
  | some r => if n < r then { b with hvTimer := some (r - n) } else (vhvTimerExpired.run b).2

theorem run_vhvTimerExpired (b : Board) : (vhvTimerExpired.run b).2 =
    { b.drive .hvEnable false with hvState := 0, hvTimer := none } := by
  simp [vhvTimerExpired, hvOn, hvSwitch, xTimerStop, enterHvOn, leaveHvOn, gpioClear, setHvState,
    Board.drive]

theorem Board.elapse_cases (n : Nat) (b : Board) :
    b.elapse n = { b with hvTimer := b.hvTimer.map (· - n) } ∨
      b.elapse n = { b.drive .hvEnable false with hvState := 0, hvTimer := none } := by
  cases ht : b.hvTimer with
  | none =>
    refine Or.inl ?_
    rw [elapse, ht, Option.map_none]
    dsimp only
    rw [← ht]
  | some r =>
    by_cases hr : n < r
    · refine Or.inl ?_
      simp only [elapse, ht, if_pos hr, Option.map_some]
    · refine Or.inr ?_
      simp only [elapse, ht, if_neg hr, run_vhvTimerExpired]

theorem hvSurroundings_react {b t : Board} (h : hvSurroundings.react b = some t) :
    b.hvTimer = some 0 ∧
      t = { b.drive .hvEnable false with hvState := 0, hvTimer := none } := by
  simp only [hvSurroundings, Option.ite_none_right_eq_some, Option.some.injEq] at h
  exact ⟨h.1, h.2.symm.trans (run_vhvTimerExpired b)⟩

theorem hvSurroundings_tick {b t : Board} (h : hvSurroundings.tick b = some t) :
    b.hvTimer ≠ some 0 ∧ t = { b with hvTimer := b.hvTimer.map (· - 1) } := by
  cases ht : b.hvTimer with
  | none =>
    obtain rfl : b = t := by simpa only [hvSurroundings, ht, Option.some.injEq] using h
    refine ⟨nofun, ?_⟩
    cases b
    simp_all
  | some r =>
    cases r with
    | zero => simp [hvSurroundings, ht] at h
    | succ r =>
      obtain rfl : { b with hvTimer := some r } = t := by
        simpa only [hvSurroundings, ht, Option.some.injEq] using h
      simp

theorem hv_drift {n : Nat} {b t : Board} (h : Program.Drift hvSurroundings n b t)
    (hclear : ∀ r, b.hvTimer = some r → n < r) :
    t = { b with hvTimer := b.hvTimer.map (· - n) } := by
  induction h with
  | still b =>
    cases b with
    | mk gpio st p1 p2 timer calls => cases timer <;> rfl
  | @tick n s s' t hs _ ih =>
    obtain ⟨_, rfl⟩ := hvSurroundings_tick hs
    have hs' : ∀ r, s.hvTimer.map (· - 1) = some r → n < r := by
      intro r hr
      obtain ⟨r', hr', rfl⟩ := Option.map_eq_some_iff.mp hr
      have := hclear r' hr'
      omega
    rw [ih hs']
    cases s.hvTimer with
    | none => rfl
    | some r => simp only [Option.map_some, Nat.sub_sub, Nat.add_comm]
  | @react n s s' t hs _ _ =>
    have := hclear 0 (hvSurroundings_react hs).1
    omega

theorem drift_dormant {b : Board} (h : b.hvTimer = none) (n : Nat) :
    Program.Drift hvSurroundings n b b := by
  induction n with
  | zero => exact .still b
  | succ n ih => exact .tick (by simp only [hvSurroundings, h]) ih

theorem drift_running {b : Board} {m r : Nat} (h : b.hvTimer = some (m + r)) :
    Program.Drift hvSurroundings m b { b with hvTimer := some r } := by
  induction m generalizing b with
  | zero =>
    rw [Nat.zero_add] at h
    rw [← h]
    exact .still b
  | succ m ih =>
    have htick : hvSurroundings.tick b = some { b with hvTimer := some (m + r) } := by
      rw [Nat.succ_add] at h
      simp only [hvSurroundings, h]
    exact .tick htick (ih rfl)

/-- `elapse` is one of the ways in which the timer can act beside a task that waits. -/
theorem drift_elapse (n : Nat) (b : Board) :
    Program.Drift hvSurroundings n b (b.elapse n) := by
  cases ht : b.hvTimer with
  | none =>
    simp only [Board.elapse, ht]
    exact drift_dormant ht n
  | some r =>
    by_cases hr : n < r
    · simp only [Board.elapse, ht, if_pos hr]
      exact drift_running (ht.trans (congrArg some (by omega)))
    · simp only [Board.elapse, ht, if_neg hr]
      have hdown : Program.Drift hvSurroundings r b { b with hvTimer := some 0 } :=
        drift_running ht
      have hreact : hvSurroundings.react { b with hvTimer := some 0 } =
          some (vhvTimerExpired.run b).2 := by
        simp only [hvSurroundings, if_true, run_vhvTimerExpired, Board.drive]
      have hrest := drift_dormant (b := (vhvTimerExpired.run b).2)
        (by rw [run_vhvTimerExpired]) (n - r)
      have hall := hdown.trans (.react hreact hrest)
      rwa [Nat.add_sub_cancel' (Nat.le_of_not_lt hr)] at hall

theorem safe_delayms {I : Board → Prop} {Q : Unit → Board → Prop} {b : Board} {ms : Nat}
    (hclear : ∀ r, b.hvTimer = some r → ms / portTickRateMs < r)
    (hI : ∀ timer, I { b with hvTimer := timer })
    (hQ : Q () { b with hvTimer := b.hvTimer.map (· - ms / portTickRateMs) }) :
    Program.Safe hvSurroundings I (delayms ms) Q b := by
  apply Program.safe_block
  · intro m hm t ht
    rw [hv_drift ht fun r hr => Nat.lt_of_le_of_lt hm (hclear r hr)]
    exact hI _
  · intro t ht
    rw [hv_drift ht hclear]
    exact hQ

end UsbSpdt
