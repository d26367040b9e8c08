import UsbSpdt.Board.HighVoltage

/-!
# The supply of the coils

What `hvOn` and the turn-off timer make of the supply, apart from the rest of the board. The supply
that a power-up leaves is up, unless a timer from before expires in its wait.
-/

namespace UsbSpdt

/-- The level of `HVEnable`, with the flag and the timer that go with it. -/
structure Supply where
  up : Bool
  hvState : UInt32
  /-- Ticks until the timer expires; `none` while it is dormant. -/
  timer : Option Nat
  deriving DecidableEq

namespace Supply

/-- Nothing is supplied, and no timer runs. -/
def atRest : Supply := ⟨false, 0, none⟩

def elapse (n : Nat) (s : Supply) : Supply :=
  match s.timer with
  | none => s
  | some r => if n < r then { s with timer := some (r - n) } else atRest

/-- `hvOn(1)`. -/
def turnOn (s : Supply) : Supply where
  up := if s.hvState = 0 then (elapse (60 / portTickRateMs) { s with up := true }).up else s.up
  hvState := if s.hvState = 0 then 1 else s.hvState
  timer := some (hvTimeout / portTickRateMs)

/-- `hvOn(0)`, which leaves the timer alone. -/
def turnOff (s : Supply) : Supply := ⟨false, 0, s.timer⟩

def switch (on : Int) (s : Supply) : Supply := if on ≠ 0 then s.turnOn else s.turnOff

/-- The flag tells the truth, and no timer outlives its power-up. -/
structure Sound (s : Supply) : Prop where
  flag : s.hvState = if s.up then 1 else 0
  timer : s.up = false → s.timer = none

theorem sound_atRest : Sound atRest := ⟨rfl, fun _ => rfl⟩

theorem elapse_cases (n : Nat) (s : Supply) :
    s.elapse n = { s with timer := s.timer.map (· - n) } ∨ s.elapse n = atRest := by
  cases ht : s.timer with
  | none =>
    refine Or.inl ?_
    rw [elapse, ht, Option.map_none]
    dsimp only
    rw [← ht]
  | some r =>
    by_cases hr : n < r
    · refine Or.inl ?_
      simp only [elapse, ht, if_pos hr, Option.map_some]
    · refine Or.inr ?_
      simp only [elapse, ht, if_neg hr]

theorem Sound.elapse {s : Supply} (h : s.Sound) (n : Nat) : (s.elapse n).Sound := by
  obtain heq | heq := s.elapse_cases n
  · rw [heq]
    exact ⟨h.flag, fun hup => by rw [h.timer hup, Option.map_none]⟩
  · rw [heq]
    exact sound_atRest

theorem elapse_up {n : Nat} {s : Supply} (hup : s.up = true) :
    (s.elapse n).up = true ↔ ∀ r, s.timer = some r → n < r := by
  cases ht : s.timer with
  | none => simp [elapse, ht, hup]
  | some r => by_cases hr : n < r <;> simp [elapse, ht, hup, hr, atRest]

/-- `hvOn(1)` leaves the supply up exactly if its flag told the truth about a supply that was up, or
else no timer expires before the end of the power-up wait. -/
theorem turnOn_up_iff (s : Supply) : s.turnOn.up = true ↔
    if s.hvState = 0 then ∀ r, s.timer = some r → 60 / portTickRateMs < r else s.up = true := by
  by_cases hflag : s.hvState = 0
  · simp only [turnOn, hflag, if_true]
    exact elapse_up (s := ⟨true, 0, s.timer⟩) rfl
  · simp only [turnOn, hflag, if_false]

theorem Sound.turnOn {s : Supply} (h : s.Sound) :
    s.turnOn = ⟨true, 1, some (hvTimeout / portTickRateMs)⟩ := by
  have hup : s.turnOn.up = true := by
    rw [turnOn_up_iff, h.flag]
    cases hup : s.up with
    | true => rfl
    | false => exact fun r hr => absurd ((h.timer hup).symm.trans hr) (by simp)
  have hflag : s.turnOn.hvState = 1 := by
    rw [Supply.turnOn, h.flag]
    cases s.up <;> rfl
  rw [← hup, ← hflag]
  rfl

theorem sound_up (n : Nat) : Sound ⟨true, 1, some n⟩ := ⟨rfl, fun h => by cases h⟩

end Supply

/-! ### The supply of a board -/

def Board.supply (b : Board) : Supply := ⟨b.gpio .hvEnable, b.hvState, b.hvTimer⟩

theorem Board.supply_elapse (n : Nat) (b : Board) : (b.elapse n).supply = b.supply.elapse n := by
  cases ht : b.hvTimer with
  | none => simp only [elapse, Supply.elapse, supply, ht]
  | some r =>
    by_cases hr : n < r
    · simp only [elapse, Supply.elapse, supply, ht, if_pos hr]
    · simp only [elapse, Supply.elapse, supply, ht, if_neg hr, run_vhvTimerExpired,
        drive_gpio_self, Supply.atRest]

theorem Board.supply_drive_hvEnable (b : Board) (v : Bool) :
    (b.drive .hvEnable v).supply = { b.supply with up := v } := by
  rw [supply, drive_gpio_self]
  rfl

theorem Board.supply_drive {p : Pin} (hp : p ≠ .hvEnable) (v : Bool) (b : Board) :
    (b.drive p v).supply = b.supply := by
  rw [supply, b.drive_gpio_ne v hp.symm]
  rfl

theorem timed_hvPowerUp (b : Board) : (hvPowerUp.timed Board.elapse b).2 =
    if b.hvState = 0 then
      { (b.drive .hvEnable true).elapse (60 / portTickRateMs) with hvState := 1 }
    else b := by
  rw [hvPowerUp, Program.timed_bind, Program.timed_get]
  dsimp only
  split <;> rfl

/-- `hvOn` does to the supply of the board what it does to a supply. -/
theorem supply_hvOn (on : Int) (b : Board) :
    ((hvOn on).timed Board.elapse b).2.supply = b.supply.switch on := by
  let entered : Board := { b with hvOnCalls := b.hvOnCalls + 1 }
  by_cases hon : on = 0
  · have hrun : ((hvOn on).timed Board.elapse b).2.supply =
        { (entered.drive .hvEnable false).supply with hvState := 0 } := by
      rw [hvOn, hvSwitch, if_neg (by simpa using hon)]
      rfl
    rw [hrun, Board.supply_drive_hvEnable, Supply.switch, if_neg (by simpa using hon)]
    rfl
  have hrun : ((hvOn on).timed Board.elapse b).2.supply =
      { (hvPowerUp.timed Board.elapse entered).2.supply with
        timer := some (hvTimeout / portTickRateMs) } := by
    rw [hvOn, hvSwitch, if_pos hon]
    simp only [Program.timed_bind]
    rfl
  rw [hrun, timed_hvPowerUp, Supply.switch, if_pos hon]
  by_cases hflag : b.supply.hvState = 0
  · have hup := congrArg Supply.up
      (Board.supply_elapse (60 / portTickRateMs) (entered.drive .hvEnable true))
    rw [Board.supply_drive_hvEnable] at hup
    rw [if_pos (show entered.hvState = 0 from hflag), Supply.turnOn, if_pos hflag, if_pos hflag]
    exact congrArg (Supply.mk · 1 _) hup
  · rw [if_neg (show ¬ entered.hvState = 0 from hflag), Supply.turnOn, if_neg hflag, if_neg hflag]
    rfl

end UsbSpdt
