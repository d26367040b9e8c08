import UsbSpdt.Board.HighVoltage

/-!
# The two coaxial switches

The routines of `spdt.c`. Each coil line idles at one level and pulses its latching relay at the
other; which is which depends on the polarity of the switch.
-/

namespace UsbSpdt

def swDelay : Nat := 80

def s1SetPulseHigh (setting : Int) : Program Board Unit := do
  gpioClear .swEnable
  Program.modify ({ · with s1PulseHigh := UInt8.ofInt setting })
  if (← Program.get).s1PulseHigh ≠ 0 then
    gpioClear .s1d
    gpioClear .s1u
  else
    gpioSet .s1d
    gpioSet .s1u

def s2SetPulseHigh (setting : Int) : Program Board Unit := do
  gpioClear .swEnable
  Program.modify ({ · with s2PulseHigh := UInt8.ofInt setting })
  if (← Program.get).s2PulseHigh ≠ 0 then
    gpioClear .s2d
    gpioClear .s2u
  else
    gpioSet .s2d
    gpioSet .s2u

/-- The pulse of `s1_j1sel`, for the polarity in force. -/
def s1Pulse (on : Int) : Program Board Unit := do
  if (← Program.get).s1PulseHigh ≠ 0 then
    if on ≠ 0 then
      gpioClear .s1d
      gpioSet .s1u
      delayms swDelay
      gpioClear .s1u
    else
      gpioClear .s1u
      gpioSet .s1d
      delayms swDelay
      gpioClear .s1d
  else
    if on ≠ 0 then
      gpioSet .s1d
      gpioClear .s1u
      delayms swDelay
      gpioSet .s1u
    else
      gpioSet .s1u
      gpioClear .s1d
      delayms swDelay
      gpioSet .s1d

def s1J1sel (on : Int) : Program Board Unit := do
  hvOn 1
  gpioSet .swEnable
  s1Pulse on
  gpioClear .swEnable

/-- The pulse of `s2_j1sel`; unlike its sibling it raises the enable after the coil line. -/
def s2Pulse (on : Int) : Program Board Unit := do
  if (← Program.get).s2PulseHigh ≠ 0 then
    if on ≠ 0 then
      gpioClear .s2d
      gpioSet .s2u
      gpioSet .swEnable
      delayms swDelay
      gpioClear .s2u
    else
      gpioClear .s2u
      gpioSet .s2d
      gpioSet .swEnable
      delayms swDelay
      gpioClear .s2d
  else
    if on ≠ 0 then
      gpioSet .s2d
      gpioClear .s2u
      gpioSet .swEnable
      delayms swDelay
      gpioSet .s2u
    else
      gpioSet .s2u
      gpioClear .s2d
      gpioSet .swEnable
      delayms swDelay
      gpioSet .s2d

def s2J1sel (on : Int) : Program Board Unit := do
  hvOn 1
  s2Pulse on
  gpioClear .swEnable

/-- The values of `spdtSel_t` and `spdtSetting_t` that the code compares with. -/
def sw1 : UInt8 := 0

def j1sel : UInt8 := 0

/-- The LEDs D4, D5 and D6 show the state of S1. -/
def showS1 (sel : UInt8) : Program Board Unit := do
  if sel = j1sel then
    gpioSet .d4
    gpioClear .d5
    gpioClear .d6
  else
    gpioClear .d4
    gpioClear .d5
    gpioSet .d6

def spdtSet (swtch sel : UInt8) : Program Board Unit := do
  if swtch = sw1 then
    showS1 sel
    s1J1sel (if sel = j1sel then 1 else 0)
  else
    s2J1sel (if sel = j1sel then 1 else 0)

/-- What `aux0` to `aux3` do with their line. -/
def auxLine (p : Pin) (on : Int) : Program Board Unit :=
  if on ≠ 0 then gpioSet p else gpioClear p

def aux0 (on : Int) : Program Board Unit := auxLine .aux0 on

def aux1 (on : Int) : Program Board Unit := auxLine .aux1 on

def aux2 (on : Int) : Program Board Unit := auxLine .aux2 on

def aux3 (on : Int) : Program Board Unit := auxLine .aux3 on

namespace Board

def s1Active (b : Board) : Bool := decide (b.s1PulseHigh ≠ 0)

def s2Active (b : Board) : Bool := decide (b.s2PulseHigh ≠ 0)

def CoilDriven (b : Board) : Prop :=
  b.gpio .s1u = b.s1Active ∨ b.gpio .s1d = b.s1Active ∨
    b.gpio .s2u = b.s2Active ∨ b.gpio .s2d = b.s2Active

structure LinesIdle (b : Board) : Prop where
  s1u : b.gpio .s1u = !b.s1Active
  s1d : b.gpio .s1d = !b.s1Active
  s2u : b.gpio .s2u = !b.s2Active
  s2d : b.gpio .s2d = !b.s2Active

theorem LinesIdle.not_driven {b : Board} (h : b.LinesIdle) : ¬ b.CoilDriven := by
  simp [CoilDriven, h.s1u, h.s1d, h.s2u, h.s2d]

theorem LinesIdle.congr {b c : Board} (h : b.LinesIdle)
    (hg : ∀ p, p ≠ .hvEnable → c.gpio p = b.gpio p)
    (h1 : c.s1PulseHigh = b.s1PulseHigh) (h2 : c.s2PulseHigh = b.s2PulseHigh) : c.LinesIdle := by
  constructor
  · simpa [s1Active, h1, hg .s1u nofun] using h.s1u
  · simpa [s1Active, h1, hg .s1d nofun] using h.s1d
  · simpa [s2Active, h2, hg .s2u nofun] using h.s2u
  · simpa [s2Active, h2, hg .s2d nofun] using h.s2d

/-- `setupGPIOs`, `setupTimers` and the initial values of the variables. -/
def powerUp : Board where
  gpio _ := false
  hvState := 0
  s1PulseHigh := 1
  s2PulseHigh := 1
  hvTimer := none
  hvOnCalls := 0

/-- The board after the boot task has configured both polarities. -/
def configured (s1 s2 : Int) : Board :=
  ((s1SetPulseHigh s1).run ((s2SetPulseHigh s2).run powerUp).2).2

end Board

end UsbSpdt
