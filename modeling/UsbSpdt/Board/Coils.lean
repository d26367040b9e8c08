import UsbSpdt.Board.Spdt
import UsbSpdt.Library.Tasks

/-!
# The coils of the latching relays

A coil is energised when `SWEnable` is high and its line is at the active level of its switch.
Every routine of `spdt.c` is an approach that leaves the coils alone and a part that drives at most
one coil, from a board whose coils are off to another.
-/

namespace UsbSpdt

open Program

inductive Coil where
  | s1u | s1d | s2u | s2d
  deriving DecidableEq

namespace Coil

def pin : Coil → Pin
  | s1u => .s1u
  | s1d => .s1d
  | s2u => .s2u
  | s2d => .s2d

/-- The other coil of the same relay. -/
def other : Coil → Coil
  | s1u => s1d
  | s1d => s1u
  | s2u => s2d
  | s2d => s2u

theorem pin_ne {c d : Coil} (h : c ≠ d) : c.pin ≠ d.pin := by
  cases c <;> cases d <;> first | exact absurd rfl h | exact nofun

theorem pin_ne_enable (c : Coil) : c.pin ≠ .swEnable := by
  cases c <;> exact nofun

theorem other_ne (c : Coil) : c.other ≠ c := by
  cases c <;> exact nofun

@[simp] theorem other_other (c : Coil) : c.other.other = c := by
  cases c <;> rfl

end Coil

namespace Board

/-- The active level of the coil's line, under the polarity in force. -/
def level (b : Board) : Coil → Bool
  | .s1u | .s1d => b.s1Active
  | .s2u | .s2d => b.s2Active

def Active (b : Board) (c : Coil) : Prop := b.gpio c.pin = b.level c

def Energised (b : Board) (c : Coil) : Prop := b.gpio .swEnable = true ∧ b.Active c

/-- `SWEnable` is at `enable`, and of the coil lines at most that of `live` is active. -/
structure Lines (b : Board) (live : Option Coil) (enable : Bool) : Prop where
  enable : b.gpio .swEnable = enable
  active : ∀ c, b.Active c ↔ live = some c

abbrev CoilsOff (b : Board) : Prop := b.Lines none false

/-- What happens to the board leaves the coils as they are. -/
structure SameCoils (b t : Board) : Prop where
  enable : t.gpio .swEnable = b.gpio .swEnable
  line : ∀ c : Coil, t.gpio c.pin = b.gpio c.pin
  s1 : t.s1PulseHigh = b.s1PulseHigh
  s2 : t.s2PulseHigh = b.s2PulseHigh

@[simp] theorem level_drive (b : Board) (p : Pin) (v : Bool) (c : Coil) :
    (b.drive p v).level c = b.level c := by
  cases c <;> rfl

@[simp] theorem level_other (b : Board) (c : Coil) : b.level c.other = b.level c := by
  cases c <;> rfl

theorem SameCoils.level {b t : Board} (h : SameCoils b t) (c : Coil) : t.level c = b.level c := by
  cases c <;> simp only [Board.level, s1Active, s2Active, h.s1, h.s2]

theorem SameCoils.active {b t : Board} (h : SameCoils b t) (c : Coil) :
    t.Active c ↔ b.Active c := by
  rw [Active, Active, h.line, h.level]

theorem active_drive_ne (b : Board) {c d : Coil} (v : Bool) (h : d ≠ c) :
    (b.drive c.pin v).Active d ↔ b.Active d := by
  rw [Active, Active, drive_gpio_ne b v (Coil.pin_ne h), level_drive]

theorem active_raised (b : Board) (c : Coil) : (b.drive c.pin (b.level c)).Active c := by
  rw [Active, drive_gpio_self, level_drive]

theorem not_active_lowered (b : Board) (c : Coil) : ¬ (b.drive c.pin (!b.level c)).Active c := by
  rw [Active, drive_gpio_self, level_drive]
  simp

theorem coilsOff_iff (b : Board) :
    b.CoilsOff ↔ b.gpio .swEnable = false ∧ b.LinesIdle := by
  constructor
  · intro h
    have hidle (c : Coil) : b.gpio c.pin = !b.level c := by
      rw [Bool.eq_not]
      exact fun hc => nomatch (h.active c).mp hc
    exact ⟨h.enable, hidle .s1u, hidle .s1d, hidle .s2u, hidle .s2d⟩
  · rintro ⟨henable, hlines⟩
    refine ⟨henable, fun c => ⟨fun hc => absurd ?_ hlines.not_driven, nofun⟩⟩
    cases c with
    | s1u => exact Or.inl hc
    | s1d => exact Or.inr (Or.inl hc)
    | s2u => exact Or.inr (Or.inr (Or.inl hc))
    | s2d => exact Or.inr (Or.inr (Or.inr hc))

theorem Lines.same {b t : Board} {live : Option Coil} {enable : Bool} (h : b.Lines live enable)
    (hs : SameCoils b t) : t.Lines live enable where
  enable := hs.enable.trans h.enable
  active := fun c => (hs.active c).trans (h.active c)

theorem Lines.drive_enable {b : Board} {live : Option Coil} {enable : Bool}
    (h : b.Lines live enable) (v : Bool) : (b.drive .swEnable v).Lines live v where
  enable := drive_gpio_self b .swEnable v
  active := by
    intro c
    rw [Active, drive_gpio_ne b v c.pin_ne_enable, level_drive]
    exact h.active c

/-- Driving the line of one coil leaves the others as they are. -/
theorem Lines.drive {b : Board} {live : Option Coil} {enable : Bool} (h : b.Lines live enable)
    (live' : Option Coil) {c : Coil} {v : Bool}
    (hself : (b.drive c.pin v).Active c ↔ live' = some c)
    (hothers : ∀ d, d ≠ c → (live = some d ↔ live' = some d)) :
    (b.drive c.pin v).Lines live' enable where
  enable := (drive_gpio_ne b _ c.pin_ne_enable.symm).trans h.enable
  active := by
    intro d
    by_cases hd : d = c
    · subst hd
      exact hself
    · rw [active_drive_ne b _ hd, h.active d]
      exact hothers d hd

theorem Lines.raise {b : Board} {enable : Bool} (h : b.Lines none enable) (c : Coil) :
    (b.drive c.pin (b.level c)).Lines (some c) enable := by
  apply h.drive (some c) (iff_of_true (active_raised b c) rfl)
  intro d hd
  exact iff_of_false nofun fun hc => hd (Option.some.inj hc).symm

theorem Lines.lower {b : Board} {live : Option Coil} {enable : Bool} (h : b.Lines live enable)
    (c : Coil) (hlive : live = none ∨ live = some c) :
    (b.drive c.pin (!b.level c)).Lines none enable := by
  apply h.drive none (iff_of_false (not_active_lowered b c) nofun)
  intro d hd
  rcases hlive with rfl | rfl
  · exact Iff.rfl
  · exact iff_of_false (fun hc => hd (Option.some.inj hc).symm) nofun

theorem Lines.only {b : Board} {live : Option Coil} {enable : Bool} (h : b.Lines live enable)
    {c : Coil} (hlive : live = none ∨ live = some c) (d : Coil) (hd : b.Active d) : d = c := by
  have hd' := (h.active d).mp hd
  rcases hlive with rfl | rfl
  · cases hd'
  · exact (Option.some.inj hd').symm

end Board

theorem rely_sameCoils : Rely fun _ => Board.SameCoils where
  refl := fun _ => ⟨rfl, fun _ => rfl, rfl, rfl⟩
  trans := fun h k => ⟨k.enable.trans h.enable, fun c => (k.line c).trans (h.line c),
    k.s1.trans h.s1, k.s2.trans h.s2⟩
  mono := fun _ h => h

/-! ### The drive of one coil -/

/-- The promise of a routine that drives `c`: no other line becomes active, and the coil is
energised as long as the routine is blocked. -/
structure Pulse (c : Coil) (p : Program Board Unit) (b : Board) : Prop where
  only : ∀ d, b.Active d → d = c
  live : InLastWait p → b.Energised c
  blocked : p.running = false → InLastWait p

theorem pulse_running {c : Coil} {p : Program Board Unit} {b : Board} {live : Option Coil}
    {enable : Bool} (hp : p.running = true) (h : b.Lines live enable)
    (hlive : live = none ∨ live = some c) : Pulse c p b where
  only := h.only hlive
  live := by
    rintro ⟨n, next, rfl, -⟩
    cases hp
  blocked := by
    intro hb
    rw [hp] at hb
    cases hb

theorem pulse_wait {c : Coil} {b : Board} {n : Nat} {next : Program Board Unit}
    (hnext : NoWait next) (h : b.Lines (some c) true) : Pulse c (.wait n next) b where
  only := h.only (Or.inr rfl)
  live := fun _ => ⟨h.enable, (h.active c).mpr rfl⟩
  blocked := fun _ => ⟨n, next, rfl, hnext⟩

abbrev Drives (c : Coil) (p : Program Board Unit) (b : Board) : Prop :=
  Throughout (fun _ => Board.SameCoils) (Pulse c) (fun _ => Board.CoilsOff) p b

theorem drives_raise {c : Coil} {b : Board} {level enable : Bool} {next : Program Board Unit}
    (hlevel : b.level c = level) (h : b.Lines none enable)
    (hnext : ∀ t : Board, t.level c = level → t.Lines (some c) enable → Drives c next t) :
    Drives c (do
      Program.modify (·.drive c.other.pin !level)
      Program.modify (·.drive c.pin level)
      next) b := by
  subst hlevel
  have hother : (b.drive c.other.pin !b.level c).Lines none enable := by
    have hlow := h.lower c.other (Or.inl rfl)
    rwa [Board.level_other] at hlow
  have hraised := hother.raise c
  rw [Board.level_drive] at hraised
  constructor
  · exact pulse_running rfl h (Or.inl rfl)
  constructor
  · exact pulse_running rfl hother (Or.inl rfl)
  · exact hnext _ (by rw [Board.level_drive, Board.level_drive]) hraised

theorem drives_hold {c : Coil} {b : Board} {level : Bool} (hlevel : b.level c = level)
    (h : b.Lines (some c) true) : Drives c (do
      delayms swDelay
      Program.modify (·.drive c.pin !level)
      gpioClear .swEnable) b := by
  subst hlevel
  constructor
  · exact fun t ht m => pulse_wait trivial (h.same ht)
  · intro t ht
    have hheld := h.same ht
    have hlow := hheld.lower c (Or.inr rfl)
    rw [ht.level] at hlow
    constructor
    · exact pulse_running rfl hheld (Or.inr rfl)
    constructor
    · exact pulse_running rfl hlow (Or.inl rfl)
    · exact hlow.drive_enable false

def s1Coil (on : Int) : Coil := if on ≠ 0 then .s1u else .s1d

def s2Coil (on : Int) : Coil := if on ≠ 0 then .s2u else .s2d

/-- What `s1_j1sel` does once the supply is up. -/
def s1Drive (on : Int) : Program Board Unit := do
  gpioSet .swEnable
  s1Pulse on
  gpioClear .swEnable

def s2Drive (on : Int) : Program Board Unit := do
  s2Pulse on
  gpioClear .swEnable

/-- `s1_j1sel` after its `hvOn`, for either polarity and either direction. -/
theorem s1Drive_eq (on : Int) : s1Drive on = (do
    gpioSet .swEnable
    let b ← Program.get
    Program.modify (·.drive (s1Coil on).other.pin !b.s1Active)
    Program.modify (·.drive (s1Coil on).pin b.s1Active)
    delayms swDelay
    Program.modify (·.drive (s1Coil on).pin !b.s1Active)
    gpioClear .swEnable) := by
  refine congrArg (Program.act _) (congrArg Program.look ?_)
  funext b
  by_cases hb : b.s1PulseHigh = 0 <;> by_cases hon : on = 0
  all_goals
    simp only [Program.bind, s1Coil, Board.s1Active, hb, hon, ne_eq, not_true, not_false_iff,
      if_true, if_false, decide_true, decide_false]
    rfl

theorem s2Drive_eq (on : Int) : s2Drive on = (do
    let b ← Program.get
    Program.modify (·.drive (s2Coil on).other.pin !b.s2Active)
    Program.modify (·.drive (s2Coil on).pin b.s2Active)
    gpioSet .swEnable
    delayms swDelay
    Program.modify (·.drive (s2Coil on).pin !b.s2Active)
    gpioClear .swEnable) := by
  refine congrArg Program.look ?_
  funext b
  by_cases hb : b.s2PulseHigh = 0 <;> by_cases hon : on = 0
  all_goals
    simp only [Program.bind, s2Coil, Board.s2Active, hb, hon, ne_eq, not_true, not_false_iff,
      if_true, if_false, decide_true, decide_false]
    rfl

/-- A selection touches no lines but those of the coils and their enable. -/
theorem acts_drive_of {S : Board → Board → Prop}
    (henable : ∀ (v : Bool) (b : Board), S b (b.drive .swEnable v))
    (hcoil : ∀ (c : Coil) (v : Bool) (b : Board), S b (b.drive c.pin v)) (on : Int) :
    Acts S (s1Drive on) ∧ Acts S (s2Drive on) := by
  rw [s1Drive_eq, s2Drive_eq]
  refine ⟨⟨henable true, fun b => ?_⟩, fun b => ?_⟩
  · exact ⟨hcoil _ _, hcoil _ _, hcoil _ _, henable false, trivial⟩
  · exact ⟨hcoil _ _, hcoil _ _, henable true, hcoil _ _, henable false, trivial⟩

theorem level_s1Coil (b : Board) (on : Int) : b.level (s1Coil on) = b.s1Active := by
  unfold s1Coil
  split <;> rfl

theorem level_s2Coil (b : Board) (on : Int) : b.level (s2Coil on) = b.s2Active := by
  unfold s2Coil
  split <;> rfl

theorem drives_s1Drive (on : Int) {b : Board} (h : b.CoilsOff) :
    Drives (s1Coil on) (s1Drive on) b := by
  rw [s1Drive_eq]
  have hup := h.drive_enable true
  constructor
  · exact pulse_running rfl h (Or.inl rfl)
  constructor
  · exact pulse_running rfl hup (Or.inl rfl)
  · exact drives_raise (level_s1Coil _ on) hup fun t hlevel ht => drives_hold hlevel ht

theorem drives_s2Drive (on : Int) {b : Board} (h : b.CoilsOff) :
    Drives (s2Coil on) (s2Drive on) b := by
  rw [s2Drive_eq]
  constructor
  · exact pulse_running rfl h (Or.inl rfl)
  · apply drives_raise (level_s2Coil b on) h
    intro t hlevel ht
    constructor
    · exact pulse_running rfl ht (Or.inr rfl)
    · exact drives_hold ((Board.level_drive ..).trans hlevel) (ht.drive_enable true)

theorem lastWait_s1Drive (on : Int) : (s1Drive on).LastWait (swDelay / portTickRateMs) := by
  rw [s1Drive_eq]
  exact fun _ => Or.inr ⟨rfl, trivial⟩

theorem lastWait_s2Drive (on : Int) : (s2Drive on).LastWait (swDelay / portTickRateMs) := by
  rw [s2Drive_eq]
  exact fun _ => Or.inr ⟨rfl, trivial⟩

theorem not_noWait_s1Drive (on : Int) : ¬ NoWait (s1Drive on) := by
  rw [s1Drive_eq]
  exact fun h => h Board.powerUp

theorem not_noWait_s2Drive (on : Int) : ¬ NoWait (s2Drive on) := by
  rw [s2Drive_eq]
  exact fun h => h Board.powerUp

/-! ### What leaves the coils alone -/

theorem sameCoils_drive (b : Board) {p : Pin} (v : Bool) (hp : p ≠ .swEnable)
    (hline : ∀ c : Coil, p ≠ c.pin) : Board.SameCoils b (b.drive p v) where
  enable := Board.drive_gpio_ne b v hp.symm
  line := fun c => Board.drive_gpio_ne b v (hline c).symm
  s1 := rfl
  s2 := rfl

theorem sameCoils_of_gpio {b t : Board} (hg : t.gpio = b.gpio)
    (h1 : t.s1PulseHigh = b.s1PulseHigh) (h2 : t.s2PulseHigh = b.s2PulseHigh) :
    Board.SameCoils b t :=
  ⟨congrFun hg _, fun _ => congrFun hg _, h1, h2⟩

theorem sameCoils_hvEnable (b : Board) (v : Bool) : Board.SameCoils b (b.drive .hvEnable v) :=
  sameCoils_drive b v nofun fun c => by cases c <;> exact nofun

/-- `hvOn` touches no line but that of the supply, and no polarity. -/
theorem acts_hvOn_of {S : Board → Board → Prop}
    (hfields : ∀ {b t : Board}, t.gpio = b.gpio → t.s1PulseHigh = b.s1PulseHigh →
      t.s2PulseHigh = b.s2PulseHigh → S b t)
    (henable : ∀ (b : Board) (v : Bool), S b (b.drive .hvEnable v)) (on : Int) :
    Acts S (hvOn on) := by
  have hflags {f : Board → Board} (hg : ∀ b, (f b).gpio = b.gpio)
      (h1 : ∀ b, (f b).s1PulseHigh = b.s1PulseHigh)
      (h2 : ∀ b, (f b).s2PulseHigh = b.s2PulseHigh) : Acts S (Program.modify f) :=
    acts_modify fun b => hfields (hg b) (h1 b) (h2 b)
  have hpowerUp : Acts S hvPowerUp := by
    intro b
    change Acts S (if b.hvState = 0 then _ else _)
    split
    · refine acts_bind (acts_modify fun b => henable b true) fun _ => ?_
      exact acts_bind (p := delayms 60) trivial fun _ =>
        hflags (fun _ => rfl) (fun _ => rfl) fun _ => rfl
    · trivial
  have hswitch : Acts S (hvSwitch on) := by
    unfold hvSwitch
    split
    · exact acts_bind hpowerUp fun _ => hflags (fun _ => rfl) (fun _ => rfl) fun _ => rfl
    · refine acts_bind (acts_modify fun b => henable b false) fun _ => ?_
      exact hflags (fun _ => rfl) (fun _ => rfl) fun _ => rfl
  refine acts_bind (hflags (fun _ => rfl) (fun _ => rfl) fun _ => rfl) fun _ => ?_
  exact acts_bind hswitch fun _ => hflags (fun _ => rfl) (fun _ => rfl) fun _ => rfl

theorem acts_hvOn (on : Int) : Acts Board.SameCoils (hvOn on) :=
  acts_hvOn_of sameCoils_of_gpio sameCoils_hvEnable on

theorem sameCoils_tick {b t : Board} (h : hvSurroundings.tick b = some t) :
    Board.SameCoils b t := by
  obtain ⟨-, rfl⟩ := hvSurroundings_tick h
  exact ⟨rfl, fun _ => rfl, rfl, rfl⟩

theorem sameCoils_react {b t : Board} (h : hvSurroundings.react b = some t) :
    Board.SameCoils b t := by
  obtain ⟨-, rfl⟩ := hvSurroundings_react h
  have hdrive := sameCoils_hvEnable b false
  exact ⟨hdrive.enable, hdrive.line, rfl, rfl⟩

end UsbSpdt
