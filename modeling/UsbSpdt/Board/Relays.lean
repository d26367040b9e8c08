import UsbSpdt.Board.Interleaved
import UsbSpdt.Board.Supply

/-!
# Where the relays stand

A latching relay stands where the coil left it that pulled last, for as long as it takes. Which
level makes a coil pull is a matter of how its switch is wired, and none pulls without the supply. A
select command moves one relay to the side that it names, when the polarities in force are those of
the wiring and the supply comes up.
-/

namespace UsbSpdt

open Program

inductive Switch where
  | s1 | s2
  deriving DecidableEq, Repr

inductive Connector where
  | j1 | j2
  deriving DecidableEq, Repr

def Connector.other : Connector → Connector
  | j1 => j2
  | j2 => j1

/-- The coil that connects a switch to a connector. -/
def Switch.coil : Switch → Connector → Coil
  | s1, .j1 => .s1u
  | s1, .j2 => .s1d
  | s2, .j1 => .s2u
  | s2, .j2 => .s2d

def Coil.switch : Coil → Switch
  | s1u | s1d => .s1
  | s2u | s2d => .s2

/-- The level that pulls the coils of a switch: high if its common is wired to ground. -/
abbrev Wiring := Switch → Bool

namespace Board

/-- The coil carries current. -/
def Pulls (w : Wiring) (b : Board) (c : Coil) : Prop :=
  b.gpio .hvEnable = true ∧ b.gpio .swEnable = true ∧ b.gpio c.pin = w c.switch

instance (w : Wiring) (b : Board) (c : Coil) : Decidable (b.Pulls w c) :=
  inferInstanceAs (Decidable (_ ∧ _))

/-- The ticks of a wait that are over before the turn-off timer expires. -/
def fedTicks (n : Nat) (b : Board) : Nat := b.hvTimer.elim n (min n)

/-- The wiring that the firmware goes by. -/
def polarity (b : Board) : Wiring
  | .s1 => b.s1Active
  | .s2 => b.s2Active

theorem level_eq (b : Board) (c : Coil) : b.level c = b.polarity c.switch := by
  cases c <;> rfl

theorem polarity_congr {b t : Board} (h : ∀ c, t.level c = b.level c) :
    t.polarity = b.polarity := by
  funext s
  cases s
  · exact h .s1u
  · exact h .s2u

/-- Where the polarity is wrong, the coils whose lines are idle pull. -/
theorem Lines.pulls_iff {w : Wiring} {b : Board} {live : Option Coil} (h : b.Lines live true)
    (hup : b.gpio .hvEnable = true) (c : Coil) :
    b.Pulls w c ↔ (b.polarity c.switch = w c.switch ↔ live = some c) := by
  rw [← h.active c, Active, level_eq, Pulls, h.enable, hup]
  cases b.gpio c.pin <;> cases b.polarity c.switch <;> cases w c.switch <;> decide

theorem sameCoils_elapse (n : Nat) (b : Board) : SameCoils b (b.elapse n) := by
  obtain heq | heq := b.elapse_cases n
  · rw [heq]
    exact sameCoils_of_gpio rfl rfl rfl
  · have hdown := sameCoils_hvEnable b false
    rw [heq]
    exact ⟨hdown.enable, hdown.line, hdown.s1, hdown.s2⟩

theorem polarity_elapse (n : Nat) (b : Board) : (b.elapse n).polarity = b.polarity :=
  polarity_congr (b.sameCoils_elapse n).level

end Board

/-- Where each relay stands; nothing is known of one that both its coils have pulled at once. -/
abbrev Relays := Switch → Option Connector

/-- The ticks for which a coil has to pull to move its relay. -/
def latchTicks : Nat := swDelay / portTickRateMs

namespace Relays

def wait (w : Wiring) (r : Relays) (x : Nat × Board) : Relays := fun s =>
  if x.2.fedTicks x.1 < latchTicks then r s
  else if x.2.Pulls w (s.coil .j1) then
    if x.2.Pulls w (s.coil .j2) then none else some .j1
  else if x.2.Pulls w (s.coil .j2) then some .j2
  else r s

/-- What the coils do to the relays while a program runs. -/
def during {α : Type} (w : Wiring) (r : Relays) (p : Program Board α) (b : Board) : Relays :=
  (p.waits Board.elapse b).foldl (wait w) r

/-- What a pulse for `j` of `s` does. Under a wrong polarity it throws the relay the other way, and
it pulls both coils of a switch that it does not name. -/
def select (w polarity : Wiring) (r : Relays) (s : Switch) (j : Connector) : Relays := fun t =>
  if t = s then some (if polarity s = w s then j else j.other)
  else if polarity t = w t then r t
  else none

theorem select_wired (w : Wiring) (r : Relays) (s : Switch) (j : Connector) :
    r.select w w s j = Function.update r s (some j) := by
  funext t
  simp [select, Function.update_apply]

variable {w : Wiring} (r : Relays)

theorem wait_still {x : Nat × Board} (h : ∀ c, ¬ x.2.Pulls w c) : r.wait w x = r := by
  funext s
  simp [wait, h]

theorem wait_off {n : Nat} {b : Board} (h : b.CoilsOff) : r.wait w (n, b) = r :=
  r.wait_still fun c => by simp [Board.Pulls, h.enable]

/-- No coil pulls without the supply. -/
theorem wait_down {n : Nat} {b : Board} (h : b.gpio .hvEnable = false) : r.wait w (n, b) = r :=
  r.wait_still fun c => by simp [Board.Pulls, h]

theorem foldl_off {xs : List (Nat × Board)} (h : ∀ x ∈ xs, x.2.CoilsOff) :
    xs.foldl (wait w) r = r := by
  induction xs generalizing r with
  | nil => rfl
  | cons x xs ih =>
    rw [List.foldl_cons, r.wait_off (h x List.mem_cons_self),
      ih r fun x' hx' => h x' (List.mem_cons_of_mem x hx')]

/-- One line that is active for long enough. -/
theorem wait_pulse {b : Board} (s : Switch) (j : Connector)
    (h : b.Lines (some (s.coil j)) true) (hup : b.gpio .hvEnable = true)
    (hfed : b.fedTicks latchTicks = latchTicks) :
    r.wait w (latchTicks, b) = r.select w b.polarity s j := by
  have hpulls (c : Coil) := h.pulls_iff (w := w) hup c
  funext t
  simp only [wait, select, hfed, hpulls, Nat.lt_irrefl, if_false, Option.some.injEq]
  cases s <;> cases t <;> cases j <;>
    simp [Switch.coil, Coil.switch, Connector.other] <;> split <;> simp_all

end Relays

/-! ### The select commands -/

def Selection.switch : Selection → Switch
  | s1 _ => .s1
  | s2 _ => .s2

def Selection.connector : Selection → Connector
  | s1 on | s2 on => if on ≠ 0 then .j1 else .j2

theorem Selection.coil_eq (d : Selection) : d.switch.coil d.connector = d.coil := by
  cases d with
  | s1 on =>
    simp only [switch, connector, coil, s1Coil]
    split <;> rfl
  | s2 on =>
    simp only [switch, connector, coil, s2Coil]
    split <;> rfl

theorem Selection.pulse_wait (d : Selection) {b : Board} (h : b.CoilsOff) :
    ∃ t, d.program.waits Board.elapse b = [(latchTicks, t)] ∧ t.Lines (some d.coil) true := by
  cases d with
  | s1 on =>
    rw [program, s1Drive_eq]
    refine ⟨_, rfl, ?_⟩
    have hother := (h.drive_enable true).lower (s1Coil on).other (Or.inl rfl)
    have hraised := hother.raise (s1Coil on)
    simp only [Board.level_other, level_s1Coil] at hraised
    exact hraised
  | s2 on =>
    rw [program, s2Drive_eq]
    refine ⟨_, rfl, ?_⟩
    have hother := h.lower (s2Coil on).other (Or.inl rfl)
    have hraised := hother.raise (s2Coil on)
    simp only [Board.level_other, level_s2Coil] at hraised
    exact hraised.drive_enable true

theorem Selection.acts_polarity (d : Selection) :
    Acts (fun b t : Board => t.polarity = b.polarity) d.program := by
  have hdrive (p : Pin) (v : Bool) (b : Board) : (b.drive p v).polarity = b.polarity :=
    Board.polarity_congr fun c => b.level_drive p v c
  exact acts_of (hdrive .swEnable) (fun c => hdrive c.pin) d

theorem Selection.acts_supply (d : Selection) :
    Acts (fun b t : Board => t.supply = b.supply) d.program :=
  acts_of (Board.supply_drive (by decide))
    (fun c => Board.supply_drive (by cases c <;> decide)) d

/-- What leaves the coils alone moves no relay. -/
theorem Relays.during_beside (w : Wiring) {lead : Program Board Unit}
    (hlead : Acts Board.SameCoils lead) {b : Board} (h : b.CoilsOff) (r : Relays) :
    r.during w lead b = r ∧ (lead.timed Board.elapse b).2.CoilsOff ∧
      (lead.timed Board.elapse b).2.polarity = b.polarity := by
  have hrefl (b : Board) : Board.SameCoils b b := rely_sameCoils.refl b
  have htrans {b t u : Board} (hbt : Board.SameCoils b t) (htu : Board.SameCoils t u) :
      Board.SameCoils b u := rely_sameCoils.trans (m := 0) (n := 0) hbt htu
  have hsame := hlead.timed hrefl htrans Board.sameCoils_elapse b
  refine ⟨?_, h.same hsame, Board.polarity_congr hsame.level⟩
  exact r.foldl_off fun x hx => h.same (hlead.waits hrefl htrans Board.sameCoils_elapse x hx)

/-- What is left of the supply after a select command. -/
def Supply.selected (s : Supply) : Supply := s.turnOn.elapse latchTicks

/-- What a select command does: it turns the supply on, and a pulse follows. -/
def Relays.command (w polarity : Wiring) (supply : Supply) (r : Relays) (s : Switch)
    (j : Connector) : Relays :=
  if supply.turnOn.up then r.select w polarity s j else r

/-- What comes before turns the supply on and leaves the coils alone; then the selection moves its
relay, if the supply is up. -/
theorem Selection.during (w : Wiring) (d : Selection) {lead : Program Board Unit}
    (hlead : Acts Board.SameCoils lead) {b : Board}
    (hsupply : (lead.timed Board.elapse b).2.supply = b.supply.turnOn) (h : b.CoilsOff)
    (r : Relays) :
    r.during w (lead >>= fun _ => d.program) b =
        r.command w b.polarity b.supply d.switch d.connector ∧
      ((lead >>= fun _ => d.program).timed Board.elapse b).2.CoilsOff ∧
      ((lead >>= fun _ => d.program).timed Board.elapse b).2.polarity = b.polarity ∧
      ((lead >>= fun _ => d.program).timed Board.elapse b).2.supply = b.supply.selected := by
  obtain ⟨hbeside, hoff, hpolarity⟩ := Relays.during_beside w hlead h r
  obtain ⟨t, hwaits, hlines⟩ := d.pulse_wait hoff
  obtain ⟨hend, hwait⟩ :=
    d.acts_polarity.keeps Board.polarity_elapse (lead.timed Board.elapse b).2
  have hpulse := hwait (latchTicks, t) (hwaits ▸ List.mem_singleton_self (latchTicks, t))
  have hfed : t.supply = b.supply.turnOn := by
    rw [← hsupply]
    exact d.acts_supply.first_wait (S := fun b t : Board => t.supply = b.supply) (fun _ => rfl)
      (fun hbt htu => htu.trans hbt) (x := (latchTicks, t)) (by rw [hwaits]; rfl)
  rw [← d.coil_eq] at hlines
  rw [Relays.during] at hbeside
  refine ⟨?_, ?_, ?_, ?_⟩
  · rw [Relays.during, waits_bind, List.foldl_append, hwaits, hbeside, List.foldl_cons,
      List.foldl_nil, Relays.command]
    have hup : t.gpio .hvEnable = b.supply.turnOn.up := congrArg Supply.up hfed
    split
    · next hturned =>
      have htimer : t.hvTimer = some (hvTimeout / portTickRateMs) := congrArg Supply.timer hfed
      have hticks : t.fedTicks latchTicks = latchTicks := by
        rw [Board.fedTicks, htimer]
        rfl
      rw [r.wait_pulse d.switch d.connector hlines (hup.trans hturned) hticks, hpulse, hpolarity]
    · next hturned => exact r.wait_down (hup.trans (Bool.eq_false_iff.mpr hturned))
  · rw [timed_bind]
    exact (d.drives hoff).timed Board.sameCoils_elapse
  · rw [timed_bind, hend, hpolarity]
  · rw [timed_bind, d.acts_supply.elapses Board.supply_elapse, hwaits, hsupply]
    rfl

theorem acts_showS1_supply (sel : UInt8) :
    Acts (fun b t : Board => t.supply = b.supply) (showS1 sel) := by
  unfold showS1
  split <;>
  · refine acts_bind (acts_modify (Board.supply_drive (by decide) _)) fun _ => ?_
    refine acts_bind (acts_modify (Board.supply_drive (by decide) _)) fun _ => ?_
    exact acts_modify (Board.supply_drive (by decide) _)

theorem timed_showS1 (sel : UInt8) (b : Board) :
    ((showS1 sel).timed Board.elapse b).2.supply = b.supply := by
  rw [(acts_showS1_supply sel).elapses Board.supply_elapse]
  unfold showS1
  split <;> rfl

/-- `CMD_SPDT` moves the relay of the switch that it names. -/
theorem during_spdtSet (w : Wiring) (swtch sel : UInt8) {b : Board} (h : b.CoilsOff) (r : Relays) :
    r.during w (spdtSet swtch sel) b =
        r.command w b.polarity b.supply (if swtch = sw1 then .s1 else .s2)
          (if sel = j1sel then .j1 else .j2) ∧
      ((spdtSet swtch sel).timed Board.elapse b).2.CoilsOff ∧
      ((spdtSet swtch sel).timed Board.elapse b).2.polarity = b.polarity ∧
      ((spdtSet swtch sel).timed Board.elapse b).2.supply = b.supply.selected := by
  let on : Int := if sel = j1sel then 1 else 0
  have hon : (if on ≠ 0 then Connector.j1 else .j2) = if sel = j1sel then .j1 else .j2 := by
    by_cases hsel : sel = j1sel <;> simp [on, hsel]
  have hswitched (b : Board) : ((hvOn 1).timed Board.elapse b).2.supply = b.supply.turnOn :=
    supply_hvOn 1 b
  unfold spdtSet
  by_cases hsw : swtch = sw1
  · have hlead : ((showS1 sel >>= fun _ => hvOn 1).timed Board.elapse b).2.supply =
        b.supply.turnOn := by
      rw [timed_bind, hswitched, timed_showS1]
    have hbody : (do showS1 sel; s1J1sel on) =
        (showS1 sel >>= fun _ => hvOn 1) >>= fun _ => (Selection.s1 on).program :=
      (Program.bind_assoc ..).symm
    rw [if_pos hsw, if_pos hsw, ← hon, hbody]
    exact (Selection.s1 on).during w
      (acts_bind (acts_showS1 sel) fun _ => acts_hvOn 1) hlead h r
  · have hbody : s2J1sel on = hvOn 1 >>= fun _ => (Selection.s2 on).program := rfl
    rw [if_neg hsw, if_neg hsw, ← hon, hbody]
    exact (Selection.s2 on).during w (acts_hvOn 1) (hswitched b) h r

end UsbSpdt
