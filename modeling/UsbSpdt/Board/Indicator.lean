import UsbSpdt.Board.Interleaved

/-!
# The indicator of S1

The LEDs D4, D5 and D6 beside the switch are driven by `spdt_set`, which the instrument task calls.
The commands of the debug shell call `s1_j1sel` itself, so they move the switch and not the LEDs.
-/

namespace UsbSpdt

open Program

namespace Board

/-- D4 on and D6 off for J1, the other way round for J2. -/
structure Indicates (b : Board) (on : Int) : Prop where
  d4 : b.gpio .d4 = decide (on ≠ 0)
  d6 : b.gpio .d6 = decide (on = 0)

instance (b : Board) (on : Int) : Decidable (b.Indicates on) :=
  decidable_of_iff (b.gpio .d4 = decide (on ≠ 0) ∧ b.gpio .d6 = decide (on = 0))
    ⟨fun h => ⟨h.1, h.2⟩, fun h => ⟨h.d4, h.d6⟩⟩

/-- What happens to the board leaves the two LEDs as they are. -/
structure SameLeds (b t : Board) : Prop where
  d4 : t.gpio .d4 = b.gpio .d4
  d6 : t.gpio .d6 = b.gpio .d6

theorem SameLeds.refl (b : Board) : SameLeds b b := ⟨rfl, rfl⟩

theorem SameLeds.trans {b t u : Board} (h : SameLeds b t) (k : SameLeds t u) : SameLeds b u :=
  ⟨k.d4.trans h.d4, k.d6.trans h.d6⟩

theorem SameLeds.indicates_iff {b t : Board} (h : SameLeds b t) (on : Int) :
    t.Indicates on ↔ b.Indicates on := by
  constructor
  · exact fun ht => ⟨h.d4.symm.trans ht.d4, h.d6.symm.trans ht.d6⟩
  · exact fun hb => ⟨h.d4.trans hb.d4, h.d6.trans hb.d6⟩

theorem sameLeds_drive (b : Board) {p : Pin} (v : Bool) (h4 : p ≠ .d4) (h6 : p ≠ .d6) :
    SameLeds b (b.drive p v) :=
  ⟨b.drive_gpio_ne v h4.symm, b.drive_gpio_ne v h6.symm⟩

end Board

theorem acts_drive_sameLeds {p : Pin} {v : Bool} (h4 : p ≠ .d4) (h6 : p ≠ .d6) :
    Acts Board.SameLeds (Program.modify (·.drive p v)) :=
  acts_modify fun b => b.sameLeds_drive v h4 h6

theorem acts_coil_sameLeds (c : Coil) (v : Bool) :
    Acts Board.SameLeds (Program.modify (·.drive c.pin v)) := by
  cases c <;> exact acts_drive_sameLeds nofun nofun

/-- Neither switch routine touches the LEDs. -/
theorem Selection.acts_sameLeds (d : Selection) : Acts Board.SameLeds d.program := by
  have hcoil (c : Coil) (v : Bool) := (acts_coil_sameLeds c v).1
  have henable (v : Bool) :=
    (acts_drive_sameLeds (p := .swEnable) (v := v) nofun nofun).1
  cases d with
  | s1 on =>
    rw [program, s1Drive_eq]
    exact ⟨henable true, fun b => ⟨hcoil _ _, hcoil _ _, hcoil _ _, henable false, trivial⟩⟩
  | s2 on =>
    rw [program, s2Drive_eq]
    exact fun b => ⟨hcoil _ _, hcoil _ _, henable true, hcoil _ _, henable false, trivial⟩

theorem acts_hvOn_sameLeds (on : Int) : Acts Board.SameLeds (hvOn on) :=
  acts_hvOn_of (fun hg _ _ => ⟨congrFun hg _, congrFun hg _⟩)
    (fun b v => b.sameLeds_drive v nofun nofun) on

theorem sameLeds_select (d : Selection) (b : Board) :
    Board.SameLeds b ((hvOn 1 >>= fun _ => d.program).run b).2 :=
  (acts_bind (acts_hvOn_sameLeds 1) fun _ => d.acts_sameLeds).run Board.SameLeds.refl
    Board.SameLeds.trans b

theorem switchArg_values {argv : List (List UInt8)} {on : Int} (h : switchArg argv = some on) :
    on = 0 ∨ on = 1 := by
  unfold switchArg at h
  split at h
  · dsimp only at h
    split at h
    · exact Or.inr (Option.some.inj h).symm
    · split at h
      · exact Or.inl (Option.some.inj h).symm
      · cases h
  · cases h

namespace SwitchRequest

/-- Which connector the request selects for S1, if it is about S1: 1 for J1 (A), 0 for J2 (B). -/
def s1Choice (o : SwitchRequest) : Option Int :=
  match o.selection with
  | some (.s1 on) => some on
  | _ => none

/-- The same for the requests that come over USB. -/
def usbChoice : SwitchRequest → Option Int
  | .spdt swtch sel => if swtch = UsbSpdt.sw1 then some (if sel = j1sel then 1 else 0) else none
  | _ => none

/-- What the request does to the LEDs: over USB those of S1 show its choice, otherwise nothing. -/
def Leds (o : SwitchRequest) (b t : Board) : Prop :=
  match o.usbChoice with
  | some on => t.Indicates on
  | none => b.SameLeds t

theorem s1Choice_eq_of_usb {o : SwitchRequest} {on : Int} (h : o.usbChoice = some on) :
    o.s1Choice = some on := by
  cases o with
  | spdt swtch sel =>
    simp only [usbChoice] at h
    split at h
    case isTrue hs1 => simpa only [s1Choice, selection, hs1, if_true] using h
    case isFalse => cases h
  | sw1 argv => cases h
  | sw2 argv => cases h

theorem s1Choice_values {o : SwitchRequest} {on : Int} (h : o.s1Choice = some on) :
    on = 0 ∨ on = 1 := by
  cases o with
  | spdt swtch sel =>
    simp only [s1Choice, selection] at h
    split at h
    case h_1 on' hon =>
      obtain rfl : on' = on := Option.some.inj h
      split at hon
      · obtain rfl := Selection.s1.inj (Option.some.inj hon)
        split
        · exact Or.inr rfl
        · exact Or.inl rfl
      · cases hon
    case h_2 => cases h
  | sw1 argv =>
    simp only [s1Choice, selection] at h
    cases harg : switchArg argv with
    | none =>
      rw [harg] at h
      cases h
    | some on' =>
      rw [harg] at h
      obtain rfl : on' = on := Option.some.inj h
      exact switchArg_values harg
  | sw2 argv =>
    simp only [s1Choice, selection] at h
    cases harg : switchArg argv with
    | none =>
      rw [harg] at h
      cases h
    | some on' =>
      rw [harg] at h
      cases h

end SwitchRequest

theorem showS1_indicates (sel : UInt8) (b : Board) :
    ((showS1 sel).run b).2.Indicates (if sel = j1sel then 1 else 0) := by
  by_cases hsel : sel = j1sel
  · rw [showS1, if_pos hsel, if_pos hsel]
    exact ⟨rfl, rfl⟩
  · rw [showS1, if_neg hsel, if_neg hsel]
    exact ⟨rfl, rfl⟩

theorem SwitchRequest.leds (o : SwitchRequest) (b : Board) : o.Leds b (o.body.run b).2 := by
  cases o with
  | spdt swtch sel =>
    simp only [Leds, usbChoice, body, spdtSet]
    by_cases hs1 : swtch = UsbSpdt.sw1
    · simp only [hs1, if_true, Program.run_bind]
      have hsame := sameLeds_select (.s1 (if sel = j1sel then 1 else 0)) ((showS1 sel).run b).2
      exact (hsame.indicates_iff _).mpr (showS1_indicates sel b)
    · simp only [hs1, if_false]
      exact sameLeds_select (.s2 _) b
  | sw1 argv =>
    simp only [Leds, usbChoice, body, cmdSw1]
    cases switchArg argv with
    | some on => exact sameLeds_select (.s1 on) b
    | none => exact Board.SameLeds.refl b
  | sw2 argv =>
    simp only [Leds, usbChoice, body, cmdSw2]
    cases switchArg argv with
    | some on => exact sameLeds_select (.s2 on) b
    | none => exact Board.SameLeds.refl b

/-! ### Sequences of requests -/

/-- The board after the requests, executed one after another. -/
def Board.afterRequests (b : Board) (os : List SwitchRequest) : Board :=
  os.foldl (fun b o => (o.body.run b).2) b

/-- What the last command for S1 of either kind selected, and the last over USB. -/
def lastS1 (os : List SwitchRequest) : Option Int := (os.filterMap SwitchRequest.s1Choice).getLast?

def lastUsb (os : List SwitchRequest) : Option Int :=
  (os.filterMap SwitchRequest.usbChoice).getLast?

theorem getLast?_filterMap_concat {α β : Type} (f : α → Option β) (l : List α) (a : α) :
    ((l ++ [a]).filterMap f).getLast? = (f a).or (l.filterMap f).getLast? := by
  rw [List.filterMap_append, List.getLast?_append]
  cases hf : f a with
  | none => simp only [List.filterMap_cons, hf, List.filterMap_nil, List.getLast?_nil]
  | some b => simp only [List.filterMap_cons, hf, List.filterMap_nil, List.getLast?_singleton]

/-- The LEDs show the last choice that came over USB, and until there is one what they showed. -/
theorem afterRequests_leds (b : Board) (os : List SwitchRequest) :
    match lastUsb os with
    | some on => (b.afterRequests os).Indicates on
    | none => b.SameLeds (b.afterRequests os) := by
  induction os using List.reverseRecOn with
  | nil => exact Board.SameLeds.refl b
  | append_singleton os o ih =>
    have hleds := o.leds (b.afterRequests os)
    have hafter : b.afterRequests (os ++ [o]) = (o.body.run (b.afterRequests os)).2 := by
      simp only [Board.afterRequests, List.foldl_append, List.foldl_cons, List.foldl_nil]
    have hlast : lastUsb (os ++ [o]) = o.usbChoice.or (lastUsb os) :=
      getLast?_filterMap_concat SwitchRequest.usbChoice os o
    unfold SwitchRequest.Leds at hleds
    rw [hafter, hlast]
    cases hchoice : o.usbChoice with
    | some on =>
      rw [hchoice] at hleds
      exact hleds
    | none =>
      rw [hchoice] at hleds
      rw [Option.none_or]
      cases hprev : lastUsb os with
      | some on =>
        rw [hprev] at ih
        exact (hleds.indicates_iff on).mpr ih
      | none =>
        rw [hprev] at ih
        exact ih.trans hleds

theorem indicates_eq {b : Board} {on on' : Int} (h : b.Indicates on) (h' : b.Indicates on')
    (hon : on = 0 ∨ on = 1) (hon' : on' = 0 ∨ on' = 1) : on = on' := by
  have hdecide := h.d6.symm.trans h'.d6
  rw [decide_eq_decide] at hdecide
  omega

theorem lastS1_values {os : List SwitchRequest} {on : Int} (h : lastS1 os = some on) :
    on = 0 ∨ on = 1 := by
  obtain ⟨o, -, ho⟩ := List.mem_filterMap.mp (List.mem_of_getLast? h)
  exact SwitchRequest.s1Choice_values ho

theorem lastUsb_values {os : List SwitchRequest} {on : Int} (h : lastUsb os = some on) :
    on = 0 ∨ on = 1 := by
  obtain ⟨o, -, ho⟩ := List.mem_filterMap.mp (List.mem_of_getLast? h)
  exact SwitchRequest.s1Choice_values (SwitchRequest.s1Choice_eq_of_usb ho)

/-- The indicator agrees with the last command for S1 exactly when the last one over USB selected
the same; if none came over USB, when it happened to show that choice before. -/
theorem indicator_follows_iff (b : Board) (os : List SwitchRequest) {on : Int}
    (h : lastS1 os = some on) :
    (b.afterRequests os).Indicates on ↔
      match lastUsb os with
      | some usb => usb = on
      | none => b.Indicates on := by
  have hleds := afterRequests_leds b os
  have hon := lastS1_values h
  cases husb : lastUsb os with
  | some usb =>
    rw [husb] at hleds
    constructor
    · exact fun hi => indicates_eq hleds hi (lastUsb_values husb) hon
    · rintro rfl
      exact hleds
  | none =>
    rw [husb] at hleds
    exact hleds.indicates_iff on

theorem indicator_follows_usb : (Board.powerUp.afterRequests
    [.spdt 0 0, .sw1 [[0x73, 0x31], [0x42]], .spdt 0 1, .sw2 [[0x73, 0x32], [0x41]]]).Indicates 0 :=
  (@indicator_follows_iff Board.powerUp _ 0 rfl).mpr rfl

/-- S1 is selected over USB and then moved to J2 by the shell: D4 stays on. -/
theorem indicator_stale_after_shell :
    lastS1 [.spdt 0 0, .sw1 [[0x73, 0x31], [0x42]]] = some 0 ∧
      ¬ (Board.powerUp.afterRequests [.spdt 0 0, .sw1 [[0x73, 0x31], [0x42]]]).Indicates 0 := by
  decide

end UsbSpdt
