import UsbSpdt.Firmware.Blinker

/-!
# The life of the blinkers

There is never more than one blinker, and between the calls of `id_blink` its handle says whether
there is one. But the loop of the task ends when it finds the flag clear, and behind the loop it
returns, which a task must not do: only a blinker that is not run again before it is deleted does
not get there.
-/

namespace UsbSpdt

def RequestPoint.waits : RequestPoint → Bool
  | .waiting _ => true
  | _ => false

namespace BlinkTasks

/-- What is asked of the life of the blinkers. -/
structure Sound (s : BlinkTasks) : Prop where
  single : s.blinkers.length ≤ 1
  handle : s.request = .outside → (s.xIDBlinkerTaskHandle ≠ none ↔ s.blinkers ≠ [])
  running : ∀ b ∈ s.blinkers, b.2 ≠ .returned

theorem Coherent.handles_length {s : BlinkTasks} (h : s.Coherent) : s.handles.length ≤ 1 := by
  unfold Coherent at h
  split at h
  case h_1 | h_2 =>
    rw [h.1, Option.length_toList]
    split
    case isTrue => exact Nat.le_refl 1
    case isFalse => exact Nat.zero_le 1
  case h_3 =>
    rw [h.2]
    exact Nat.zero_le 1
  case h_4 =>
    rw [h.2.1]
    exact Nat.zero_le 1
  case h_5 | h_6 =>
    obtain ⟨handle, -, hone, -⟩ := h
    rw [hone]
    exact Nat.le_refl 1
  case h_7 =>
    rw [h]
    exact Nat.zero_le 1

theorem Coherent.sound {s : BlinkTasks} (h : s.Coherent)
    (hrunning : ∀ b ∈ s.blinkers, b.2 ≠ .returned) : s.Sound := by
  refine ⟨?_, fun hr => ?_, hrunning⟩
  · have hlength := h.handles_length
    rw [handles, List.length_map] at hlength
    exact hlength
  · unfold Coherent at h
    rw [hr] at h
    have hempty : s.blinkers ≠ [] ↔ s.handles ≠ [] := not_congr List.map_eq_nil_iff.symm
    rw [hempty, h.1]
    cases s.xIDBlinkerTaskHandle with
    | none => exact iff_of_false (fun hne => hne rfl) (fun hne => hne rfl)
    | some handle => exact iff_of_true (Option.some_ne_none handle) (List.cons_ne_nil handle [])

theorem vIDBlinkerTask_returned_iff {idBlinkOn : UInt8} {p : BlinkerPoint} :
    vIDBlinkerTask idBlinkOn p = some .returned ↔ p = .loopTest ∧ idBlinkOn = 0 := by
  cases p with
  | loopTest =>
    by_cases hflag : idBlinkOn = 0
    · simp [vIDBlinkerTask, hflag]
    · simp [vIDBlinkerTask, hflag]
  | dark ticks | lit ticks =>
    cases ticks with
    | zero => simp [vIDBlinkerTask]
    | succ ticks => simp [vIDBlinkerTask]
  | redOff | redOn | returned => simp [vIDBlinkerTask]

theorem mem_of_lookup {s : BlinkTasks} {handle : Nat} {p : BlinkerPoint}
    (h : s.blinkers.lookup handle = some p) : (handle, p) ∈ s.blinkers := by
  obtain ⟨before, after, heq, -⟩ := List.lookup_eq_some_iff.mp h
  rw [heq]
  exact List.mem_append_right before List.mem_cons_self

theorem mem_moveBlinker {s : BlinkTasks} {handle : Nat} {p p' : BlinkerPoint}
    (h : s.blinkers.lookup handle = some p) : (handle, p') ∈ (s.moveBlinker handle p').blinkers :=
  List.mem_map.mpr ⟨(handle, p), mem_of_lookup h, if_pos rfl⟩

/-- The flag is clear while a stop waits for its task. -/
theorem Coherent.flag_iff {s : BlinkTasks} (h : s.Coherent) (hne : s.blinkers ≠ []) :
    s.idBlinkOn = 0 ↔ s.request.waits = true := by
  have hhandles : s.handles ≠ [] := fun hnil => hne (List.map_eq_nil_iff.mp hnil)
  unfold Coherent at h
  generalize s.request = point at h ⊢
  cases point with
  | outside | entered on => exact iff_of_false (h.2 hhandles) Bool.false_ne_true
  | starting => exact absurd h.2 hhandles
  | creating => exact absurd h.2.1 hhandles
  | stopping =>
    obtain ⟨handle, -, -, hflag⟩ := h
    exact iff_of_false hflag Bool.false_ne_true
  | waiting ticks =>
    obtain ⟨handle, -, -, hflag⟩ := h
    exact iff_of_true hflag rfl
  | clearing => exact absurd h hhandles

/-- While a stop waits for its task, the scheduler does not run the task at its loop test. -/
def StopUnseen (s : BlinkTasks) : Event → Prop
  | .blinker handle =>
    s.blinkers.lookup handle = some .loopTest → s.request.waits = false
  | _ => True

instance (s : BlinkTasks) : (e : Event) → Decidable (s.StopUnseen e)
  | .idBlink _ | .instrument | .xTaskCreate _ | .tick => inferInstanceAs (Decidable True)
  | .blinker handle => inferInstanceAs (Decidable
      (s.blinkers.lookup handle = some .loopTest → s.request.waits = false))

theorem running_step {s s' : BlinkTasks} {e : Event} (h : s.Coherent)
    (hrunning : ∀ b ∈ s.blinkers, b.2 ≠ .returned) (hunseen : s.StopUnseen e)
    (hs : s.step e = some s') : ∀ b ∈ s'.blinkers, b.2 ≠ .returned := by
  cases e with
  | idBlink on =>
    obtain ⟨-, rfl⟩ := step_idBlink hs
    exact hrunning
  | instrument =>
    cases step_instrument hs with
    | delete hr hsome => exact fun b hb => hrunning b (List.mem_filter.mp hb).1
    | _ => exact hrunning
  | xTaskCreate created =>
    obtain ⟨-, rfl | ⟨handle, rfl⟩⟩ := step_xTaskCreate hs
    · exact hrunning
    · intro b hb
      rcases List.mem_append.mp hb with hb | hb
      · exact hrunning b hb
      · rw [List.mem_singleton.mp hb]
        exact nofun
  | blinker handle =>
    obtain ⟨p, p', hp, hp', rfl⟩ := step_blinker hs
    intro b hb
    obtain ⟨c, hc, rfl⟩ := List.mem_map.mp hb
    split
    case isFalse => exact hrunning c hc
    case isTrue =>
      rintro rfl
      obtain ⟨rfl, hflag⟩ := vIDBlinkerTask_returned_iff.mp hp'
      have hwaits := (h.flag_iff (List.ne_nil_of_mem hc)).mp hflag
      rw [hunseen hp] at hwaits
      cases hwaits
  | tick =>
    cases hs
    intro b hb
    obtain ⟨c, hc, rfl⟩ := List.mem_map.mp hb
    dsimp only
    cases hpoint : c.2 with
    | returned => exact absurd hpoint (hrunning c hc)
    | _ => exact nofun

/-- A blinker that comes to its loop test in time finds the flag clear, and returns. -/
theorem returned_of_seen {s s' : BlinkTasks} {e : Event} (h : s.Coherent)
    (hseen : ¬ s.StopUnseen e) (hs : s.step e = some s') : ∃ b ∈ s'.blinkers, b.2 = .returned := by
  cases e with
  | blinker handle =>
    obtain ⟨p, p', hp, hp', rfl⟩ := step_blinker hs
    rw [StopUnseen, Classical.not_imp, Bool.not_eq_false] at hseen
    obtain ⟨htest, hwaits⟩ := hseen
    obtain rfl : p = .loopTest := Option.some.inj (hp.symm.trans htest)
    have hflag := (h.flag_iff (List.ne_nil_of_mem (mem_of_lookup hp))).mpr hwaits
    have hreturned := vIDBlinkerTask_returned_iff.mpr ⟨rfl, hflag⟩
    obtain rfl : p' = .returned := Option.some.inj (hp'.symm.trans hreturned)
    exact ⟨_, mem_moveBlinker hp, rfl⟩
  | _ => exact absurd trivial hseen

theorem coherent_run {es : List Event} {s : BlinkTasks} (hr : Events.run step start es = some s) :
    s.Coherent :=
  Events.invariant coherent_step start_coherent hr

theorem sound_of_unseen {es : List Event} {s : BlinkTasks}
    (hg : Events.Guarded step StopUnseen start es) (hr : Events.run step start es = some s) :
    s.Sound := by
  have hstep (s : BlinkTasks) (e : Event) (s' : BlinkTasks)
      (h : s.Coherent ∧ ∀ b ∈ s.blinkers, b.2 ≠ .returned) (he : s.StopUnseen e)
      (hs : s.step e = some s') : s'.Coherent ∧ ∀ b ∈ s'.blinkers, b.2 ≠ .returned :=
    ⟨coherent_step s e s' h.1 hs, running_step h.1 h.2 he hs⟩
  have hstart : start.Coherent ∧ ∀ b ∈ start.blinkers, b.2 ≠ .returned :=
    ⟨start_coherent, fun b hb => absurd hb List.not_mem_nil⟩
  obtain ⟨hcoherent, hrunning⟩ := Events.guarded_invariant hstep hstart hg hr
  exact hcoherent.sound hrunning

/-- All states of a run are sound exactly when no blinker is run at its loop test between the stop
that clears the flag and the deletion. -/
theorem blinker_life_cycle_iff {es : List Event} {s : BlinkTasks}
    (hr : Events.run step start es = some s) :
    (∀ done rest t, es = done ++ rest → Events.run step start done = some t → t.Sound) ↔
      Events.Guarded step StopUnseen start es := by
  constructor
  · intro hsound
    rw [Events.guarded_iff]
    intro done e rest t heq ht
    -- The run goes on with `e`, and the state behind it is sound.
    rw [heq, Events.run_append, ht, Option.bind_some] at hr
    obtain ⟨t', hs, -⟩ := Events.run_cons_some hr
    have ht' : Events.run step start (done ++ [e]) = some t' := by
      rw [Events.run_append, ht, Option.bind_some, Events.run_cons, hs]
      rfl
    have hsplit : es = (done ++ [e]) ++ rest := by
      rw [heq, List.append_assoc, List.singleton_append]
    by_contra hseen
    obtain ⟨b, hb, hreturned⟩ := returned_of_seen (coherent_run ht) hseen hs
    exact (hsound (done ++ [e]) rest t' hsplit ht').running b hb hreturned
  · rintro hg done rest t rfl ht
    exact sound_of_unseen hg.of_append ht

/-- A blinker is created and then told to stop in its first dark phase. -/
def stopInDark : List Event :=
  [.idBlink 1, .instrument, .instrument, .xTaskCreate (some 1), .blinker 1, .blinker 1,
    .idBlink 0, .instrument, .instrument]

/-- It is not run again before it is deleted. -/
theorem blinker_starved :
    Events.run step start (stopInDark ++ List.replicate 50 .tick ++ [.instrument, .instrument]) =
        some start ∧
      Sound ⟨0, some 1, .waiting 0, [(1, .dark 0)]⟩ := by
  have hrun : Events.run step start
      (stopInDark ++ List.replicate 50 .tick ++ [.instrument, .instrument]) = some start := rfl
  have hcheck (s : BlinkTasks) (e : Event) (h : decide (s.StopUnseen e) = true) : s.StopUnseen e :=
    of_decide_eq_true h
  have hunseen : Events.Guarded step StopUnseen start
      (stopInDark ++ List.replicate 50 .tick ++ [.instrument, .instrument]) :=
    Events.guarded_of_holdsAlong hcheck rfl
  exact ⟨hrun, (blinker_life_cycle_iff hrun).mpr hunseen _ _ _ rfl rfl⟩

/-- It goes on when its delays are over, and returns 40 ms before it would be deleted. -/
theorem blinker_returns :
    ¬ ∀ es s, Events.run step start es = some s → s.Sound := by
  intro h
  have hsound := h (stopInDark ++ List.replicate 15 .tick ++ [.blinker 1, .blinker 1] ++
    List.replicate 15 .tick ++ [.blinker 1, .blinker 1]) _ rfl
  exact hsound.running (1, .returned) List.mem_cons_self rfl

end BlinkTasks

/-! ### A scheduler in time -/

/-- The task is blocked, or it is over. -/
def BlinkerPoint.blocked : BlinkerPoint → Bool
  | .dark (_ + 1) | .lit (_ + 1) | .returned => true
  | _ => false

/-- The ticks until the task is back at its loop test, if it is not kept waiting. -/
def BlinkerPoint.toTest : BlinkerPoint → Nat
  | .redOff => 30 / portTickRateMs + 30 / portTickRateMs
  | .dark ticks => ticks + 30 / portTickRateMs
  | .redOn => 30 / portTickRateMs
  | .lit ticks => ticks
  | .loopTest | .returned => 0

def RequestPoint.blocked : RequestPoint → Bool
  | .outside | .waiting (_ + 1) => true
  | _ => false

namespace BlinkTasks

/-- No tick passes while a task could go on. -/
def Punctual (s : BlinkTasks) : Event → Prop
  | .tick => s.request.blocked = true ∧ ∀ b ∈ s.blinkers, b.2.blocked = true
  | _ => True

/-- Every blinker is back at its test within 30 ticks, and 20 ticks before a stop deletes it, unless
it has returned. -/
structure InTime (s : BlinkTasks) : Prop where
  round : ∀ b ∈ s.blinkers, b.2.toTest ≤ 30
  stop : ∀ ticks, s.request = .waiting ticks →
    ∀ b ∈ s.blinkers, b.2 = .returned ∨ b.2.toTest + 20 ≤ ticks

theorem start_inTime : start.InTime :=
  ⟨fun _ hb => absurd hb List.not_mem_nil, fun _ _ _ hb => absurd hb List.not_mem_nil⟩

/-- Only the test itself takes a blinker away from its test, and with a clear flag it returns. -/
theorem toTest_of_next {idBlinkOn : UInt8} {p p' : BlinkerPoint}
    (h : vIDBlinkerTask idBlinkOn p = some p') :
    p'.toTest ≤ 30 ∧ (idBlinkOn = 0 → p' = .returned ∨ p'.toTest ≤ p.toTest) := by
  cases p with
  | loopTest =>
    cases h
    by_cases hflag : idBlinkOn = 0
    · simp [hflag, BlinkerPoint.toTest]
    · simp [hflag, BlinkerPoint.toTest, portTickRateMs, configTickRateHz]
  | redOff | redOn =>
    cases h
    exact ⟨by decide, fun _ => Or.inr (by decide)⟩
  | dark ticks | lit ticks =>
    cases ticks with
    | zero =>
      cases h
      exact ⟨by decide, fun _ => Or.inr (by decide)⟩
    | succ ticks => cases h
  | returned => cases h

theorem toTest_elapse {p : BlinkerPoint} (h : p.blocked = true) :
    p = .returned ∨ p.elapse.toTest + 1 = p.toTest := by
  cases p with
  | dark ticks =>
    cases ticks with
    | zero => cases h
    | succ ticks => exact Or.inr (Nat.add_right_comm ..)
  | lit ticks =>
    cases ticks with
    | zero => cases h
    | succ ticks => exact Or.inr rfl
  | returned => exact Or.inl rfl
  | _ => cases h

theorem InTime.statement {s s' : BlinkTasks} (h : s.InTime) (hs : Statement s s') : s'.InTime := by
  cases hs with
  | clear hr =>
    refine ⟨h.round, fun ticks hticks b hb => Or.inr ?_⟩
    cases hticks
    exact Nat.add_le_add_right (h.round b hb) 20
  | delete hr hsome => exact ⟨fun b hb => h.round b (List.mem_filter.mp hb).1, nofun⟩
  | _ => exact ⟨h.round, nofun⟩

theorem InTime.blinker {s : BlinkTasks} {handle : Nat} {p p' : BlinkerPoint} (h : s.InTime)
    (hcoherent : s.Coherent) (hp : s.blinkers.lookup handle = some p)
    (hp' : vIDBlinkerTask s.idBlinkOn p = some p') : (s.moveBlinker handle p').InTime := by
  obtain ⟨hround, hnearer⟩ := toTest_of_next hp'
  have hmem := mem_of_lookup hp
  constructor
  · intro b hb
    obtain ⟨c, hc, rfl⟩ := List.mem_map.mp hb
    split
    case isTrue => exact hround
    case isFalse => exact h.round c hc
  · intro ticks hticks b hb
    obtain ⟨c, hc, rfl⟩ := List.mem_map.mp hb
    split
    case isFalse => exact h.stop ticks hticks c hc
    case isTrue =>
      have hwaits : s.request.waits = true := by
        rw [show s.request = .waiting ticks from hticks]
        rfl
      have hflag := (hcoherent.flag_iff (List.ne_nil_of_mem hmem)).mpr hwaits
      rcases hnearer hflag with hreturned | hle
      · exact Or.inl hreturned
      · rcases h.stop ticks hticks _ hmem with hover | hstop
        · rw [show p = .returned from hover] at hp'
          cases hp'
        · exact Or.inr (Nat.le_trans (Nat.add_le_add_right hle 20) hstop)

theorem waiting_of_elapse {p : RequestPoint} {ticks : Nat} (hblocked : p.blocked = true)
    (h : p.elapse = .waiting ticks) : p = .waiting (ticks + 1) := by
  cases p with
  | waiting m =>
    cases m with
    | zero => cases hblocked
    | succ m =>
      cases h
      rfl
  | _ => cases h

theorem InTime.tick {s s' : BlinkTasks} (h : s.InTime) (hpunctual : s.Punctual .tick)
    (hs : s.step .tick = some s') : s'.InTime := by
  cases hs
  have hblinker (b : Nat × BlinkerPoint) (hb : b ∈ s.blinkers) :
      b.2 = .returned ∨ b.2.elapse.toTest + 1 = b.2.toTest :=
    toTest_elapse (hpunctual.2 b hb)
  constructor
  · intro b hb
    obtain ⟨c, hc, rfl⟩ := List.mem_map.mp hb
    have hround := h.round c hc
    dsimp only
    rcases hblinker c hc with hreturned | hnearer
    · rw [hreturned]
      exact Nat.zero_le 30
    · omega
  · intro ticks hticks b hb
    obtain ⟨c, hc, rfl⟩ := List.mem_map.mp hb
    have hrequest := waiting_of_elapse hpunctual.1 hticks
    dsimp only
    rcases hblinker c hc with hreturned | hnearer
    · rw [hreturned]
      exact Or.inl rfl
    · rcases h.stop _ hrequest c hc with hreturned | hstop
      · rw [hreturned]
        exact Or.inl rfl
      · exact Or.inr (by omega)

theorem inTime_step {s s' : BlinkTasks} {e : Event} (h : s.InTime) (hcoherent : s.Coherent)
    (hpunctual : s.Punctual e) (hs : s.step e = some s') : s'.InTime := by
  cases e with
  | idBlink on =>
    obtain ⟨-, rfl⟩ := step_idBlink hs
    exact ⟨h.round, nofun⟩
  | instrument => exact h.statement (step_instrument hs)
  | xTaskCreate created =>
    obtain ⟨-, rfl | ⟨handle, rfl⟩⟩ := step_xTaskCreate hs
    · exact ⟨h.round, nofun⟩
    · refine ⟨fun b hb => ?_, nofun⟩
      rcases List.mem_append.mp hb with hb | hb
      · exact h.round b hb
      · rw [List.mem_singleton.mp hb]
        exact Nat.zero_le 30
  | blinker handle =>
    obtain ⟨p, p', hp, hp', rfl⟩ := step_blinker hs
    exact h.blinker hcoherent hp hp'
  | tick => exact h.tick hpunctual hs

/-- When tasks that can go on do so before the next tick, every stop finds that its task has
returned. -/
theorem punctual_stop_returns {es : List Event} {s : BlinkTasks}
    (hg : Events.Guarded step Punctual start es) (hr : Events.run step start es = some s)
    (hstop : s.request = .waiting 0) : ∃ handle, s.blinkers = [(handle, .returned)] := by
  have hstep (s : BlinkTasks) (e : Event) (s' : BlinkTasks) (h : s.Coherent ∧ s.InTime)
      (he : s.Punctual e) (hs : s.step e = some s') : s'.Coherent ∧ s'.InTime :=
    ⟨coherent_step s e s' h.1 hs, inTime_step h.2 h.1 he hs⟩
  obtain ⟨hcoherent, htime⟩ :=
    Events.guarded_invariant hstep ⟨start_coherent, start_inTime⟩ hg hr
  unfold Coherent at hcoherent
  rw [hstop] at hcoherent
  obtain ⟨handle, -, hone, -⟩ := hcoherent
  obtain ⟨b, hb, rfl⟩ := List.map_eq_singleton_iff.mp hone
  have hmem : b ∈ s.blinkers := by
    rw [hb]
    exact List.mem_cons_self
  rcases htime.stop 0 hstop b hmem with hreturned | hlate
  · refine ⟨b.1, ?_⟩
    rw [hb, ← hreturned]
  · omega

end BlinkTasks

end UsbSpdt
