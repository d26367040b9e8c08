import UsbSpdt.Firmware.InstrTask
import UsbSpdt.Library.Events

/-!
# The blinker task

`id_blink` gives the red LED a task of its own and takes it away again. A stop clears the flag at
which the task looks every 60 ms, waits for 100 ms and deletes the task. The instrument task and the
blinkers take their statements in any order; time passes in ticks, and a task that is blocked goes
on when its time is over, or later.
-/

namespace UsbSpdt

/-- Where a blinker stands in `vIDBlinkerTask`, with the ticks that a delay still has to go. -/
inductive BlinkerPoint where
  | loopTest
  | redOff
  | dark (ticks : Nat)
  | redOn
  | lit (ticks : Nat)
  | returned
  deriving DecidableEq

/-- The next statement of `vIDBlinkerTask`. What the kernel does behind the `return` is left open:
the task stays there. -/
def vIDBlinkerTask (idBlinkOn : UInt8) : BlinkerPoint → Option BlinkerPoint
  | .loopTest => some (if idBlinkOn ≠ 0 then .redOff else .returned)
  | .redOff => some (.dark (30 / portTickRateMs))
  | .dark 0 => some .redOn
  | .dark (_ + 1) => none
  | .redOn => some (.lit (30 / portTickRateMs))
  | .lit 0 => some .loopTest
  | .lit (_ + 1) => none
  | .returned => none

def BlinkerPoint.elapse : BlinkerPoint → BlinkerPoint
  | .dark ticks => .dark (ticks - 1)
  | .lit ticks => .lit (ticks - 1)
  | p => p

/-- Where the instrument task stands in `id_blink`, by its next statement. -/
inductive RequestPoint where
  | outside
  | entered (on : UInt8)
  | starting
  | creating
  | stopping
  | waiting (ticks : Nat)
  | clearing
  deriving DecidableEq

def RequestPoint.elapse : RequestPoint → RequestPoint
  | .waiting ticks => .waiting (ticks - 1)
  | p => p

structure BlinkTasks where
  idBlinkOn : UInt8
  xIDBlinkerTaskHandle : Option Nat
  request : RequestPoint
  /-- The blinkers that exist, by their handles. -/
  blinkers : List (Nat × BlinkerPoint)

namespace BlinkTasks

def start : BlinkTasks := ⟨0, none, .outside, []⟩

inductive Event where
  /-- The dispatcher calls `id_blink`. -/
  | idBlink (on : UInt8)
  /-- The next statement of `id_blink` other than `xTaskCreate`. -/
  | instrument
  /-- `xTaskCreate`, with the handle of the new task if there is memory for one. -/
  | xTaskCreate (created : Option Nat)
  /-- The next statement of a blinker. -/
  | blinker (handle : Nat)
  | tick

def vTaskDelete (s : BlinkTasks) (handle : Nat) : BlinkTasks :=
  { s with blinkers := s.blinkers.filter fun b => b.1 ≠ handle }

/-- The statements of `id_blink`. -/
def idBlinkStatement (s : BlinkTasks) : Option BlinkTasks :=
  match s.request with
  | .outside | .creating => none
  | .entered on =>
    if on ≠ 0 then
      some { s with request := if s.xIDBlinkerTaskHandle ≠ none then .outside else .starting }
    else
      some { s with request := if s.xIDBlinkerTaskHandle ≠ none then .stopping else .outside }
  | .starting => some { s with idBlinkOn := 1, request := .creating }
  | .stopping => some { s with idBlinkOn := 0, request := .waiting (100 / portTickRateMs) }
  | .waiting 0 =>
    s.xIDBlinkerTaskHandle.map fun handle => { s.vTaskDelete handle with request := .clearing }
  | .waiting (_ + 1) => none
  | .clearing => some { s with xIDBlinkerTaskHandle := none, request := .outside }

/-- A new task has a handle that no other has. -/
def create (s : BlinkTasks) : Option Nat → Option BlinkTasks
  | none => some { s with request := .outside }
  | some handle =>
    if handle ∈ s.blinkers.map Prod.fst then none
    else
      some { s with
        xIDBlinkerTaskHandle := some handle
        request := .outside
        blinkers := s.blinkers ++ [(handle, .loopTest)] }

def moveBlinker (s : BlinkTasks) (handle : Nat) (p : BlinkerPoint) : BlinkTasks :=
  { s with blinkers := s.blinkers.map fun b => if b.1 = handle then (handle, p) else b }

def step (s : BlinkTasks) : Event → Option BlinkTasks
  | .idBlink on => if s.request = .outside then some { s with request := .entered on } else none
  | .instrument => s.idBlinkStatement
  | .xTaskCreate created => if s.request = .creating then s.create created else none
  | .blinker handle =>
    (s.blinkers.lookup handle).bind fun p =>
      (vIDBlinkerTask s.idBlinkOn p).map (s.moveBlinker handle)
  | .tick =>
    some { s with
      request := s.request.elapse
      blinkers := s.blinkers.map fun b => (b.1, b.2.elapse) }

/-! ### What a step can do -/

/-- What one statement of `id_blink` does. -/
inductive Statement (s : BlinkTasks) : BlinkTasks → Prop
  | leave {on : UInt8} (hr : s.request = .entered on)
      (hnothing : on ≠ 0 ↔ s.xIDBlinkerTaskHandle ≠ none) :
      Statement s { s with request := .outside }
  | begin {on : UInt8} (hr : s.request = .entered on) (hon : on ≠ 0)
      (hnone : s.xIDBlinkerTaskHandle = none) : Statement s { s with request := .starting }
  | stop {on : UInt8} {handle : Nat} (hr : s.request = .entered on) (hon : on = 0)
      (hsome : s.xIDBlinkerTaskHandle = some handle) : Statement s { s with request := .stopping }
  | set (hr : s.request = .starting) :
      Statement s { s with idBlinkOn := 1, request := .creating }
  | clear (hr : s.request = .stopping) :
      Statement s { s with idBlinkOn := 0, request := .waiting (100 / portTickRateMs) }
  | delete {handle : Nat} (hr : s.request = .waiting 0)
      (hsome : s.xIDBlinkerTaskHandle = some handle) :
      Statement s { s.vTaskDelete handle with request := .clearing }
  | forget (hr : s.request = .clearing) :
      Statement s { s with xIDBlinkerTaskHandle := none, request := .outside }

section Inversion

variable {s s' : BlinkTasks}

theorem statement_entered {on : UInt8} (hr : s.request = .entered on)
    (h : s.idBlinkStatement = some s') : Statement s s' := by
  simp only [idBlinkStatement, hr] at h
  cases hhandle : s.xIDBlinkerTaskHandle with
  | none =>
    have hskip : ¬ s.xIDBlinkerTaskHandle ≠ none := fun hne => hne hhandle
    rw [if_neg hskip, if_neg hskip] at h
    by_cases hon : on ≠ 0
    · rw [if_pos hon] at h
      cases h
      exact .begin hr hon hhandle
    · rw [if_neg hon] at h
      cases h
      exact .leave hr (iff_of_false hon hskip)
  | some handle =>
    have hrunning : s.xIDBlinkerTaskHandle ≠ none := by
      rw [hhandle]
      exact Option.some_ne_none handle
    rw [if_pos hrunning, if_pos hrunning] at h
    by_cases hon : on ≠ 0
    · rw [if_pos hon] at h
      cases h
      exact .leave hr (iff_of_true hon hrunning)
    · rw [if_neg hon] at h
      cases h
      exact .stop hr (not_not.mp hon) hhandle

theorem step_instrument (h : s.step .instrument = some s') : Statement s s' := by
  change s.idBlinkStatement = some s' at h
  have hs := h
  unfold idBlinkStatement at h
  split at h
  case h_1 | h_2 | h_7 => cases h
  case h_3 on hr => exact statement_entered hr hs
  case h_4 hr =>
    cases h
    exact .set hr
  case h_5 hr =>
    cases h
    exact .clear hr
  case h_6 hr =>
    obtain ⟨handle, hsome, rfl⟩ := Option.map_eq_some_iff.mp h
    exact .delete hr hsome
  case h_8 hr =>
    cases h
    exact .forget hr

theorem step_idBlink {on : UInt8} (h : s.step (.idBlink on) = some s') :
    s.request = .outside ∧ s' = { s with request := .entered on } := by
  obtain ⟨houtside, rfl⟩ := by
    simpa only [step, Option.ite_none_right_eq_some, Option.some.injEq] using h
  exact ⟨houtside, rfl⟩

theorem step_xTaskCreate {created : Option Nat} (h : s.step (.xTaskCreate created) = some s') :
    s.request = .creating ∧
      (s' = { s with request := .outside } ∨
        ∃ handle, s' = { s with
          xIDBlinkerTaskHandle := some handle
          request := .outside
          blinkers := s.blinkers ++ [(handle, .loopTest)] }) := by
  rw [step, Option.ite_none_right_eq_some] at h
  obtain ⟨hcreating, h⟩ := h
  refine ⟨hcreating, ?_⟩
  cases created with
  | none => exact Or.inl (Option.some.inj h).symm
  | some handle =>
    rw [create, Option.ite_none_left_eq_some] at h
    exact Or.inr ⟨handle, (Option.some.inj h.2).symm⟩

theorem step_blinker {handle : Nat} (h : s.step (.blinker handle) = some s') :
    ∃ p p', s.blinkers.lookup handle = some p ∧ vIDBlinkerTask s.idBlinkOn p = some p' ∧
      s' = s.moveBlinker handle p' := by
  obtain ⟨p, hp, h⟩ := Option.bind_eq_some_iff.mp h
  obtain ⟨p', hp', rfl⟩ := Option.map_eq_some_iff.mp h
  exact ⟨p, p', hp, hp', rfl⟩

end Inversion

/-! ### The points of `id_blink` -/

def handles (s : BlinkTasks) : List Nat := s.blinkers.map Prod.fst

@[simp] theorem handles_moveBlinker (s : BlinkTasks) (handle : Nat) (p : BlinkerPoint) :
    (s.moveBlinker handle p).handles = s.handles := by
  rw [handles, moveBlinker, List.map_map, handles]
  apply List.map_congr_left
  intro b _
  dsimp only [Function.comp_apply]
  split
  case isTrue h => exact h.symm
  case isFalse => rfl

/-- What holds at each point of `id_blink`. -/
def Coherent (s : BlinkTasks) : Prop :=
  match s.request with
  | .outside | .entered _ =>
    s.handles = s.xIDBlinkerTaskHandle.toList ∧ (s.handles ≠ [] → s.idBlinkOn ≠ 0)
  | .starting => s.xIDBlinkerTaskHandle = none ∧ s.handles = []
  | .creating => s.xIDBlinkerTaskHandle = none ∧ s.handles = [] ∧ s.idBlinkOn ≠ 0
  | .stopping =>
    ∃ handle, s.xIDBlinkerTaskHandle = some handle ∧ s.handles = [handle] ∧ s.idBlinkOn ≠ 0
  | .waiting _ =>
    ∃ handle, s.xIDBlinkerTaskHandle = some handle ∧ s.handles = [handle] ∧ s.idBlinkOn = 0
  | .clearing => s.handles = []

theorem start_coherent : start.Coherent := ⟨rfl, fun h => absurd rfl h⟩

/-- A step that changes no variable of `id_blink` and neither creates nor deletes a task. -/
theorem Coherent.of_same {s s' : BlinkTasks} (h : s.Coherent) (hflag : s'.idBlinkOn = s.idBlinkOn)
    (hhandle : s'.xIDBlinkerTaskHandle = s.xIDBlinkerTaskHandle)
    (hblinkers : s'.handles = s.handles)
    (hrequest : s'.request = s.request ∨
      ∃ m n, s.request = .waiting m ∧ s'.request = .waiting n) : s'.Coherent := by
  unfold Coherent at h ⊢
  rw [hflag, hhandle, hblinkers]
  rcases hrequest with hsame | ⟨m, n, hm, hn⟩
  · rw [hsame]
    exact h
  · rw [hm] at h
    rw [hn]
    exact h

theorem handles_vTaskDelete {s : BlinkTasks} {handle : Nat} (h : s.handles = [handle]) :
    (s.vTaskDelete handle).handles = [] := by
  rw [handles, List.map_eq_nil_iff]
  apply List.filter_eq_nil_iff.mpr
  intro b hb
  have hmem : b.1 ∈ s.handles := List.mem_map_of_mem hb
  rw [h, List.mem_singleton] at hmem
  simp [hmem]

theorem Coherent.statement {s s' : BlinkTasks} (h : s.Coherent) (hs : Statement s s') :
    s'.Coherent := by
  unfold Coherent at h
  cases hs with
  | leave hr _ =>
    rw [hr] at h
    exact h
  | begin hr _ hnone =>
    rw [hr] at h
    refine ⟨hnone, ?_⟩
    change s.handles = []
    rw [h.1, hnone]
    rfl
  | @stop _ handle hr _ hsome =>
    rw [hr] at h
    have hone : s.handles = [handle] := by
      rw [h.1, hsome]
      rfl
    exact ⟨handle, hsome, hone, h.2 (by rw [hone]; exact List.cons_ne_nil handle [])⟩
  | set hr =>
    rw [hr] at h
    exact ⟨h.1, h.2, show (1 : UInt8) ≠ 0 by decide⟩
  | clear hr =>
    rw [hr] at h
    obtain ⟨handle, hsome, hone, -⟩ := h
    exact ⟨handle, hsome, hone, rfl⟩
  | delete hr hsome =>
    rw [hr] at h
    obtain ⟨handle, hsome', hone, -⟩ := h
    obtain rfl := Option.some.inj (hsome.symm.trans hsome')
    exact handles_vTaskDelete hone
  | forget hr =>
    rw [hr] at h
    exact ⟨h, fun hne => absurd h hne⟩

theorem coherent_step (s : BlinkTasks) (e : Event) (s' : BlinkTasks) (h : s.Coherent)
    (hs : s.step e = some s') : s'.Coherent := by
  cases e with
  | idBlink on =>
    obtain ⟨hr, rfl⟩ := step_idBlink hs
    unfold Coherent at h
    rw [hr] at h
    exact h
  | instrument => exact h.statement (step_instrument hs)
  | xTaskCreate created =>
    obtain ⟨hr, hcreated⟩ := step_xTaskCreate hs
    unfold Coherent at h
    rw [hr] at h
    obtain ⟨hnone, hempty, hflag⟩ := h
    rcases hcreated with rfl | ⟨handle, rfl⟩
    · refine ⟨?_, fun hne => absurd hempty hne⟩
      change s.handles = s.xIDBlinkerTaskHandle.toList
      rw [hempty, hnone]
      rfl
    · refine ⟨?_, fun _ => hflag⟩
      change (s.blinkers ++ [(handle, BlinkerPoint.loopTest)]).map Prod.fst = [handle]
      rw [List.map_append, show s.blinkers.map Prod.fst = [] from hempty]
      rfl
  | blinker handle =>
    obtain ⟨p, p', -, -, rfl⟩ := step_blinker hs
    exact h.of_same rfl rfl (s.handles_moveBlinker handle p') (Or.inl rfl)
  | tick =>
    cases hs
    refine h.of_same rfl rfl ?_ ?_
    · rw [handles, List.map_map]
      rfl
    · cases s.request with
      | waiting ticks => exact Or.inr ⟨ticks, ticks - 1, rfl, rfl⟩
      | _ => exact Or.inl rfl

/-! ### A call as a whole -/

/-- The variables of `id_blink` as the dispatcher knows them. -/
def toBlinker (s : BlinkTasks) (memory : Bool) : Blinker :=
  ⟨s.idBlinkOn, s.xIDBlinkerTaskHandle.isSome, memory⟩

/-- What has been done at each point of a call `id_blink(on)` that began with `b`. -/
def Serves (on : UInt8) (b : Blinker) (s : BlinkTasks) : Prop :=
  match s.request with
  | .outside => ∃ memory, s.toBlinker memory = (idBlink on { b with memory }).1
  | .entered on' =>
    on' = on ∧ s.idBlinkOn = b.idBlinkOn ∧ s.xIDBlinkerTaskHandle.isSome = b.hasTask
  | .starting => on ≠ 0 ∧ b.hasTask = false ∧ s.xIDBlinkerTaskHandle = none
  | .creating =>
    on ≠ 0 ∧ b.hasTask = false ∧ s.xIDBlinkerTaskHandle = none ∧ s.idBlinkOn = 1
  | .stopping => on = 0 ∧ b.hasTask = true
  | .waiting _ | .clearing => on = 0 ∧ b.hasTask = true ∧ s.idBlinkOn = 0

theorem idBlink_start {on : UInt8} (hon : on ≠ 0) (flag : UInt8) (memory : Bool) :
    (idBlink on ⟨flag, false, memory⟩).1 = ⟨1, memory, memory⟩ := by
  rw [idBlink, if_pos hon]
  rfl

theorem idBlink_stop {on : UInt8} (hon : on = 0) (flag : UInt8) (memory : Bool) :
    (idBlink on ⟨flag, true, memory⟩).1 = ⟨0, false, memory⟩ := by
  rw [idBlink, if_neg (not_not.mpr hon)]
  rfl

theorem idBlink_nothing {on : UInt8} {task : Bool} (h : on ≠ 0 ↔ task = true) (flag : UInt8)
    (memory : Bool) : (idBlink on ⟨flag, task, memory⟩).1 = ⟨flag, task, memory⟩ := by
  rw [idBlink]
  by_cases hon : on ≠ 0
  · rw [if_pos hon, if_pos (h.mp hon)]
  · rw [if_neg hon, if_neg fun htask => hon (h.mpr htask)]

section Serves

variable {on : UInt8} {b : Blinker} {s s' : BlinkTasks}

theorem Serves.statement (h : Serves on b s) (hs : Statement s s') : Serves on b s' := by
  unfold Serves at h
  cases hs with
  | leave hr hnothing =>
    rw [hr] at h
    obtain ⟨rfl, hflag, htask⟩ := h
    rw [← Option.isSome_iff_ne_none, htask] at hnothing
    refine ⟨true, ?_⟩
    rw [idBlink_nothing hnothing, ← htask, ← hflag]
    rfl
  | begin hr hon hnone =>
    rw [hr] at h
    obtain ⟨rfl, -, htask⟩ := h
    rw [hnone] at htask
    exact ⟨hon, htask.symm, hnone⟩
  | stop hr hon hsome =>
    rw [hr] at h
    obtain ⟨rfl, -, htask⟩ := h
    rw [hsome] at htask
    exact ⟨hon, htask.symm⟩
  | set hr =>
    rw [hr] at h
    exact ⟨h.1, h.2.1, h.2.2, rfl⟩
  | clear hr =>
    rw [hr] at h
    exact ⟨h.1, h.2, rfl⟩
  | delete hr hsome =>
    rw [hr] at h
    exact h
  | forget hr =>
    rw [hr] at h
    obtain ⟨hon, htask, hflag⟩ := h
    refine ⟨true, ?_⟩
    rw [htask, idBlink_stop hon, toBlinker, hflag]
    rfl

theorem Serves.create (h : Serves on b s) {created : Option Nat}
    (hs : s.step (.xTaskCreate created) = some s') : Serves on b s' := by
  obtain ⟨hr, hcreated⟩ := step_xTaskCreate hs
  unfold Serves at h
  rw [hr] at h
  obtain ⟨hon, htask, hnone, hflag⟩ := h
  rcases hcreated with rfl | ⟨handle, rfl⟩
  · refine ⟨false, ?_⟩
    rw [htask, idBlink_start hon, toBlinker, hflag, hnone]
    rfl
  · refine ⟨true, ?_⟩
    rw [htask, idBlink_start hon, toBlinker, hflag]
    rfl

end Serves

/-- A call that comes back has done to the variables what the dispatcher's model says, with memory
for the task if it was created. -/
theorem idBlink_refines {s t : BlinkTasks} {on : UInt8} {es : List Event}
    (hes : ∀ e ∈ es, ∀ on', e ≠ .idBlink on')
    (hr : Events.run step s (.idBlink on :: es) = some t) (hback : t.request = .outside) :
    ∃ memory, t.toBlinker memory = (idBlink on (s.toBlinker memory)).1 := by
  have hstep (u : BlinkTasks) (e : Event) (u' : BlinkTasks)
      (h : Serves on (s.toBlinker true) u) (he : ∀ on', e ≠ .idBlink on')
      (hu : u.step e = some u') : Serves on (s.toBlinker true) u' := by
    cases e with
    | idBlink on' => exact absurd rfl (he on')
    | instrument => exact h.statement (step_instrument hu)
    | xTaskCreate created => exact h.create hu
    | blinker handle =>
      obtain ⟨p, p', -, -, rfl⟩ := step_blinker hu
      exact h
    | tick =>
      cases hu
      unfold Serves at h ⊢
      generalize u.request = point at h ⊢
      cases point <;> exact h
  obtain ⟨s₁, hs₁, hr⟩ := Events.run_cons_some hr
  obtain ⟨-, rfl⟩ := step_idBlink hs₁
  have hg : Events.Guarded step (fun _ e => ∀ on', e ≠ .idBlink on')
      { s with request := .entered on } es := by
    rw [Events.guarded_iff]
    rintro done e rest _ rfl -
    exact hes e (List.mem_append_right done List.mem_cons_self)
  have hbegin : Serves on (s.toBlinker true) { s with request := .entered on } := ⟨rfl, rfl, rfl⟩
  have hend := Events.guarded_invariant hstep hbegin hg hr
  unfold Serves at hend
  rw [hback] at hend
  exact hend

end BlinkTasks

end UsbSpdt
