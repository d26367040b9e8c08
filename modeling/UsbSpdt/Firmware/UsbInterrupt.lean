import UsbSpdt.Library.Events

/-!
# The USB interrupt

The interrupt of the USB controller is not served where it comes in: `otg_fs_isr` switches it off
and wakes `vUSBCDCACMTask`, which polls the controller and switches it on again.
-/

namespace UsbSpdt

/-- Where `vUSBCDCACMTask` stands, by its next statement. -/
inductive UsbTaskPoint where
  | createSemaphore
  | drainSemaphore
  | disableIrq
  | usbdInit
  | enableIrq
  | take
  | poll
  | reenableIrq
  deriving DecidableEq

/-- `usbInterrupted` is none before it is created. -/
structure UsbInterrupt where
  irqEnabled : Bool
  usbInterrupted : Option Bool
  task : UsbTaskPoint
  irqs : Nat
  polls : Nat

namespace UsbInterrupt

def start : UsbInterrupt := ⟨false, none, .createSemaphore, 0, 0⟩

inductive Event where
  | isr
  | task
  deriving DecidableEq

/-- `xSemaphoreGiveFromISR`, which does nothing to a semaphore that has been given. -/
def otgFsIsr (s : UsbInterrupt) : Option UsbInterrupt :=
  s.usbInterrupted.map fun _ =>
    { s with irqEnabled := false, usbInterrupted := some true, irqs := s.irqs + 1 }

/-- `vSemaphoreCreateBinary` makes a semaphore that has been given. -/
def vUSBCDCACMTask (s : UsbInterrupt) : Option UsbInterrupt :=
  match s.task with
  | .createSemaphore => some { s with usbInterrupted := some true, task := .drainSemaphore }
  | .drainSemaphore => some { s with usbInterrupted := some false, task := .disableIrq }
  | .disableIrq => some { s with irqEnabled := false, task := .usbdInit }
  | .usbdInit => some { s with task := .enableIrq }
  | .enableIrq | .reenableIrq => some { s with irqEnabled := true, task := .take }
  | .take =>
    if s.usbInterrupted = some true then some { s with usbInterrupted := some false, task := .poll }
    else none
  | .poll => some { s with task := .reenableIrq, polls := s.polls + 1 }

/-- The interrupt may come in whenever it is enabled. -/
def step (s : UsbInterrupt) : Event → Option UsbInterrupt
  | .isr => if s.irqEnabled then s.otgFsIsr else none
  | .task => s.vUSBCDCACMTask

/-- From its creation on there is one permit: the interrupt is enabled, or the semaphore given, or
the task at work. -/
def OnePermit (s : UsbInterrupt) : Prop :=
  match s.task with
  | .createSemaphore => s.irqEnabled = false ∧ s.usbInterrupted = none ∧ s.irqs = s.polls
  | .drainSemaphore => s.irqEnabled = false ∧ s.usbInterrupted = some true ∧ s.irqs = s.polls
  | .take =>
    s.usbInterrupted = some (!s.irqEnabled) ∧ s.irqs = s.polls + if s.irqEnabled then 0 else 1
  | .poll => s.irqEnabled = false ∧ s.usbInterrupted = some false ∧ s.irqs = s.polls + 1
  | _ => s.irqEnabled = false ∧ s.usbInterrupted = some false ∧ s.irqs = s.polls

/-- The steps to the next poll. -/
def stepsToPoll (s : UsbInterrupt) : Nat :=
  match s.task with
  | .createSemaphore => 7
  | .drainSemaphore => 6
  | .disableIrq => 5
  | .usbdInit => 4
  | .enableIrq | .reenableIrq => 3
  | .take => if s.irqEnabled then 2 else 1
  | .poll => 0

theorem onePermit_start : start.OnePermit := ⟨rfl, rfl, rfl⟩

theorem OnePermit.created {s : UsbInterrupt} (h : s.OnePermit)
    (htask : s.task ≠ .createSemaphore) : s.usbInterrupted.isNone = false := by
  cases hpoint : s.task with
  | createSemaphore => exact absurd hpoint htask
  | _ =>
    simp only [OnePermit, hpoint] at h
    simp [h]

/-- The interrupt is enabled only while the task waits for it. -/
theorem OnePermit.enabled {s : UsbInterrupt} (h : s.OnePermit) (henabled : s.irqEnabled = true) :
    s.task = .take ∧ s.usbInterrupted = some false := by
  cases htask : s.task <;> simp [OnePermit, htask, henabled] at h ⊢
  exact h.1

/-- What `otg_fs_isr` makes of the state when it comes in. -/
theorem OnePermit.isr {s : UsbInterrupt} (h : s.OnePermit) (henabled : s.irqEnabled = true) :
    s.step .isr =
      some { s with irqEnabled := false, usbInterrupted := some true, irqs := s.irqs + 1 } := by
  rw [UsbInterrupt.step, if_pos henabled, otgFsIsr, (h.enabled henabled).2, Option.map_some]

/-- A step keeps the one permit, and brings the poll nearer unless it is the poll. -/
theorem OnePermit.step {s s' : UsbInterrupt} {e : Event} (h : s.OnePermit)
    (hs : s.step e = some s') :
    s'.OnePermit ∧ (s'.polls = s.polls → s'.stepsToPoll < s.stepsToPoll) := by
  cases e with
  | isr =>
    have henabled : s.irqEnabled = true := (Option.ite_none_right_eq_some.mp hs).1
    have htask := (h.enabled henabled).1
    rw [h.isr henabled] at hs
    obtain rfl := Option.some.inj hs
    simp [OnePermit, stepsToPoll, htask, henabled] at h ⊢
    exact h.2
  | task =>
    change s.vUSBCDCACMTask = some s' at hs
    unfold vUSBCDCACMTask at hs
    cases htask : s.task with
    | take =>
      rw [htask] at hs
      dsimp only at hs
      rw [Option.ite_none_right_eq_some] at hs
      obtain ⟨hgiven, hs⟩ := hs
      obtain rfl := Option.some.inj hs
      simp only [OnePermit, htask, hgiven, Option.some.injEq] at h
      have hoff : s.irqEnabled = false := by simpa using h.1.symm
      simp [OnePermit, stepsToPoll, htask, hoff] at h ⊢
      exact h
    | _ =>
      rw [htask] at hs
      obtain rfl := Option.some.inj hs
      simp [OnePermit, stepsToPoll, htask] at h ⊢
      try simp [h]

theorem OnePermit.ready {s : UsbInterrupt} (h : s.OnePermit) :
    (s.step .task).isSome = true ∨ (s.step .isr).isSome = true := by
  unfold OnePermit at h
  cases htask : s.task with
  | take =>
    rw [htask] at h
    cases henabled : s.irqEnabled with
    | false => simp [UsbInterrupt.step, vUSBCDCACMTask, htask, h.1, henabled]
    | true => simp [UsbInterrupt.step, otgFsIsr, h.1, henabled]
  | _ => simp [UsbInterrupt.step, vUSBCDCACMTask, htask]

theorem OnePermit.counts {s : UsbInterrupt} (h : s.OnePermit) :
    s.polls ≤ s.irqs ∧ s.irqs ≤ s.polls + 1 := by
  unfold OnePermit at h
  cases htask : s.task with
  | take =>
    rw [htask] at h
    cases henabled : s.irqEnabled with
    | false => simp [h.2, henabled]
    | true => simp [h.2, henabled]
  | _ =>
    rw [htask] at h
    simp [h.2.2]

theorem step_polls {s s' : UsbInterrupt} {e : Event} (hs : s.step e = some s') :
    s.polls ≤ s'.polls := by
  cases e with
  | isr =>
    obtain ⟨b, -, rfl⟩ := Option.map_eq_some_iff.mp (Option.ite_none_right_eq_some.mp hs).2
    exact Nat.le_refl _
  | task =>
    change s.vUSBCDCACMTask = some s' at hs
    unfold vUSBCDCACMTask at hs
    cases htask : s.task with
    | take =>
      rw [htask] at hs
      obtain rfl := Option.some.inj (Option.ite_none_right_eq_some.mp hs).2
      exact Nat.le_refl _
    | _ =>
      rw [htask] at hs
      obtain rfl := Option.some.inj hs
      simp

theorem run_polls {s t : UsbInterrupt} {es : List Event} (hr : Events.run step s es = some t) :
    s.polls ≤ t.polls := by
  have hstep : ∀ u e u', s.polls ≤ u.polls → step u e = some u' → s.polls ≤ u'.polls :=
    fun _ _ _ h hs => Nat.le_trans h (step_polls hs)
  exact Events.invariant hstep (Nat.le_refl _) hr

theorem OnePermit.run {s t : UsbInterrupt} (h : s.OnePermit) {es : List Event}
    (hr : Events.run UsbInterrupt.step s es = some t) : t.OnePermit :=
  Events.invariant (fun _ _ _ h hs => (h.step hs).1) h hr

/-- Without a poll there are only so many steps. -/
theorem OnePermit.length_le {s t : UsbInterrupt} (h : s.OnePermit) {es : List Event}
    (hr : Events.run UsbInterrupt.step s es = some t) (hpolls : t.polls = s.polls) :
    es.length ≤ s.stepsToPoll := by
  induction es generalizing s with
  | nil => exact Nat.zero_le _
  | cons e es ih =>
    obtain ⟨s', hs, hr'⟩ := Events.run_cons_some hr
    obtain ⟨h', hnearer⟩ := h.step hs
    have hfirst := step_polls hs
    have hrest := run_polls hr'
    have hle := ih h' hr' (by omega)
    have hlt := hnearer (by omega)
    rw [List.length_cons]
    omega

theorem stepsToPoll_le (s : UsbInterrupt) : s.stepsToPoll ≤ 7 := by
  unfold stepsToPoll
  split
  case h_7 => split <;> decide
  all_goals decide

end UsbInterrupt

open UsbInterrupt

/-- In any interleaving of the interrupt and the task no interrupt is lost: whenever it can come in,
it finds the semaphore created and taken, and gives it. Every interrupt is followed by one poll
before the next, and never do more than seven steps pass without a poll, nor does everything come to
a stop. -/
theorem usb_interrupt_served {es : List Event} {s : UsbInterrupt}
    (hr : Events.run UsbInterrupt.step .start es = some s) :
    (s.irqEnabled = true → s.usbInterrupted = some false ∧ ∃ s', s.step .isr = some s' ∧
      s'.usbInterrupted = some true ∧ s'.irqEnabled = false ∧ s'.irqs = s.irqs + 1) ∧
      s.polls ≤ s.irqs ∧ s.irqs ≤ s.polls + 1 ∧
      ((s.step .task).isSome = true ∨ (s.step .isr).isSome = true) ∧
      ∀ fs t, Events.run UsbInterrupt.step s fs = some t → t.polls = s.polls →
        fs.length ≤ 7 := by
  have h := onePermit_start.run hr
  refine ⟨fun henabled => ?_, h.counts.1, h.counts.2, h.ready, ?_⟩
  · exact ⟨(h.enabled henabled).2, _, h.isr henabled, rfl, rfl, rfl⟩
  · intro fs t hfs hpolls
    exact Nat.le_trans (h.length_le hfs hpolls) (stepsToPoll_le s)

/-- The task has just switched the interrupt on for the first time, and then it comes in. -/
theorem usb_interrupt_served_first :
    (∃ s, Events.run UsbInterrupt.step .start [.task, .task, .task, .task, .task] = some s ∧
      s.usbInterrupted = some false ∧ ∃ s', s.step .isr = some s' ∧ s'.irqs = 1) ∧
    ∃ s, Events.run UsbInterrupt.step .start [.task, .task, .task, .task, .task, .isr] =
        some s ∧
      s.irqs = 1 ∧ s.irqs ≤ s.polls + 1 := by
  have hon : Events.run UsbInterrupt.step .start [.task, .task, .task, .task, .task] =
      some ⟨true, some false, .take, 0, 0⟩ := rfl
  have hin : Events.run UsbInterrupt.step .start [.task, .task, .task, .task, .task, .isr] =
      some ⟨false, some true, .take, 1, 0⟩ := rfl
  obtain ⟨htaken, s', hs', -, -, hirqs⟩ := (usb_interrupt_served hon).1 rfl
  exact ⟨⟨_, hon, htaken, s', hs', hirqs⟩, _, hin, rfl, (usb_interrupt_served hin).2.2.1⟩

end UsbSpdt
