import UsbSpdt.Library.Events
import UsbSpdt.Shell.Session

/-!
# Typing ahead

The bytes of the host wait in `UARTinQ` until the shell reads them. The USB callback does not look
at what the queue answers, and a byte that finds it full is gone.
-/

namespace UsbSpdt

def uartInQLength : Nat := 256

structure UartInQ where
  bytes : List UInt8
  length_le : bytes.length ≤ uartInQLength

namespace UartInQ

def empty : UartInQ := ⟨[], Nat.zero_le _⟩

/-- `xQueueSendFromISR`. -/
def sendFromISR (q : UartInQ) (b : UInt8) : UartInQ :=
  if h : q.bytes.length < uartInQLength then
    ⟨q.bytes ++ [b], by rw [List.length_append]; exact h⟩
  else q -- errQUEUE_FULL

/-- `xQueueReceive` with a byte in the queue. -/
def receive : UartInQ → Option (UInt8 × UartInQ)
  | ⟨[], _⟩ => none
  | ⟨b :: rest, h⟩ => some (b, ⟨rest, Nat.le_of_succ_le h⟩)

theorem receive_bytes {q : UartInQ} {r : UInt8 × UartInQ} (h : q.receive = some r) :
    q.bytes = r.1 :: r.2.bytes := by
  obtain ⟨bytes, hle⟩ := q
  cases bytes with
  | nil => cases h
  | cons b rest =>
    obtain rfl := Option.some.inj h
    rfl

/-- `cdcacm_data_rx_cb` with a packet of the host. -/
def cdcacmDataRxCb (q : UartInQ) (buf : List UInt8) : UartInQ := buf.foldl sendFromISR q

theorem sendFromISR_full {q : UartInQ} (h : q.bytes.length = uartInQLength) (b : UInt8) :
    q.sendFromISR b = q := by
  rw [sendFromISR, dif_neg (by omega)]

theorem cdcacmDataRxCb_full {q : UartInQ} (h : q.bytes.length = uartInQLength)
    (buf : List UInt8) : q.cdcacmDataRxCb buf = q := by
  induction buf with
  | nil => rfl
  | cons b buf ih =>
    change (q.sendFromISR b).cdcacmDataRxCb buf = q
    rw [sendFromISR_full h, ih]

/-- The first bytes of a packet get the room that there is. -/
theorem cdcacmDataRxCb_bytes (q : UartInQ) (buf : List UInt8) :
    (q.cdcacmDataRxCb buf).bytes = q.bytes ++ buf.take (uartInQLength - q.bytes.length) := by
  induction buf generalizing q with
  | nil => simp [cdcacmDataRxCb]
  | cons b buf ih =>
    by_cases h : q.bytes.length < uartInQLength
    · have hsend : (q.sendFromISR b).bytes = q.bytes ++ [b] := by rw [sendFromISR, dif_pos h]
      have hroom : uartInQLength - q.bytes.length =
          uartInQLength - (q.bytes.length + 1) + 1 := by omega
      change ((q.sendFromISR b).cdcacmDataRxCb buf).bytes = _
      rw [ih, hsend, List.length_append, List.length_singleton, hroom, List.take_succ_cons,
        List.append_assoc, List.singleton_append]
    · have hfull : q.bytes.length = uartInQLength := Nat.le_antisymm q.length_le (Nat.not_lt.mp h)
      rw [cdcacmDataRxCb_full hfull, hfull, Nat.sub_self, List.take_zero, List.append_nil]

end UartInQ

/-- The queue and the shell behind it, with the bytes that it has read. -/
structure Typing (σ : Type) where
  queue : UartInQ
  shell : DebugShell σ
  read : List UInt8

inductive TypingEvent where
  | packet (buf : List UInt8)
  | read

namespace Typing

variable {σ : Type} (cmdParse : σ → LineBuffer → σ × LineBuffer)

def start (line : LineBuffer) (world : σ) : Typing σ := ⟨.empty, .prompt line world [], []⟩

/-- A packet arrives; or the shell reads a byte, if there is one, and goes on until it needs the
next. -/
def step (l : Typing σ) : TypingEvent → Option (Typing σ)
  | .packet buf => some { l with queue := l.queue.cdcacmDataRxCb buf }
  | .read => l.queue.receive.map fun received => {
      queue := received.2
      shell := l.shell.rx cmdParse received.1
      read := l.read ++ [received.1] }

end Typing

def TypingEvent.sent : TypingEvent → List UInt8
  | .packet buf => buf
  | .read => []

def TypingEvent.reads : TypingEvent → Bool
  | .packet _ => false
  | .read => true

/-- The host is never ahead of the shell by more than the queue holds. -/
def KeepsPace (es : List TypingEvent) : Prop :=
  ∀ done buf rest, es = done ++ .packet buf :: rest →
    (done.flatMap TypingEvent.sent).length + buf.length ≤
      done.countP TypingEvent.reads + uartInQLength

namespace Typing

variable {σ : Type} (cmdParse : σ → LineBuffer → σ × LineBuffer)

/-- The bytes that have not been lost. -/
def kept (l : Typing σ) : List UInt8 := l.read ++ l.queue.bytes

def Fits (l : Typing σ) (e : TypingEvent) : Prop :=
  l.queue.bytes.length + e.sent.length ≤ uartInQLength

theorem step_kept {l l' : Typing σ} {e : TypingEvent} (h : l.step cmdParse e = some l') :
    l'.kept = l.kept ++ e.sent.take (uartInQLength - l.queue.bytes.length) := by
  cases e with
  | packet buf =>
    obtain rfl := Option.some.inj h
    simp [kept, UartInQ.cdcacmDataRxCb_bytes, TypingEvent.sent]
  | read =>
    obtain ⟨received, hreceived, rfl⟩ := Option.map_eq_some_iff.mp h
    simp [kept, UartInQ.receive_bytes hreceived, TypingEvent.sent]

/-- The shell has worked on what it has read, and what has come through has not changed places. -/
structure Worked (line : LineBuffer) (world : σ) (es : List TypingEvent) (l : Typing σ) : Prop where
  shell : l.shell = vDebugShell cmdParse line world l.read
  reads : l.read.length = es.countP TypingEvent.reads
  order : l.kept.Sublist (es.flatMap TypingEvent.sent)

theorem Worked.step {line : LineBuffer} {world : σ} {es : List TypingEvent} {l l' : Typing σ}
    {e : TypingEvent} (h : Worked cmdParse line world es l) (hs : l.step cmdParse e = some l') :
    Worked cmdParse line world (es ++ [e]) l' := by
  have horder : l'.kept.Sublist ((es ++ [e]).flatMap TypingEvent.sent) := by
    rw [step_kept cmdParse hs, List.flatMap_append, List.flatMap_singleton]
    exact h.order.append (List.take_sublist _ _)
  cases e with
  | packet buf =>
    obtain rfl := Option.some.inj hs
    exact ⟨h.shell, by simp [h.reads, TypingEvent.reads], horder⟩
  | read =>
    obtain ⟨received, -, rfl⟩ := Option.map_eq_some_iff.mp hs
    refine ⟨?_, ?_, horder⟩
    · simp only [vDebugShell, List.foldl_append, List.foldl_cons, List.foldl_nil, h.shell]
    · simp [h.reads, TypingEvent.reads]

theorem run_worked {line : LineBuffer} {world : σ} {es : List TypingEvent} {l : Typing σ}
    (hr : Events.run (step cmdParse) (start line world) es = some l) :
    Worked cmdParse line world es l := by
  have hstart : Worked cmdParse line world [] (start line world) := ⟨rfl, rfl, List.nil_sublist _⟩
  exact Events.history_invariant (fun _ _ _ _ h hs => h.step cmdParse hs) hstart hr

theorem run_kept {line : LineBuffer} {world : σ} {es : List TypingEvent} {l : Typing σ}
    (hr : Events.run (step cmdParse) (start line world) es = some l) :
    l.kept.length ≤ (es.flatMap TypingEvent.sent).length ∧
      (l.kept = es.flatMap TypingEvent.sent ↔
        Events.Guarded (step cmdParse) Fits (start line world) es) := by
  have hroom {l : Typing σ} {e : TypingEvent} (hfits : Fits l e) :
      e.sent.length ≤ uartInQLength - l.queue.bytes.length := by
    rw [Fits] at hfits
    omega
  have hfit (l : Typing σ) (e : TypingEvent) (l' : Typing σ) (hs : l.step cmdParse e = some l')
      (hfits : Fits l e) : l'.kept = l.kept ++ e.sent := by
    rw [step_kept cmdParse hs, List.take_of_length_le (hroom hfits)]
  have hlost (l : Typing σ) (e : TypingEvent) (l' : Typing σ) (hs : l.step cmdParse e = some l')
      (hfits : ¬ Fits l e) : l'.kept.length < l.kept.length + e.sent.length := by
    have hle := l.queue.length_le
    rw [Fits] at hfits
    rw [step_kept cmdParse hs, List.length_append, List.length_take]
    omega
  have hlossless := Events.lossless_iff hfit hlost hr
  simpa [start, kept, UartInQ.empty] using hlossless

/-- Every packet finds room exactly when the host keeps pace. -/
theorem guarded_iff_keepsPace {line : LineBuffer} {world : σ} {es : List TypingEvent}
    {l : Typing σ} (hr : Events.run (step cmdParse) (start line world) es = some l) :
    Events.Guarded (step cmdParse) Fits (start line world) es ↔ KeepsPace es := by
  -- what is in the queue has been sent and has not been read
  have hqueue {done : List TypingEvent} {m : Typing σ}
      (hm : Events.run (step cmdParse) (start line world) done = some m) :
      done.countP TypingEvent.reads + m.queue.bytes.length = m.kept.length := by
    rw [← (run_worked cmdParse hm).reads, kept, List.length_append]
  constructor
  · intro hg done buf rest heq
    subst heq
    rw [Events.run_append] at hr
    obtain ⟨m, hm, -⟩ := Option.bind_eq_some_iff.mp hr
    have hfits := Events.guarded_iff.mp hg done (.packet buf) rest m rfl hm
    have hkept := (run_kept cmdParse hm).2.mpr hg.of_append
    have hlen := hqueue hm
    rw [hkept] at hlen
    change m.queue.bytes.length + buf.length ≤ _ at hfits
    omega
  · intro hpace
    rw [Events.guarded_iff]
    intro done e rest m heq hm
    have hlen := hqueue hm
    have hle := (run_kept cmdParse hm).1
    cases e with
    | packet buf =>
      have hroom := hpace done buf rest heq
      change m.queue.bytes.length + buf.length ≤ _
      omega
    | read => exact m.queue.length_le

end Typing

/-- In any interleaving the shell works on what it reads, which is what the host sent, in its order,
less the bytes that found the queue full; none did exactly when the host was never more than 256
bytes ahead of the shell. -/
theorem typed_ahead_iff {σ : Type} (cmdParse : σ → LineBuffer → σ × LineBuffer) {line : LineBuffer}
    {world : σ} {es : List TypingEvent} {l : Typing σ}
    (hr : Events.run (Typing.step cmdParse) (.start line world) es = some l) :
    l.shell = vDebugShell cmdParse line world l.read ∧
      (l.read ++ l.queue.bytes).Sublist (es.flatMap TypingEvent.sent) ∧
      (l.read ++ l.queue.bytes = es.flatMap TypingEvent.sent ↔ KeepsPace es) := by
  have hworked := Typing.run_worked cmdParse hr
  refine ⟨hworked.shell, hworked.order, ?_⟩
  exact (Typing.run_kept cmdParse hr).2.trans (Typing.guarded_iff_keepsPace cmdParse hr)

theorem keepsPace_of_length_le {es : List TypingEvent}
    (h : (es.flatMap TypingEvent.sent).length ≤ uartInQLength) : KeepsPace es := by
  intro done buf rest heq
  have hsent : (es.flatMap TypingEvent.sent).length = (done.flatMap TypingEvent.sent).length +
      (buf.length + (rest.flatMap TypingEvent.sent).length) := by
    rw [heq, List.flatMap_append, List.flatMap_cons, List.length_append, List.length_append]
    rfl
  omega

/-- A byte of `hv` has been read. -/
theorem typed_ahead_hv : ∃ l, Events.run (Typing.step (σ := Unit) Prod.mk) (.start .zeroed ())
      [.packet [0x68], .packet [0x76], .read] = some l ∧
    l.read = [0x68] ∧ l.read ++ l.queue.bytes = [0x68, 0x76] := by
  have hpace : KeepsPace [.packet [0x68], .packet [0x76], .read] :=
    keepsPace_of_length_le (by decide)
  exact ⟨_, rfl, rfl, ((typed_ahead_iff Prod.mk rfl).2.2.mpr hpace)⟩

end UsbSpdt
