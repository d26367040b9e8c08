import UsbSpdt.Console.Output

/-!
# When console output loses nothing

A call of `_write` keeps every byte exactly when the bytes already pending and the expanded bytes
of the call together stay below the buffer size. A byte lost is lost for good.
-/

namespace UsbSpdt

namespace Console

def kept (c : Console) : List UInt8 := c.accepted ++ c.ring.pending

def keptLength (c : Console) : Nat := c.accepted.length + c.ring.size

theorem kept_length {c : Console} (h : c.ring.Fronted) : c.kept.length = c.keptLength := by
  simp only [kept, keptLength, List.length_append, h.pending_length]

@[simp] theorem onlcr_nil : onlcr [] = [] := rfl

theorem onlcr_cons (b : UInt8) (bytes : List UInt8) :
    onlcr (b :: bytes) = (if b = newline then [carriageReturn, b] else [b]) ++ onlcr bytes := rfl

theorem onlcr_append (as bs : List UInt8) : onlcr (as ++ bs) = onlcr as ++ onlcr bs :=
  List.flatMap_append

theorem sendPacket_spec (ep : Nat → EpAnswer) {c : Console} (h : c.ring.Fronted) :
    (c.sendPacket ep).2.ring.Fronted ∧ (c.sendPacket ep).2.kept = c.kept := by
  unfold sendPacket
  cases ep c.attempts with
  | unconfigured => exact ⟨h, rfl⟩
  | busy => exact ⟨h, rfl⟩
  | accepts =>
    by_cases hs : c.ring.size = 0
    · simp only [hs, ne_eq, not_true_eq_false, if_false]
      refine ⟨h, ?_⟩
      have hp : c.ring.pending = [] := List.length_eq_zero_iff.mp (h.pending_length.trans hs)
      simp [kept, hp]
    · simp only [ne_eq, hs, not_false_eq_true, if_true]
      refine ⟨c.ring.reset_fronted, ?_⟩
      simp [kept, RingBuffer.pending, RingBuffer.reset]

/-- The wait for a full buffer to empty never waits: the size never reads as full. -/
theorem waitNotFull_eq (ep : Nat → EpAnswer) (fuel : Nat) {c : Console} (h : c.ring.Fronted) :
    waitNotFull ep fuel c = some c := by
  have hs : c.ring.size ≠ bufferSize := Nat.ne_of_lt h.size
  cases fuel <;> simp only [waitNotFull, if_neg hs]

theorem writeByte_eq (ep : Nat → EpAnswer) (fuel : Nat) {c : Console} (h : c.ring.Fronted)
    (b : UInt8) : writeByte ep fuel c b = some { c with ring := c.ring.enq (onlcr [b]) } := by
  unfold writeByte put
  by_cases hb : b = newline
  · simp only [if_pos hb, onlcr_cons, onlcr_nil, List.append_nil]
    rw [waitNotFull_eq ep fuel (h.enq [carriageReturn])]
    exact waitNotFull_eq ep fuel ((h.enq [carriageReturn]).enq [b])
  · simp only [if_neg hb, onlcr_cons, onlcr_nil, List.append_nil]
    exact waitNotFull_eq ep fuel (h.enq [b])

theorem writeBytes_eq (ep : Nat → EpAnswer) (fuel : Nat) {c : Console} (h : c.ring.Fronted)
    (bytes : List UInt8) :
    bytes.foldlM (writeByte ep fuel) c = some { c with ring := c.ring.enq (onlcr bytes) } := by
  induction bytes generalizing c with
  | nil => rfl
  | cons b bytes ih =>
    rw [List.foldlM_cons, writeByte_eq ep fuel h b]
    change bytes.foldlM (writeByte ep fuel) { c with ring := c.ring.enq (onlcr [b]) } = _
    rw [ih (h.enq _)]
    have happ : onlcr (b :: bytes) = onlcr [b] ++ onlcr bytes := onlcr_append [b] bytes
    simp only [happ, RingBuffer.enq, List.foldl_append]

def consoleStep (ep : Nat → EpAnswer) (fuel : Nat) (c : Console) (bytes : List UInt8) :
    Option Console := (c.write ep fuel 0 bytes).map Prod.snd

theorem write_eq (ep : Nat → EpAnswer) (fuel : Nat) {c : Console} (h : c.ring.Fronted)
    (bytes : List UInt8) : c.write ep fuel 0 bytes =
      some ((bytes.length : Int),
        (sendPacket ep { c with ring := c.ring.enq (onlcr bytes) }).2) := by
  simp only [write, if_true, waitNotFull_eq ep fuel h, bind, Option.bind_some,
    writeBytes_eq ep fuel h bytes]

/-- The pending bytes and the expanded bytes of the call stay short of a full buffer. -/
def FitsBuffer (c : Console) (bytes : List UInt8) : Prop :=
  c.ring.size + (onlcr bytes).length < bufferSize

/-- Every call returns; one that fits keeps all its bytes, and every other one loses some. -/
theorem consoleStep_spec (ep : Nat → EpAnswer) (fuel : Nat) {c : Console} (h : c.ring.Fronted)
    (bytes : List UInt8) : ∃ c', consoleStep ep fuel c bytes = some c' ∧ c'.ring.Fronted ∧
      (FitsBuffer c bytes → c'.kept = c.kept ++ onlcr bytes) ∧
      (¬ FitsBuffer c bytes → c'.keptLength < c.keptLength + (onlcr bytes).length) := by
  have henq : RingBuffer.Fronted { c with ring := c.ring.enq (onlcr bytes) }.ring := h.enq _
  obtain ⟨hf, hk⟩ := sendPacket_spec ep henq
  refine ⟨(sendPacket ep { c with ring := c.ring.enq (onlcr bytes) }).2, ?_, hf, ?_, ?_⟩
  · simp only [consoleStep, write_eq ep fuel h bytes, Option.map_some]
  · intro hfit
    rw [hk]
    simp only [kept, RingBuffer.enq_pending h _ hfit, List.append_assoc]
  · intro hfull
    rw [← kept_length hf, hk, kept_length henq]
    have hs := h.size
    simp only [FitsBuffer] at hfull
    simp only [keptLength, RingBuffer.enq_size h]
    simp only [bufferSize] at hfull hs ⊢
    omega

theorem consoleStep_keptLength {ep : Nat → EpAnswer} {fuel : Nat} {c c' : Console}
    (h : c.ring.Fronted) {bytes : List UInt8} (hc : consoleStep ep fuel c bytes = some c') :
    c'.ring.Fronted ∧ c'.keptLength ≤ c.keptLength + (onlcr bytes).length := by
  obtain ⟨d, hd, hf, hfit, hfull⟩ := consoleStep_spec ep fuel h bytes
  obtain rfl : d = c' := by simpa only [hd, Option.some.injEq] using hc
  refine ⟨hf, ?_⟩
  by_cases hb : FitsBuffer c bytes
  · have := congrArg List.length (hfit hb)
    rw [List.length_append, kept_length hf, kept_length h] at this
    omega
  · exact Nat.le_of_lt (hfull hb)

theorem run_keptLength {ep : Nat → EpAnswer} {fuel : Nat} {c c' : Console} (h : c.ring.Fronted)
    {ws : List (List UInt8)} (hr : Events.run (consoleStep ep fuel) c ws = some c') :
    c'.ring.Fronted ∧ c'.keptLength ≤ c.keptLength + (onlcr ws.flatten).length := by
  induction ws generalizing c with
  | nil =>
    obtain rfl : c = c' := by simpa only [Events.run_nil, Option.some.injEq] using hr
    exact ⟨h, Nat.le_add_right _ _⟩
  | cons w ws ih =>
    obtain ⟨d, hd, hr'⟩ := Events.run_cons_some hr
    obtain ⟨hf, hle⟩ := consoleStep_keptLength h hd
    obtain ⟨hf', hle'⟩ := ih hf hr'
    refine ⟨hf', ?_⟩
    rw [List.flatten_cons, onlcr_append, List.length_append]
    omega

/-- From any front-aligned state, a run of calls keeps every byte exactly when each call fits. -/
theorem run_lossless_iff (ep : Nat → EpAnswer) (fuel : Nat) (ws : List (List UInt8)) {c : Console}
    (h : c.ring.Fronted) : ∃ c', Events.run (consoleStep ep fuel) c ws = some c' ∧
      (c'.kept = c.kept ++ onlcr ws.flatten ↔
        Events.Guarded (consoleStep ep fuel) FitsBuffer c ws) := by
  induction ws generalizing c with
  | nil => exact ⟨c, rfl, by simp [Events.Guarded]⟩
  | cons w ws ih =>
    obtain ⟨d, hd, hf, hfit, hfull⟩ := consoleStep_spec ep fuel h w
    obtain ⟨c', hr, hiff⟩ := ih hf
    refine ⟨c', by simpa only [Events.run_cons, hd, Option.bind_some] using hr, ?_⟩
    have hguard : Events.Guarded (consoleStep ep fuel) FitsBuffer c (w :: ws) ↔
        FitsBuffer c w ∧ Events.Guarded (consoleStep ep fuel) FitsBuffer d ws := by
      simp only [Events.Guarded, hd, Option.some.injEq, forall_eq']
    rw [hguard, List.flatten_cons, onlcr_append, ← List.append_assoc]
    by_cases hw : FitsBuffer c w
    · rw [← hfit hw, hiff]
      exact ⟨fun hg => ⟨hw, hg⟩, fun hg => hg.2⟩
    · refine ⟨fun he => ?_, fun hg => absurd hg.1 hw⟩
      obtain ⟨hf', hle⟩ := run_keptLength hf hr
      have hlen := congrArg List.length he
      have hlost := hfull hw
      simp only [List.length_append, kept_length hf', kept_length h] at hlen
      omega

/-- From start-up and for every pattern of endpoint answers, every run of calls returns, and what
the endpoint accepted followed by what is pending is everything written, with newlines expanded,
exactly when every call found room for its bytes short of a full buffer. -/
theorem console_lossless_iff (ep : Nat → EpAnswer) (fuel : Nat) (ws : List (List UInt8)) :
    ∃ c, Events.run (consoleStep ep fuel) start ws = some c ∧
      (c.accepted ++ c.ring.pending = onlcr ws.flatten ↔
        Events.Guarded (consoleStep ep fuel) FitsBuffer start ws) :=
  run_lossless_iff ep fuel ws RingBuffer.empty_fronted

/-- One write of 64 letters to an endpoint that accepts everything leaves no byte anywhere. -/
theorem full_buffer_forgotten : ∃ c,
    Events.run (consoleStep (fun _ => .accepts) 8) start [List.replicate 64 0x41] = some c ∧
      c.accepted ++ c.ring.pending = [] ∧
      onlcr [List.replicate 64 0x41].flatten = List.replicate 64 0x41 :=
  ⟨_, rfl, by decide, by decide⟩

end Console

end UsbSpdt
