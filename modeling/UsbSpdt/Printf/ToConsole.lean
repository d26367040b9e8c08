import UsbSpdt.Console.Lossless
import UsbSpdt.Printf.Refinement

/-!
# Formatted output to the console

`myprintf` writes its text to the console with one call of `_write` for each character, so that
every character makes one attempt to send all that is pending. A character adds at most two bytes to
these: the buffer overflows where the endpoint refuses too often in a row.
-/

namespace UsbSpdt

namespace Console

variable (ep : Nat → EpAnswer) (fuel : Nat)

theorem onlcr_singleton_length (b : UInt8) :
    0 < (onlcr [b]).length ∧ (onlcr [b]).length ≤ 2 := by
  rw [onlcr_cons]
  split
  · exact ⟨Nat.two_pos, Nat.le_refl 2⟩
  · exact ⟨Nat.one_pos, Nat.le_succ 1⟩

/-- One byte with room: an attempt that succeeds leaves nothing pending. -/
theorem consoleStep_byte {c c' : Console} (h : c.ring.Fronted) {b : UInt8}
    (hfit : FitsBuffer c [b]) (hc : consoleStep ep fuel c [b] = some c') :
    c'.attempts = c.attempts + 1 ∧ (ep c.attempts = .accepts → c'.ring.size = 0) ∧
      (ep c.attempts ≠ .accepts → c'.ring.size = c.ring.size + (onlcr [b]).length) := by
  have hsize := RingBuffer.enq_size h (onlcr [b])
  rw [Nat.mod_eq_of_lt hfit] at hsize
  have hpos := (onlcr_singleton_length b).1
  rw [consoleStep, write_eq ep fuel h, Option.map_some, Option.some.injEq] at hc
  subst hc
  unfold sendPacket
  cases hep : ep c.attempts with
  | unconfigured => exact ⟨rfl, by simp, fun _ => hsize⟩
  | busy => exact ⟨rfl, by simp, fun _ => hsize⟩
  | accepts =>
    have hne : (c.ring.enq (onlcr [b])).size ≠ 0 := by omega
    refine ⟨rfl, fun _ => ?_, by simp⟩
    simp [hne, RingBuffer.reset]

/-- Attempts in a row that the endpoint may refuse. -/
def Patience (ep : Nat → EpAnswer) : Prop := ∀ n, ∃ k < 31, ep (n + k) = .accepts

/-- All that is pending was written since the last attempt that succeeded. -/
structure Backlog (c : Console) (refused : Nat) : Prop where
  fronted : c.ring.Fronted
  since : refused ≤ c.attempts
  size : c.ring.size ≤ 2 * refused
  none : ∀ i < refused, ep (c.attempts - refused + i) ≠ .accepts

theorem Backlog.step {c c' : Console} {refused : Nat} (h : Backlog ep c refused) {b : UInt8}
    (hfit : FitsBuffer c [b]) (hc : consoleStep ep fuel c [b] = some c') :
    ∃ refused', Backlog ep c' refused' := by
  obtain ⟨hattempts, haccepts, hrefuses⟩ := consoleStep_byte ep fuel h.fronted hfit hc
  have hfronted := (consoleStep_keptLength h.fronted hc).1
  by_cases hep : ep c.attempts = .accepts
  · exact ⟨0, hfronted, Nat.zero_le _, Nat.le_of_eq (haccepts hep), fun i hi => by omega⟩
  · refine ⟨refused + 1, hfronted, ?_, ?_, ?_⟩
    · have := h.since
      omega
    · have := h.size
      have := (onlcr_singleton_length b).2
      rw [hrefuses hep]
      omega
    · intro i hi
      have hsince := h.since
      have hindex : c'.attempts - (refused + 1) + i = c.attempts - refused + i := by omega
      rw [hindex]
      by_cases hlast : i = refused
      · have : c.attempts - refused + i = c.attempts := by omega
        rwa [this]
      · exact h.none i (by omega)

theorem Backlog.fits {c : Console} {refused : Nat} (h : Backlog ep c refused)
    (hep : Patience ep) (b : UInt8) : FitsBuffer c [b] := by
  have hbound : refused ≤ 30 := by
    by_contra hlt
    obtain ⟨k, hk, haccepts⟩ := hep (c.attempts - refused)
    exact h.none k (by omega) haccepts
  have hsize := h.size
  have hbyte := (onlcr_singleton_length b).2
  simp only [FitsBuffer, bufferSize]
  omega

theorem guarded_of_patience (hep : Patience ep) (text : List UInt8) {c : Console} {refused : Nat}
    (h : Backlog ep c refused) :
    Events.Guarded (consoleStep ep fuel) FitsBuffer c (text.map fun b => [b]) := by
  induction text generalizing c refused with
  | nil => trivial
  | cons b text ih =>
    have hfit := h.fits ep hep b
    refine ⟨hfit, fun c' hc => ?_⟩
    obtain ⟨refused', hnext⟩ := h.step ep fuel hfit hc
    exact ih hnext

theorem start_backlog : Backlog ep start 0 :=
  ⟨RingBuffer.empty_fronted, Nat.le_refl _, Nat.le_refl _, fun i hi => by omega⟩

/-- Newlines that are refused fill the buffer two bytes at a time. -/
theorem not_guarded_of_refusals {c : Console} (h : c.ring.Fronted) {m k : Nat}
    (hrefuses : ∀ i < m, ep (c.attempts + i) ≠ .accepts) (hsize : 62 ≤ c.ring.size + 2 * m)
    (hk : m < k) : ¬ Events.Guarded (consoleStep ep fuel) FitsBuffer c
      ((List.replicate k newline).map fun b => [b]) := by
  obtain ⟨k, rfl⟩ := Nat.exists_eq_succ_of_ne_zero (Nat.ne_zero_of_lt hk)
  induction m generalizing c k with
  | zero =>
    rintro ⟨hfit, -⟩
    have hlen : (onlcr [newline]).length = 2 := rfl
    simp only [FitsBuffer, hlen, bufferSize] at hfit
    omega
  | succ m ih =>
    rintro ⟨hfit, hrest⟩
    obtain ⟨c', hc, hfronted, -, -⟩ := consoleStep_spec ep fuel h [newline]
    obtain ⟨hattempts, -, hpending⟩ := consoleStep_byte ep fuel h hfit hc
    have hsize' := hpending (hrefuses 0 (Nat.succ_pos m))
    have hlen : (onlcr [newline]).length = 2 := rfl
    obtain ⟨k, rfl⟩ := Nat.exists_eq_succ_of_ne_zero (n := k) (by omega)
    refine ih hfronted ?_ (by omega) k (by omega) (hrest c' hc)
    intro i hi
    have hnext := hrefuses (i + 1) (by omega)
    rwa [hattempts, Nat.add_assoc, Nat.add_comm 1]

theorem run_bytes {text : List UInt8} {c : Console} (h : c.ring.Fronted)
    (hg : Events.Guarded (consoleStep ep fuel) FitsBuffer c (text.map fun b => [b])) :
    ∃ c', Events.run (consoleStep ep fuel) c (text.map fun b => [b]) = some c' ∧
      c'.ring.Fronted ∧ c'.attempts = c.attempts + text.length := by
  induction text generalizing c with
  | nil => exact ⟨c, rfl, h, rfl⟩
  | cons b text ih =>
    obtain ⟨d, hd, hfronted, -, -⟩ := consoleStep_spec ep fuel h [b]
    obtain ⟨hattempts, -, -⟩ := consoleStep_byte ep fuel h hg.1 hd
    obtain ⟨c', hrun, hfronted', hattempts'⟩ := ih hfronted (hg.2 d hd)
    refine ⟨c', ?_, hfronted', ?_⟩
    · rw [List.map_cons, Events.run_cons, hd]
      exact hrun
    · rw [hattempts', hattempts, List.length_cons, Nat.add_assoc, Nat.add_comm 1]

/-- Newlines after a number of letters, more than fit in the buffer. -/
def flood (n : Nat) : List UInt8 := List.replicate n 0x41 ++ List.replicate 32 newline

theorem patience_of_guarded (hall : ∀ n, Events.Guarded (consoleStep ep fuel) FitsBuffer start
    ((flood n).map fun b => [b])) : Patience ep := by
  intro n
  by_contra hnone
  have hg := hall n
  rw [flood, List.map_append] at hg
  obtain ⟨c, hrun, hfronted, hattempts⟩ :=
    run_bytes ep fuel RingBuffer.empty_fronted hg.of_append
  refine not_guarded_of_refusals ep fuel hfronted (m := 31) (k := 32) ?_ (by omega) (by omega)
    (hg.after hrun)
  intro i hi haccepts
  have hn : c.attempts = n := by
    rw [hattempts, List.length_replicate]
    exact Nat.zero_add n
  rw [hn] at haccepts
  exact hnone ⟨i, hi, haccepts⟩

end Console

namespace Printf

variable (ep : Nat → EpAnswer) (fuel : Nat) (strings : Strings)
  (stack : Vector UInt8 printBufLen)

/-- `_write(0, &c, 1)`. -/
def putchar (c : Console) (b : UInt8) : Option Console := Console.consoleStep ep fuel c [b]

def myprintf (format : List UInt8) (args : List UInt32) (c : Console) : Option (Nat × Console) :=
  print (putchar ep fuel) strings stack format args 0 c

/-- A call of `myprintf`. -/
structure Call where
  format : Format
  args : List UInt32

def Call.text (call : Call) : Option (List UInt8) := render strings call.format.pieces call.args

def callStep (c : Console) (call : Call) : Option Console :=
  (myprintf ep fuel strings stack (call.format.spell ++ [0]) call.args c).map Prod.snd

theorem foldlM_putchar (text : List UInt8) (c : Console) : text.foldlM (putchar ep fuel) c =
    Events.run (Console.consoleStep ep fuel) c (text.map fun b => [b]) := by
  induction text generalizing c with
  | nil => rfl
  | cons b text ih =>
    simp only [List.foldlM_cons, List.map_cons, Events.run_cons, putchar, ih, bind]

theorem callStep_eq {call : Call} {text : List UInt8} (h : call.text strings = some text)
    (c : Console) : callStep ep fuel strings stack c call =
      Events.run (Console.consoleStep ep fuel) c (text.map fun b => [b]) := by
  rw [Call.text] at h
  rw [callStep, myprintf, print_eq, h, Option.bind_some, ← foldlM_putchar, Option.map_map]
  exact Option.map_id'

theorem run_calls {calls : List Call} {texts : List (List UInt8)}
    (h : calls.mapM (Call.text strings) = some texts) (c : Console) :
    Events.run (callStep ep fuel strings stack) c calls =
      Events.run (Console.consoleStep ep fuel) c (texts.flatten.map fun b => [b]) := by
  induction calls generalizing texts c with
  | nil =>
    obtain rfl : [] = texts := by simpa using h
    rfl
  | cons call calls ih =>
    simp only [List.mapM_cons, bind, Option.bind_eq_some_iff, pure, Option.some.injEq] at h
    obtain ⟨text, htext, texts, htexts, rfl⟩ := h
    rw [Events.run_cons, callStep_eq ep fuel strings stack htext, List.flatten_cons,
      List.map_append, Events.run_append]
    congr 1
    funext c'
    exact ih htexts c'

theorem render_replicate (n : Nat) {c : UInt8} (hc : c ≠ 0 ∧ c ≠ 0x25) (pieces : List Piece)
    (args : List UInt32) : render strings (List.replicate n (.char c hc) ++ pieces) args =
      (render strings pieces args).map (List.replicate n c ++ ·) := by
  induction n with
  | zero => simp
  | succ n ih =>
    rw [List.replicate_succ, List.cons_append, render, ih, Option.map_map]
    rfl

/-- A call that prints letters and then newlines. -/
def floodCall (n : Nat) : Call where
  format := ⟨List.replicate n (.char 0x41 (by decide)) ++
    List.replicate 32 (.char Console.newline (by decide)), false⟩
  args := []

theorem text_floodCall (n : Nat) : (floodCall n).text strings = some (Console.flood n) := by
  have hnewlines := render_replicate strings 32 (c := Console.newline) (by decide) [] []
  rw [List.append_nil] at hnewlines
  rw [Call.text, floodCall, render_replicate, hnewlines, render, Option.map_some, Option.map_some,
    List.append_nil, Console.flood]

/-- Nothing that `myprintf` prints is ever lost, and nothing comes out of order, exactly when the
endpoint never refuses 31 attempts in a row. -/
theorem myprintf_lossless_iff : (∀ calls texts, calls.mapM (Call.text strings) = some texts →
    ∃ c, Events.run (callStep ep fuel strings stack) .start calls = some c ∧
      c.accepted ++ c.ring.pending = Console.onlcr texts.flatten) ↔ Console.Patience ep := by
  have hflat : ∀ text : List UInt8, (text.map fun b => [b]).flatten = text := by
    intro text
    induction text with
    | nil => rfl
    | cons b text ih => rw [List.map_cons, List.flatten_cons, ih]; rfl
  constructor
  · intro hall
    refine Console.patience_of_guarded ep fuel fun n => ?_
    have hone : [floodCall n].mapM (Call.text strings) = some [Console.flood n] := by
      simp [text_floodCall]
    obtain ⟨c, hrun, hkept⟩ := hall _ _ hone
    obtain ⟨c', hrun', hiff⟩ := Console.console_lossless_iff ep fuel
      ((Console.flood n).map fun b => [b])
    rw [run_calls ep fuel strings stack hone] at hrun
    simp only [List.flatten_cons, List.flatten_nil, List.append_nil] at hrun hkept
    rw [hrun, Option.some.injEq] at hrun'
    rw [hflat, ← hrun'] at hiff
    exact hiff.mp hkept
  · intro hep calls texts htexts
    obtain ⟨c, hrun, hiff⟩ := Console.console_lossless_iff ep fuel
      (texts.flatten.map fun b => [b])
    refine ⟨c, by rw [run_calls ep fuel strings stack htexts, hrun], ?_⟩
    rw [hflat] at hiff
    apply hiff.mpr
    exact Console.guarded_of_patience ep fuel hep texts.flatten (Console.start_backlog ep)

end Printf

end UsbSpdt
