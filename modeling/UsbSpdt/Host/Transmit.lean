import UsbSpdt.Library.Substr

/-!
# The transmit loop

The loop of `send_packet` that writes a packet to the OUT endpoint in as many calls of `bulk_write`
as it takes, over the elements of any list: bytes, or their positions.
-/

namespace UsbSpdt.AttenSwitch

/-- Between two calls: the running total, what the next call offers, and what the device has
accepted up to now. -/
structure Transmission (α : Type) where
  txTot : Int
  bytes : List α
  accepted : List α

namespace Transmission

variable {α : Type}

def start (packet : List α) : Transmission α := ⟨0, packet, []⟩

/-- A call of `bulk_write` that returns `ret`. -/
def write (packet : List α) (t : Transmission α) (ret : Int) : Transmission α where
  txTot := t.txTot + ret
  bytes := (Substr.rest packet (t.txTot + ret)).getD []
  accepted := t.accepted ++ t.bytes.take ret.toNat

def notSent (packet : List α) (t : Transmission α) : Int := packet.length - t.txTot

/-- After `n` calls, the call number `k` returning `ret k`, however long the loop goes on. -/
def after (packet : List α) (ret : Nat → Int) : Nat → Transmission α
  | 0 => start packet
  | n + 1 => (after packet ret n).write packet (ret n)

/-- The loop makes call number `n`: it is not over after any of the calls before. -/
def Calls (packet : List α) (ret : Nat → Int) (n : Nat) : Prop :=
  ∀ k, 0 < k → k ≤ n → 0 < notSent packet (after packet ret k)

/-- The loop is over after `n` calls. -/
def Ends (packet : List α) (ret : Nat → Int) (n : Nat) : Prop :=
  0 < n ∧ (∀ k, 0 < k → k < n → 0 < notSent packet (after packet ret k)) ∧
    notSent packet (after packet ret n) ≤ 0

/-- A call accepts no more than it is offered; a negative number is an error. -/
def Accepts (packet : List α) (ret : Nat → Int) : Prop :=
  ∀ n, Calls packet ret n → ret n ≤ (after packet ret n).bytes.length

/-- What the first `n` results add up to. -/
def total (ret : Nat → Int) : Nat → Int
  | 0 => 0
  | n + 1 => total ret n + ret n

theorem txTot_after (packet : List α) (ret : Nat → Int) (n : Nat) :
    (after packet ret n).txTot = total ret n := by
  induction n with
  | zero => rfl
  | succ n ih =>
    simp only [after, write, total, ih]

theorem notSent_after (packet : List α) (ret : Nat → Int) (n : Nat) :
    notSent packet (after packet ret n) = packet.length - total ret n := by
  rw [notSent, txTot_after]

theorem Ends.calls {packet : List α} {ret : Nat → Int} {m n : Nat} (h : Ends packet ret n)
    (hmn : m < n) : Calls packet ret m :=
  fun k h0 hk => h.2.1 k h0 (Nat.lt_of_le_of_lt hk hmn)

/-! ### Bytes and positions -/

theorem after_map {β : Type} (f : α → β) (packet : List α) (ret : Nat → Int) (n : Nat) :
    after (packet.map f) ret n =
      ⟨(after packet ret n).txTot, (after packet ret n).bytes.map f,
        (after packet ret n).accepted.map f⟩ := by
  induction n with
  | zero => rfl
  | succ n ih =>
    simp only [after, ih, write, Substr.rest_map, List.map_append, List.map_take]
    congr 1
    cases Substr.rest packet ((after packet ret n).txTot + ret n) <;> rfl

/-- The positions of the elements of a packet, to be transmitted in its place. -/
def positions (packet : List α) : List Nat := List.range packet.length

theorem map_positions [Inhabited α] (packet : List α) :
    (positions packet).map (fun k => packet.getD k default) = packet := by
  apply List.ext_getElem
  · simp [positions]
  · intro k hk hk'
    simp [positions, hk']

/-- What is accepted of a packet is what stands at the positions accepted. -/
theorem accepted_positions [Inhabited α] (packet : List α) (ret : Nat → Int) (n : Nat) :
    (after packet ret n).accepted =
      (after (positions packet) ret n).accepted.map fun k => packet.getD k default := by
  have h := after_map (fun k => packet.getD k default) (positions packet) ret n
  rw [map_positions] at h
  exact congrArg accepted h

theorem calls_positions (packet : List α) {ret : Nat → Int} {n : Nat} :
    Calls (positions packet) ret n ↔ Calls packet ret n := by
  simp only [Calls, notSent_after, positions, List.length_range]

theorem accepts_positions [Inhabited α] {packet : List α} {ret : Nat → Int}
    (h : Accepts packet ret) : Accepts (positions packet) ret := by
  intro n hn
  have hle := h n ((calls_positions packet).mp hn)
  have hmap := after_map (fun k => packet.getD k default) (positions packet) ret n
  rw [map_positions] at hmap
  rwa [hmap, List.length_map] at hle

/-! ### Without an error -/

/-- As long as no call fails, the total is the number of elements accepted, and the next call offers
the others. -/
structure InStep (packet : List α) (t : Transmission α) : Prop where
  nonneg : 0 ≤ t.txTot
  le : t.txTot ≤ packet.length
  accepted : t.accepted = packet.take t.txTot.toNat
  bytes : t.bytes = packet.drop t.txTot.toNat

theorem inStep_start (packet : List α) : InStep packet (start packet) where
  nonneg := Int.le_refl 0
  le := Int.natCast_nonneg _
  accepted := List.take_zero.symm
  bytes := rfl

theorem InStep.write {packet : List α} {t : Transmission α} (h : InStep packet t) {ret : Int}
    (h0 : 0 ≤ ret) (hret : ret ≤ t.bytes.length) : InStep packet (t.write packet ret) := by
  obtain ⟨m, hm⟩ := Int.eq_ofNat_of_zero_le h.nonneg
  obtain ⟨r, rfl⟩ := Int.eq_ofNat_of_zero_le h0
  have hle := h.le
  rw [h.bytes, hm, Int.toNat_natCast, List.length_drop] at hret
  have hsum : t.txTot + (r : Int) = (m + r : Nat) := by omega
  refine ⟨?_, ?_, ?_, ?_⟩
  · change 0 ≤ t.txTot + (r : Int)
    omega
  · change t.txTot + (r : Int) ≤ packet.length
    omega
  · change t.accepted ++ t.bytes.take (r : Int).toNat = packet.take (t.txTot + (r : Int)).toNat
    rw [h.accepted, h.bytes, hsum, hm, Int.toNat_natCast, Int.toNat_natCast, Int.toNat_natCast,
      List.take_add]
  · change (Substr.rest packet (t.txTot + (r : Int))).getD [] =
      packet.drop (t.txTot + (r : Int)).toNat
    rw [hsum, Substr.rest_natCast (by omega), Option.getD_some, Int.toNat_natCast]

theorem inStep_after {packet : List α} {ret : Nat → Int} (hret : Accepts packet ret) {n : Nat}
    (h0 : ∀ k, k < n → 0 ≤ ret k) (hcalls : ∀ k, k < n → Calls packet ret k) :
    InStep packet (after packet ret n) := by
  induction n with
  | zero => exact inStep_start packet
  | succ n ih =>
    have hbefore := ih (fun k hk => h0 k (Nat.lt_succ_of_lt hk))
      (fun k hk => hcalls k (Nat.lt_succ_of_lt hk))
    exact hbefore.write (h0 n n.lt_succ_self) (hret n (hcalls n n.lt_succ_self))

/-! ### With an error -/

/-- The total falls behind what was accepted with the first error, and stays behind. -/
theorem txTot_behind {packet : List α} {ret : Nat → Int} (hret : Accepts packet ret) {n : Nat}
    (hcalls : ∀ k, k < n → Calls packet ret k) :
    (after packet ret n).txTot ≤ (after packet ret n).accepted.length ∧
      ((∃ k, k < n ∧ ret k < 0) →
        (after packet ret n).txTot < (after packet ret n).accepted.length) := by
  induction n with
  | zero =>
    refine ⟨Int.le_refl 0, ?_⟩
    rintro ⟨k, hk, _⟩
    exact absurd hk (Nat.not_lt_zero k)
  | succ n ih =>
    obtain ⟨hle, hlt⟩ := ih fun k hk => hcalls k (Nat.lt_succ_of_lt hk)
    have hoffer := hret n (hcalls n n.lt_succ_self)
    have htotal : (after packet ret (n + 1)).txTot = (after packet ret n).txTot + ret n := rfl
    have hlength : (after packet ret (n + 1)).accepted.length =
        (after packet ret n).accepted.length + (ret n).toNat := by
      change ((after packet ret n).accepted ++
        (after packet ret n).bytes.take (ret n).toNat).length = _
      rw [List.length_append, List.length_take, Nat.min_eq_left (by omega)]
    rw [htotal, hlength]
    refine ⟨by omega, ?_⟩
    rintro ⟨k, hk, hneg⟩
    rcases Nat.lt_succ_iff_lt_or_eq.mp hk with hk | rfl
    · have := hlt ⟨k, hk, hneg⟩
      omega
    · omega

end Transmission

end UsbSpdt.AttenSwitch
