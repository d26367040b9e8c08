import Mathlib.Data.Option.Basic
import UsbSpdt.Library.SignedWord

/-!
# Tick conversions

`us2ticks`, `ns2ticks`, `tics2us` and `tics2ms` of `hiresTimer.c`. An `unsigned long` of the target
has 32 bits, so that only the deltas are wider.
-/

namespace UsbSpdt

/-- As `setupClocks` of `bsp.c` sets it. -/
def systemCoreClock : UInt32 := 96000000

def coreClockScale : UInt32 := 2

def us2ticks (us : UInt32) : UInt32 :=
  10 * us * (systemCoreClock / (coreClockScale * 1000)) / 10000

def ns2ticks (ns : UInt32) : UInt32 :=
  ns * (systemCoreClock / (coreClockScale * 10000)) / 100000

/-- A 32-bit operand of an expression in 64-bit signed arithmetic. -/
def widened (x : UInt32) : Int64 := x.toUInt64.toInt64

/-- What `if(delta_tics < 0) delta_tics -= delta_tics;` leaves in the delta. -/
def foldedTics (deltaTics : Int64) : Option Int64 :=
  if deltaTics < 0 then SignedWord.sub deltaTics deltaTics else some deltaTics

/-- The body that `tics2us` and `tics2ms` share, `unit` being the number of units in a second. There
is no result where signed arithmetic overflows. -/
def ticsTo (unit : UInt32) (deltaTics : Int64) : Option Int32 := do
  let delta ← foldedTics deltaTics
  if widened (systemCoreClock / (coreClockScale * unit)) < delta then
    let scaled ← SignedWord.mul (← SignedWord.mul delta (widened unit)) (widened coreClockScale)
    let rval : UInt32 := (scaled / widened systemCoreClock).toUInt64.toUInt32
    return rval.toInt32
  else
    return 1

def tics2us (deltaTics : Int64) : Option Int32 := ticsTo 1000000 deltaTics

def tics2ms (deltaTics : Int64) : Option Int32 := ticsTo 1000 deltaTics

/-! ### Microseconds and nanoseconds to ticks -/

theorem us2ticks_toNat (us : UInt32) :
    (us2ticks us).toNat = 480000 * us.toNat % 4294967296 / 10000 := by
  have hscale : systemCoreClock / (coreClockScale * 1000) = 48000 := by decide
  rw [us2ticks, hscale, UInt32.toNat_div, UInt32.toNat_mul, UInt32.toNat_mul]
  change 10 * us.toNat % 4294967296 * 48000 % 4294967296 / 10000 = _
  omega

theorem ns2ticks_toNat (ns : UInt32) :
    (ns2ticks ns).toNat = 4800 * ns.toNat % 4294967296 / 100000 := by
  have hscale : systemCoreClock / (coreClockScale * 10000) = 4800 := by decide
  rw [ns2ticks, hscale, UInt32.toNat_div, UInt32.toNat_mul, Nat.mul_comm]
  rfl

/-- A wrapped product divided is the product divided only where it did not wrap. -/
theorem mod_div_eq_iff {n w c : Nat} (hc : 0 < c) (hcw : c ≤ w) :
    n % w / c = n / c ↔ n < w := by
  constructor
  · intro h
    apply Nat.lt_of_not_le
    intro hwn
    have hle : n % w + c ≤ n := by
      have hsub := Nat.mod_le (n - w) w
      rw [Nat.mod_eq_sub_mod hwn]
      omega
    have hlt : n % w / c < n / c := by
      have hdiv := Nat.div_le_div_right (c := c) hle
      rw [Nat.add_div_right _ hc] at hdiv
      omega
    omega
  · intro h
    rw [Nat.mod_eq_of_lt h]

theorem us2ticks_eq_iff (us : UInt32) :
    (us2ticks us).toNat = 48 * us.toNat ↔ 480000 * us.toNat < 4294967296 := by
  have hexact : 48 * us.toNat = 480000 * us.toNat / 10000 := by omega
  rw [us2ticks_toNat, hexact]
  exact mod_div_eq_iff (by decide) (by decide)

theorem ns2ticks_eq_iff (ns : UInt32) :
    (ns2ticks ns).toNat = 48 * ns.toNat / 1000 ↔ 4800 * ns.toNat < 4294967296 := by
  have hexact : 48 * ns.toNat / 1000 = 4800 * ns.toNat / 100000 := by omega
  rw [ns2ticks_toNat, hexact]
  exact mod_div_eq_iff (by decide) (by decide)

/-! ### Deltas to time -/

theorem foldedTics_eq (d : Int64) : foldedTics d = some (if d.toInt < 0 then 0 else d) := by
  have hneg : d < 0 ↔ d.toInt < 0 := Int64.lt_iff_toInt_lt
  simp only [foldedTics, hneg, SignedWord.sub_self]
  split <;> rfl

/-- A unit of `per` ticks, and the threshold below which the result is one. -/
structure TicsPerUnit (unit : UInt32) (per : Nat) : Prop where
  threshold : (widened (systemCoreClock / (coreClockScale * unit))).toInt = per
  rate : unit.toNat * per = 48000000
  slow : 48 ≤ per

theorem microsecond : TicsPerUnit 1000000 48 := ⟨by decide, by decide, by decide⟩

theorem millisecond : TicsPerUnit 1000 48000 := ⟨by decide, by decide, by decide⟩

theorem widened_toInt (x : UInt32) : (widened x).toInt = x.toNat := by
  have hlt := x.toNat_lt
  rw [widened, ← Int64.toInt_toBitVec, UInt64.toBitVec_toInt64, BitVec.toInt_eq_toNat_of_lt]
  · simp
  · simp
    omega

/-- The quotient survives the way through an `unsigned` to the signed result. -/
theorem narrowed_toInt {q : Int64} (h0 : 0 ≤ q.toInt) (hq : q.toInt < 2147483648) :
    q.toUInt64.toUInt32.toInt32.toInt = q.toInt := by
  have hnat : q.toUInt64.toNat = q.toInt.toNat :=
    Int64.toNat_toUInt64_of_le (Int64.le_iff_toInt_le.mpr (by simpa using h0))
  rw [← Int32.toInt_toBitVec, UInt32.toBitVec_toInt32, BitVec.toInt_eq_toNat_of_lt]
  · simp only [UInt32.toNat_toBitVec, UInt64.toNat_toUInt32, hnat]
    omega
  · simp only [UInt32.toNat_toBitVec, UInt64.toNat_toUInt32, hnat]
    omega

section Folded

variable {unit : UInt32} {per : Nat} (hu : TicsPerUnit unit per) {n : Nat}
  (hn : n < 48 * 2147483648)

include hu

theorem scaled_div (n : Nat) : n * unit.toNat * 2 / 96000000 = n / per := by
  have hclock : 96000000 = per * (unit.toNat * 2) := by
    have hrate := hu.rate
    rw [← Nat.mul_assoc, Nat.mul_comm per]
    omega
  have hpos : 0 < unit.toNat * 2 := by
    apply Nat.pos_of_ne_zero
    intro hzero
    rw [hzero] at hclock
    omega
  rw [Nat.mul_assoc, hclock, Nat.mul_div_mul_right _ _ hpos]

include hn

/-- Neither product leaves the range of the signed word. -/
theorem scaled_exact : ∃ a b, SignedWord.mul (Int64.ofNat n) (widened unit) = some a ∧
    SignedWord.mul a (widened coreClockScale) = some b ∧
    b.toInt = (n * unit.toNat * 2 : Nat) := by
  have hdelta : (Int64.ofNat n).toInt = n := Int64.toInt_ofNat_of_lt (by omega)
  have hunit : unit.toNat ≤ 1000000 := by
    have hle := Nat.mul_le_mul_left unit.toNat hu.slow
    have hrate := hu.rate
    omega
  have hprod : n * unit.toNat ≤ n * 1000000 := Nat.mul_le_mul_left n hunit
  obtain ⟨a, ha, hav⟩ := SignedWord.ofExact_ne_none (z := (n * unit.toNat : Nat)) (by omega)
  obtain ⟨b, hb, hbv⟩ := SignedWord.ofExact_ne_none (z := (n * unit.toNat * 2 : Nat)) (by omega)
  refine ⟨a, b, ?_, ?_, hbv⟩
  · rw [SignedWord.mul, hdelta, widened_toInt, ← Int.natCast_mul, ha]
  · rw [SignedWord.mul, hav, widened_toInt]
    exact hb

theorem ticsTo_folded {d : Int64} (hd : foldedTics d = some (Int64.ofNat n)) :
    (ticsTo unit d).map Int32.toInt = some ((max 1 (n / per) : Nat) : Int) := by
  have hdelta : (Int64.ofNat n).toInt = n := Int64.toInt_ofNat_of_lt (by omega)
  have hthr : widened (systemCoreClock / (coreClockScale * unit)) < Int64.ofNat n ↔ per < n := by
    rw [Int64.lt_iff_toInt_lt, hu.threshold, hdelta]
    omega
  simp only [ticsTo, hd, Option.bind_eq_bind, Option.bind_some, hthr]
  split
  case isTrue hgt =>
    obtain ⟨a, b, hmul, hscaled, hb⟩ := scaled_exact hu hn
    have hquot : (b / widened systemCoreClock).toInt = (n / per : Nat) := by
      rw [Int64.toInt_div_of_ne_right _ _ (by decide), hb, widened_toInt]
      change ((n * unit.toNat * 2 : Nat) : Int).tdiv (96000000 : Nat) = _
      rw [← Int.ofNat_tdiv, scaled_div hu]
    have hone : 1 ≤ n / per := (Nat.one_le_div_iff (by have := hu.slow; omega)).mpr (by omega)
    have hsmall : n / per < 2147483648 :=
      Nat.lt_of_le_of_lt (Nat.div_le_div_left hu.slow (by decide)) (by omega)
    simp only [hmul, hscaled, Option.bind_some, Option.pure_def, Option.map_some]
    rw [narrowed_toInt (by omega) (by omega), hquot, Nat.max_eq_right hone]
  case isFalse hle =>
    have hmin : n / per ≤ 1 := Nat.div_le_of_le_mul (by omega)
    rw [Nat.max_eq_left hmin]
    rfl

end Folded

theorem foldedTics_ofNat (d : Int64) :
    foldedTics d = some (Int64.ofNat d.toInt.toNat) := by
  rw [foldedTics_eq, Option.some_inj, ← Int64.toInt_inj]
  have hlt := d.toInt_lt
  rw [Int64.toInt_ofNat_of_lt (by omega)]
  split
  · rw [Int64.toInt_zero]
    omega
  · omega

theorem ticsTo_value {unit : UInt32} {per : Nat} (hu : TicsPerUnit unit per) {d : Int64}
    (hd : d.toInt.natAbs < 48 * 2147483648) :
    (ticsTo unit d).map Int32.toInt = some ((max 1 (d.toInt.toNat / per) : Nat) : Int) :=
  ticsTo_folded hu (by omega) (foldedTics_ofNat d)

/-- The length of a delta, in microseconds and in milliseconds, whatever its sign. -/
def ByMagnitude (d : Int64) : Prop :=
  (tics2us d).map Int32.toInt = some ((max 1 (d.toInt.natAbs / 48) : Nat) : Int) ∧
    (tics2ms d).map Int32.toInt = some ((max 1 (d.toInt.natAbs / 48000) : Nat) : Int)

instance (d : Int64) : Decidable (ByMagnitude d) := inferInstanceAs (Decidable (_ ∧ _))

theorem toInt_neg_inRange {d : Int64} (hd : d.toInt.natAbs < 48 * 2147483648) :
    (-d).toInt = -d.toInt := by
  rw [Int64.toInt_neg]
  exact Int.bmod_eq_of_le (by omega) (by omega)

theorem ticsTo_eq_iff {unit : UInt32} {per : Nat} (hu : TicsPerUnit unit per) {d e : Int64}
    (hd : d.toInt.natAbs < 48 * 2147483648) (he : e.toInt.natAbs < 48 * 2147483648) :
    ticsTo unit d = ticsTo unit e ↔
      max 1 (d.toInt.toNat / per) = max 1 (e.toInt.toNat / per) := by
  have hinj : Function.Injective (Option.map Int32.toInt) :=
    Option.map_injective fun _ _ => Int32.toInt_inj.mp
  rw [← hinj.eq_iff, ticsTo_value hu hd, ticsTo_value hu he, Option.some_inj, Int.natCast_inj]

/-! ### The conversions as a whole -/

/-- The scale factor of 10000 costs exactness from 8948 microseconds on, that of 100000 from 894785
nanoseconds on. -/
theorem ticks_exact_iff (us ns : UInt32) (hus : 1 ≤ us.toNat) :
    ((us2ticks us).toNat = 48 * us.toNat ∧
        (tics2us (widened (us2ticks us))).map Int32.toInt = some (us.toNat : Int) ↔
      480000 * us.toNat < 4294967296) ∧
    ((ns2ticks ns).toNat = 48 * ns.toNat / 1000 ↔ 4800 * ns.toNat < 4294967296) := by
  refine ⟨⟨fun h => (us2ticks_eq_iff us).mp h.1, fun h => ?_⟩, ns2ticks_eq_iff ns⟩
  have hticks := (us2ticks_eq_iff us).mpr h
  have hwide : (widened (us2ticks us)).toInt = (48 * us.toNat : Nat) := by
    rw [widened_toInt, hticks]
  refine ⟨hticks, ?_⟩
  rw [tics2us, ticsTo_value microsecond (by omega), hwide, Int.toNat_natCast,
    Nat.mul_div_cancel_left _ (by decide), Nat.max_eq_right hus]

theorem ticks_exact_bounds :
    (us2ticks 8947).toNat = 48 * 8947 ∧
      (tics2us (widened (us2ticks 8947))).map Int32.toInt = some 8947 ∧
      (ns2ticks 894784).toNat = 48 * 894784 / 1000 := by
  obtain ⟨hmicro, hnano⟩ := ticks_exact_iff 8947 894784 (by decide)
  obtain ⟨hticks, hback⟩ := hmicro.mpr (by decide)
  exact ⟨hticks, hback, hnano.mpr (by decide)⟩

theorem ticks_wrapped :
    ¬ ∀ us : UInt32, 1 ≤ us.toNat → 48 * us.toNat < 4294967296 →
      (us2ticks us).toNat = 48 * us.toNat := by
  intro h
  have hwrong : (us2ticks 8948).toNat = 7 := by decide
  have hright := h 8948 (by decide) (by decide)
  rw [hwrong] at hright
  exact absurd hright (by decide)

/-- In a delta below `2 ^ 31` microseconds nothing overflows, and no such delta gives zero. It is
converted by its magnitude unless it is negative and of two microseconds or more. -/
theorem tics_by_magnitude_iff (d : Int64) (hd : d.toInt.natAbs < 48 * 2147483648) :
    (ByMagnitude d ↔ -96 < d.toInt) ∧
    (∃ us ms : Int32, tics2us d = some us ∧ tics2ms d = some ms ∧ 0 < us.toInt ∧ 0 < ms.toInt) ∧
    (tics2us (-d) = tics2us d ∧ tics2ms (-d) = tics2ms d ↔ d.toInt.natAbs < 96) ∧
    (-96 < d.toInt → ∀ e : Int64, -96 < e.toInt → e.toInt.natAbs ≤ d.toInt.natAbs →
      ∀ us us' ms ms' : Int32, tics2us e = some us → tics2us d = some us' →
        tics2ms e = some ms → tics2ms d = some ms' →
        us.toInt ≤ us'.toInt ∧ ms.toInt ≤ ms'.toInt) := by
  have hus := ticsTo_value microsecond hd
  have hms := ticsTo_value millisecond hd
  refine ⟨?_, ?_, ?_, ?_⟩
  · simp only [ByMagnitude, tics2us, tics2ms, hus, hms, Option.some_inj, Int.natCast_inj]
    omega
  · obtain ⟨us, hu, huv⟩ := Option.map_eq_some_iff.mp hus
    obtain ⟨ms, hm, hmv⟩ := Option.map_eq_some_iff.mp hms
    exact ⟨us, ms, hu, hm, by omega, by omega⟩
  · have hneg := toInt_neg_inRange hd
    rw [tics2us, tics2us, tics2ms, tics2ms,
      ticsTo_eq_iff microsecond (by omega) hd, ticsTo_eq_iff millisecond (by omega) hd, hneg]
    omega
  · intro hlow e helow hle us us' ms ms' heus hdus hems hdms
    have heus' := ticsTo_value microsecond (d := e) (by omega)
    have hems' := ticsTo_value millisecond (d := e) (by omega)
    rw [tics2us] at heus hdus
    rw [tics2ms] at hems hdms
    rw [heus, Option.map_some, Option.some_inj] at heus'
    rw [hems, Option.map_some, Option.some_inj] at hems'
    rw [hdus, Option.map_some, Option.some_inj] at hus
    rw [hdms, Option.map_some, Option.some_inj] at hms
    rw [heus', hus, hems', hms]
    omega

theorem tics_by_magnitude_forward :
    ByMagnitude 4800 ∧ tics2us (-95) = some 1 ∧ tics2us 4800 = some 100 ∧
      (1 : Int32).toInt ≤ (100 : Int32).toInt := by
  have hback : tics2us (-95) = some 1 := by decide
  have hforth : tics2us 4800 = some 100 := by decide
  have h := tics_by_magnitude_iff 4800 (by decide)
  have hle := h.2.2.2 (by decide) (-95) (by decide) (by decide) 1 100 1 1 hback hforth
    (by decide) (by decide)
  exact ⟨h.1.mpr (by decide), hback, hforth, hle.1⟩

theorem negative_delta_lost :
    ¬ ∀ d : Int64, d.toInt.natAbs < 48 * 2147483648 → ByMagnitude d := by
  intro h
  exact absurd (h (-4800) (by decide)) (by decide)

end UsbSpdt
