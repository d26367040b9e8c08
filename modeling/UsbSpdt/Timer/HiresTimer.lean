import Mathlib.Algebra.Group.Nat.Defs
import Mathlib.Data.List.Chain
import UsbSpdt.Library.Service

/-!
# The high resolution timer

`hiresTimer.c`: a free running 32-bit counter of ticks, extended to 64 bits in software by a word
that is to count its rollovers.
-/

namespace UsbSpdt

structure HiresTimer where
  upperWord : UInt32
  lastReading : UInt32

namespace HiresTimer

def boot : HiresTimer := ⟨0, 0⟩

/-- `__atomic_fetch_add` on the upper word, which returns what the word was before. -/
def fetchAdd (t : HiresTimer) (n : UInt32) : UInt32 × HiresTimer :=
  (t.upperWord, { t with upperWord := t.upperWord + n })

def store (t : HiresTimer) (new : UInt32) : HiresTimer := { t with upperWord := new }

end HiresTimer

open HiresTimer

/-- One call, which finds `current` in the hardware counter. -/
def hiresTimerGetTime (t : HiresTimer) (current : UInt32) : UInt64 × HiresTimer :=
  let t' :=
    if current < t.lastReading then
      let (new, incremented) := t.fetchAdd 1
      -- what is stored back is the word from before the increment
      incremented.store new
    else t
  let t'' : HiresTimer := { t' with lastReading := current }
  let high : UInt64 := t''.upperWord.toUInt64 <<< 32
  (high ||| current.toUInt64, t'')

/-- What successive calls return. -/
def getTimes (t : HiresTimer) (counter : List UInt32) : List UInt64 :=
  (Service.run hiresTimerGetTime t counter).1

/-- What the calls at the tick counts `ts` return after start-up, as numbers. -/
def timesAt (ts : List Nat) : List Nat :=
  (getTimes boot (ts.map UInt32.ofNat)).map UInt64.toNat

/-- Tick counts that do not decrease, the first below `2 ^ 32` and each less than `2 ^ 32` after the
one before. -/
def TickCounts (ts : List Nat) : Prop :=
  List.IsChain (fun t t' => t ≤ t' ∧ t' < t + 2 ^ 32) (0 :: ts)

instance (ts : List Nat) : Decidable (TickCounts ts) :=
  inferInstanceAs (Decidable (List.IsChain _ (0 :: ts)))

/-! ### Counts seen through a counter that wraps -/

theorem wrapped_ascending_iff {w a : Nat} {ts : List Nat} (ha : a < w)
    (h : List.IsChain (fun t t' => t ≤ t' ∧ t' < t + w) (a :: ts)) :
    List.IsChain (· ≤ ·) ((a :: ts).map (· % w)) ↔ ∀ t ∈ ts, t < w := by
  induction ts generalizing a with
  | nil => simp
  | cons b ts ih =>
    obtain ⟨⟨hab, hba⟩, hrest⟩ := List.isChain_cons_cons.mp h
    simp only [List.map_cons, List.isChain_cons_cons, List.forall_mem_cons, Nat.mod_eq_of_lt ha]
    by_cases hb : b < w
    · have hle : a ≤ b % w := by rwa [Nat.mod_eq_of_lt hb]
      have hih := ih hb hrest
      rw [List.map_cons] at hih
      simp only [hle, hb, hih, true_and]
    · -- the counter wrapped once between the two counts
      have hwrap : b % w = b - w := by
        rw [Nat.mod_eq_sub_mod (Nat.le_of_not_lt hb), Nat.mod_eq_of_lt (by omega)]
      have hlt : ¬ a ≤ b % w := by omega
      simp only [hlt, hb, false_and]

theorem map_mod_eq_iff (w : Nat) (hw : 0 < w) (ts : List Nat) :
    ts.map (· % w) = ts ↔ ∀ t ∈ ts, t < w := by
  constructor
  · intro h t ht
    rw [← h] at ht
    obtain ⟨t', _, rfl⟩ := List.mem_map.mp ht
    exact Nat.mod_lt t' hw
  · intro h
    exact (List.map_congr_left fun t ht => Nat.mod_eq_of_lt (h t ht)).trans (List.map_id ts)

/-! ### What a call returns -/

/-- The increment is undone by the store, so no call changes the upper word. -/
theorem hiresTimerGetTime_upperWord (t : HiresTimer) (current : UInt32) :
    (hiresTimerGetTime t current).2.upperWord = t.upperWord := by
  simp only [hiresTimerGetTime, fetchAdd, store]
  split <;> rfl

theorem hiresTimerGetTime_eq (t : HiresTimer) (current : UInt32) :
    (hiresTimerGetTime t current).1 = t.upperWord.toUInt64 <<< 32 ||| current.toUInt64 := by
  rw [← hiresTimerGetTime_upperWord t current]
  rfl

theorem getTimes_eq (t : HiresTimer) (counter : List UInt32) :
    getTimes t counter =
      counter.map fun current => t.upperWord.toUInt64 <<< 32 ||| current.toUInt64 := by
  induction counter generalizing t with
  | nil => rfl
  | cons current rest ih =>
    simp only [getTimes] at ih ⊢
    simp only [Service.run_cons, List.map_cons, ih, hiresTimerGetTime_eq,
      hiresTimerGetTime_upperWord]

theorem timesAt_eq (ts : List Nat) : timesAt ts = ts.map (· % 2 ^ 32) := by
  have hzero (current : UInt32) :
      boot.upperWord.toUInt64 <<< 32 ||| current.toUInt64 = current.toUInt64 := by
    change (0 : UInt32).toUInt64 <<< 32 ||| _ = _
    simp
  simp only [timesAt, getTimes_eq, hzero, List.map_map]
  apply List.map_congr_left
  intro t _
  simp

theorem getTime_exact_iff (ts : List Nat) (h : TickCounts ts) :
    (timesAt ts = ts ↔ ∀ t ∈ ts, t < 2 ^ 32) ∧
      ((timesAt ts).Pairwise (· ≤ ·) ↔ ∀ t ∈ ts, t < 2 ^ 32) := by
  rw [timesAt_eq]
  refine ⟨map_mod_eq_iff _ (by decide) ts, ?_⟩
  have hchain := wrapped_ascending_iff (by decide : 0 < 2 ^ 32) h
  rw [List.map_cons, List.isChain_iff_pairwise, List.pairwise_cons] at hchain
  rw [← hchain]
  simp

theorem getTime_exact_first_lap :
    TickCounts [5, 2 ^ 32 - 1] ∧ timesAt [5, 2 ^ 32 - 1] = [5, 2 ^ 32 - 1] := by
  have h : TickCounts [5, 2 ^ 32 - 1] := by decide
  exact ⟨h, (getTime_exact_iff _ h).1.mpr (by decide)⟩

/-- At the first rollover the time goes back to the counter's value. -/
theorem rollover_not_counted : ¬ ∀ ts, TickCounts ts → timesAt ts = ts := by
  intro h
  have hts : TickCounts [2 ^ 32 - 1, 2 ^ 32] := by decide
  have hback : timesAt [2 ^ 32 - 1, 2 ^ 32] = [2 ^ 32 - 1, 0] := by decide
  have heq := hback.symm.trans (h _ hts)
  simp at heq

end UsbSpdt
