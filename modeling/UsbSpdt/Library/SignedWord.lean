/-!
# Signed 64-bit arithmetic without wrap

Sums, differences and products of signed words that have no value when the exact result does not
fit in the word.
-/

namespace SignedWord

/-- The word of value `z`, if there is one. -/
def ofExact (z : Int) : Option Int64 :=
  if -9223372036854775808 ≤ z ∧ z < 9223372036854775808 then some (Int64.ofInt z) else none

def sub (a b : Int64) : Option Int64 := ofExact (a.toInt - b.toInt)

def mul (a b : Int64) : Option Int64 := ofExact (a.toInt * b.toInt)

theorem toInt_bounds (a : Int64) :
    -9223372036854775808 ≤ a.toInt ∧ a.toInt < 9223372036854775808 :=
  ⟨a.le_toInt, a.toInt_lt⟩

theorem ofExact_eq_some_iff {z : Int} {c : Int64} : ofExact z = some c ↔ c.toInt = z := by
  constructor
  · intro h
    unfold ofExact at h
    split at h
    · next hz =>
      rw [← Option.some.inj h]
      exact Int64.toInt_ofInt_of_le hz.1 hz.2
    · cases h
  · rintro rfl
    rw [ofExact, if_pos (toInt_bounds c), Int64.ofInt_toInt]

theorem ofExact_ne_none {z : Int} (hz : -9223372036854775808 ≤ z ∧ z < 9223372036854775808) :
    ∃ c : Int64, ofExact z = some c ∧ c.toInt = z :=
  ⟨Int64.ofInt z, if_pos hz, Int64.toInt_ofInt_of_le hz.1 hz.2⟩

theorem sub_self (a : Int64) : sub a a = some 0 :=
  ofExact_eq_some_iff.mpr (by rw [Int64.toInt_zero, Int.sub_self])

end SignedWord
