/-!
# Parts of a string by offset

What Perl's `substr` gives, over lists. An offset beyond the end has no part; a negative offset is
counted from the end, and stops at the start.
-/

namespace Substr

variable {α : Type}

/-- `substr s, offset`. -/
def rest (s : List α) (offset : Int) : Option (List α) :=
  if offset < 0 then some (s.drop (s.length - offset.natAbs))
  else if offset ≤ s.length then some (s.drop offset.toNat)
  else none

/-- `substr s, offset, length` for an offset and a length that are not negative. -/
def field (s : List α) (offset length : Nat) : Option (List α) :=
  (rest s offset).map fun part => part.take length

theorem rest_natCast {s : List α} {n : Nat} (h : n ≤ s.length) : rest s n = some (s.drop n) := by
  rw [rest, if_neg (by omega), if_pos (by omega), Int.toNat_natCast]

theorem rest_beyond {s : List α} {n : Nat} (h : s.length < n) : rest s n = none := by
  rw [rest, if_neg (by omega), if_neg (by omega)]

theorem field_natCast {s : List α} {n : Nat} (h : n ≤ s.length) (k : Nat) :
    field s n k = some ((s.drop n).take k) := by
  rw [field, rest_natCast h, Option.map_some]

theorem rest_map {β : Type} (f : α → β) (s : List α) (offset : Int) :
    rest (s.map f) offset = (rest s offset).map (List.map f) := by
  simp only [rest, List.length_map]
  split
  · rw [Option.map_some, List.map_drop]
  · split
    · rw [Option.map_some, List.map_drop]
    · rfl

end Substr
