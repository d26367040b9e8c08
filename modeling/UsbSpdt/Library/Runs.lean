/-!
# Runs

The maximal runs of the elements of a list that are not separators.
-/

namespace Runs

variable {α : Type} (sep : α → Bool)

def runs (l : List α) : List (List α) := (l.splitOnP sep).filter fun w => !w.isEmpty

variable {sep}

theorem runs_of_forall {l : List α} (h : ∀ a ∈ l, sep a = false) :
    runs sep l = [l].filter fun w => !w.isEmpty := by
  rw [runs, List.splitOnP_eq_singleton h]

theorem runs_append_cons (l l' : List α) {a : α} (ha : sep a = true) :
    runs sep (l ++ a :: l') = runs sep l ++ runs sep l' := by
  rw [runs, List.splitOnP_append_cons l l' ha, List.filter_append]
  rfl

/-- A separator at the end is in no run. -/
theorem runs_append_sep (l : List α) {a : α} (ha : sep a = true) :
    runs sep (l ++ [a]) = runs sep l := by
  rw [runs_append_cons l [] ha]
  exact List.append_nil _

theorem flatten_filter_nonempty (ls : List (List α)) :
    (ls.filter fun w => !w.isEmpty).flatten = ls.flatten := by
  induction ls with
  | nil => rfl
  | cons l ls ih =>
    cases l with
    | nil => exact ih
    | cons a l => exact congrArg ((a :: l) ++ ·) ih

/-- The runs are the other elements, in order. -/
theorem flatten_runs (l : List α) : (runs sep l).flatten = l.filter fun a => !sep a := by
  rw [runs, flatten_filter_nonempty]
  induction l with
  | nil => rfl
  | cons a l ih =>
    rw [List.splitOnP_cons_eq_if_modifyHead, List.filter_cons]
    by_cases ha : sep a = true
    case pos => simp [ha, ih]
    case neg =>
      obtain ⟨w, ws, hsplit⟩ := List.exists_cons_of_ne_nil (List.splitOnP_ne_nil sep l)
      rw [hsplit] at ih ⊢
      simp [ha, ← ih]

/-- Another element at the end changes the runs. -/
theorem runs_append_ne (l : List α) {a : α} (ha : sep a = false) :
    runs sep (l ++ [a]) ≠ runs sep l := by
  intro h
  have hflat := congrArg (fun ls => ls.flatten.length) h
  simp [flatten_runs, List.filter_append, ha] at hflat

end Runs
