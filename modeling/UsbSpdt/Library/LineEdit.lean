/-!
# Line editing

A line typed with a key that erases: the characters it keeps, and the lines that an editor with
room for finitely many characters can follow.
-/

namespace LineEdit

variable {α : Type} (erases : α → Bool)

/-- The kept characters after one more key. -/
def key (kept : List α) (a : α) : List α := if erases a then kept.dropLast else kept ++ [a]

/-- The characters that a typed line keeps. -/
def edit (typed : List α) : List α := typed.foldl (key erases) []

/-- Nothing is erased when nothing is kept, and always fewer than `n` characters are kept. -/
def OrderlyFrom (n : Nat) : List α → List α → Prop
  | kept, [] => kept.length < n
  | kept, a :: typed =>
    kept.length < n ∧ (erases a = true → kept ≠ []) ∧ OrderlyFrom n (key erases kept a) typed

instance OrderlyFrom.instDecidable [DecidableEq α] (n : Nat) (kept typed : List α) :
    Decidable (OrderlyFrom erases n kept typed) :=
  match typed with
  | [] => inferInstanceAs (Decidable (kept.length < n))
  | a :: typed =>
    have := instDecidable n (key erases kept a) typed
    inferInstanceAs (Decidable (_ ∧ _ ∧ _))

def Orderly (n : Nat) (typed : List α) : Prop := OrderlyFrom erases n [] typed

instance [DecidableEq α] (n : Nat) (typed : List α) : Decidable (Orderly erases n typed) :=
  inferInstanceAs (Decidable (OrderlyFrom erases n [] typed))

variable {erases} {n : Nat} {kept typed : List α}

theorem OrderlyFrom.length_lt (h : OrderlyFrom erases n kept typed) : kept.length < n := by
  cases typed with
  | nil => exact h
  | cons a typed => exact h.1

theorem OrderlyFrom.edited (h : OrderlyFrom erases n kept typed) :
    (typed.foldl (key erases) kept).length < n := by
  induction typed generalizing kept with
  | nil => exact h
  | cons a typed ih => exact ih h.2.2

/-- An orderly line keeps fewer than `n` characters. -/
theorem Orderly.length_edit_lt (h : Orderly erases n typed) : (edit erases typed).length < n :=
  OrderlyFrom.edited h

theorem mem_of_mem_key {a b : α} (h : b ∈ key erases kept a) : b ∈ kept ∨ b = a := by
  rw [key] at h
  split at h
  case isTrue => exact .inl (List.dropLast_subset _ h)
  case isFalse => simpa using h

theorem mem_of_mem_foldl_key {b : α} (h : b ∈ typed.foldl (key erases) kept) :
    b ∈ kept ∨ b ∈ typed := by
  induction typed generalizing kept with
  | nil => exact .inl h
  | cons a typed ih =>
    rw [List.foldl_cons] at h
    rcases ih h with hkey | htyped
    · rcases mem_of_mem_key hkey with hkept | rfl
      · exact .inl hkept
      · exact .inr (List.mem_cons_self ..)
    · exact .inr (List.mem_cons_of_mem _ htyped)

/-- Every kept character was typed. -/
theorem mem_of_mem_edit {b : α} (h : b ∈ edit erases typed) : b ∈ typed :=
  (mem_of_mem_foldl_key h).resolve_left (List.not_mem_nil)

/-! ### Lines of a stream -/

section Lines

variable [BEq α] (ends : α)

/-- The lines of a stream that `ends` terminates. -/
def terminated (stream : List α) : List (List α) := (stream.splitOn ends).dropLast

/-- What follows the last of them. -/
def unfinished (stream : List α) : List α := (stream.splitOn ends).getLastD []

variable [LawfulBEq α] {ends} {l : List α}

theorem terminated_of_notMem (h : ends ∉ l) : terminated ends l = [] := by
  rw [terminated, List.splitOn_eq_singleton h]
  rfl

theorem unfinished_of_notMem (h : ends ∉ l) : unfinished ends l = l := by
  rw [unfinished, List.splitOn_eq_singleton h]
  rfl

theorem terminated_append_cons (h : ends ∉ l) (rest : List α) :
    terminated ends (l ++ ends :: rest) = l :: terminated ends rest := by
  rw [terminated, List.splitOn_append_cons_self_of_not_mem h,
    List.dropLast_cons_of_ne_nil (List.splitOn_ne_nil ends rest)]
  rfl

theorem unfinished_append_cons (h : ends ∉ l) (rest : List α) :
    unfinished ends (l ++ ends :: rest) = unfinished ends rest := by
  rw [unfinished, unfinished, List.splitOn_append_cons_self_of_not_mem h]
  obtain ⟨first, others, hsplit⟩ := List.exists_cons_of_ne_nil (List.splitOn_ne_nil ends rest)
  rw [hsplit]
  rfl

/-- A stream is a line without its end, or a line and a shorter stream. -/
theorem lines_induction (ends : α) {motive : List α → Prop}
    (unfinished : ∀ l, ends ∉ l → motive l)
    (line : ∀ l rest, ends ∉ l → motive rest → motive (l ++ ends :: rest)) (stream : List α) :
    motive stream := by
  by_cases h : ends ∈ stream
  case pos =>
    obtain ⟨l, rest, heq, hl⟩ := List.eq_append_cons_of_mem h
    have : rest.length < stream.length := by
      rw [heq, List.length_append, List.length_cons]
      omega
    rw [heq]
    exact line l rest hl (lines_induction ends unfinished line rest)
  case neg => exact unfinished stream h
termination_by stream.length

end Lines

end LineEdit
