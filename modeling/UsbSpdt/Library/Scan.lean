/-!
# Searches that go on

A search through a list with a flag for whether anything was found. What is found may change the
state in which the rest of the list is searched, but the flag is then set already: it says what the
state at the start would find.
-/

namespace Scan

variable {δ τ : Type} {scan : δ → τ → δ} {flag : δ → Bool} {hits : δ → τ → Prop}

theorem foldl_keeps (hkeep : ∀ d t, flag d = true → flag (scan d t) = true) {d : δ}
    (h : flag d = true) (ts : List τ) : flag (ts.foldl scan d) = true := by
  induction ts generalizing d with
  | nil => exact h
  | cons t ts ih => exact ih (hkeep d t h)

theorem foldl_flag_iff (hkeep : ∀ d t, flag d = true → flag (scan d t) = true)
    (hmiss : ∀ d t, ¬ hits d t → scan d t = d) (hhit : ∀ d t, hits d t → flag (scan d t) = true)
    {d : δ} (h : flag d = false) (ts : List τ) :
    flag (ts.foldl scan d) = true ↔ ∃ t ∈ ts, hits d t := by
  induction ts with
  | nil =>
    refine iff_of_false ?_ ?_
    · rw [List.foldl_nil, h]
      exact Bool.false_ne_true
    · rintro ⟨t, ht, -⟩
      cases ht
  | cons t ts ih =>
    rw [List.foldl_cons]
    by_cases ht : hits d t
    case pos =>
      exact iff_of_true (foldl_keeps hkeep (hhit d t ht) ts) ⟨t, List.mem_cons_self, ht⟩
    case neg =>
      rw [hmiss d t ht, ih]
      constructor
      · rintro ⟨u, hu, hhits⟩
        exact ⟨u, List.mem_cons_of_mem t hu, hhits⟩
      · rintro ⟨u, hu, hhits⟩
        rcases List.mem_cons.mp hu with rfl | hu
        · exact absurd hhits ht
        · exact ⟨u, hu, hhits⟩

/-- The same for a search that acts on the first match in each of several tables. -/
theorem foldl_find_iff {ε : Type} (flag : δ → Bool) {scan : δ → List ε → δ} {p : δ → ε → Bool}
    {act : δ → ε → δ} (hscan : ∀ d t, scan d t = (t.find? (p d)).elim d (act d))
    (hact : ∀ d e, flag (act d e) = true) {d : δ} (h : flag d = false) (tables : List (List ε)) :
    flag (tables.foldl scan d) = true ↔ ∃ t ∈ tables, ∃ e ∈ t, p d e = true := by
  apply foldl_flag_iff ?_ ?_ ?_ h
  · intro d t hd
    rw [hscan]
    cases t.find? (p d) with
    | none => exact hd
    | some e => exact hact d e
  · intro d t hnone
    have hfind : t.find? (p d) = none := by
      rw [List.find?_eq_none]
      exact fun e he hp => hnone ⟨e, he, hp⟩
    rw [hscan, hfind, Option.elim_none]
  · rintro d t ⟨e, he, hp⟩
    obtain ⟨e', hfind⟩ := Option.isSome_iff_exists.mp (List.find?_isSome.mpr ⟨e, he, hp⟩)
    rw [hscan, hfind, Option.elim_some]
    exact hact d e'

end Scan
