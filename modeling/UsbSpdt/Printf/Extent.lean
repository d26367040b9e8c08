import UsbSpdt.Printf.Refinement

/-!
# How far `print` reads its format

A flag or a width at the very end of a format takes the reading past the terminator. Every other
format is read up to its terminator and no further.
-/

namespace UsbSpdt

namespace Printf

/-! ### Where a format goes wrong -/

theorem zeros_split (w : List UInt8) :
    ∃ n rest, w = List.replicate n 0x30 ++ rest ∧ rest.head? ≠ some 0x30 := by
  induction w with
  | nil => exact ⟨0, [], rfl, by simp⟩
  | cons c w ih =>
    by_cases hc : c = 0x30
    · obtain ⟨n, rest, hw, hhead⟩ := ih
      exact ⟨n + 1, rest, by simp [hc, hw, List.replicate_succ], hhead⟩
    · exact ⟨0, c :: w, rfl, by simpa using hc⟩

theorem digits_split (w : List UInt8) : ∃ l rest, w = l ++ rest ∧ (∀ x ∈ l, 0x30 ≤ x ∧ x ≤ 0x39) ∧
    ∀ c, rest.head? = some c → ¬ (c ≥ 0x30 ∧ c ≤ 0x39) := by
  induction w with
  | nil => exact ⟨[], [], rfl, by simp, by simp⟩
  | cons c w ih =>
    by_cases hc : c ≥ 0x30 ∧ c ≤ 0x39
    · obtain ⟨l, rest, hw, hl, hrest⟩ := ih
      exact ⟨c :: l, rest, by simp [hw], List.forall_mem_cons.mpr ⟨hc, hl⟩, hrest⟩
    · refine ⟨[], c :: w, rfl, by simp, ?_⟩
      intro c' hhead
      rwa [← Option.some.inj hhead]

/-- What follows a `%` is the opening of a conversion and what comes behind it. -/
theorem opening_split (w : List UInt8) : ∃ (o : Opening) (rest : List UInt8), w = o.behind ++ rest ∧
    (∀ c, rest.head? = some c → ¬ (c ≥ 0x30 ∧ c ≤ 0x39)) ∧
    (o = .bare → rest.head? ≠ some 0x2d) := by
  have hnumber (w : List UInt8) : ∃ n width rest,
      w = List.replicate n 0x30 ++ (Numeral.text 10 0x61 width ++ rest) ∧
      ∀ c, rest.head? = some c → ¬ (c ≥ 0x30 ∧ c ≤ 0x39) := by
    obtain ⟨n, w', rfl, hhead⟩ := zeros_split w
    obtain ⟨l, rest, rfl, hdigits, hrest⟩ := digits_split w'
    have hlhead : l.head? ≠ some 0x30 := by
      intro h0
      apply hhead
      rw [List.head?_append, h0]
      rfl
    exact ⟨n, _, rest, by rw [Numeral.text_value hdigits hlhead 0x61], hrest⟩
  by_cases hminus : w.head? = some 0x2d
  · obtain ⟨tail, rfl⟩ := List.head?_eq_some_iff.mp hminus
    obtain ⟨n, width, rest, rfl, hrest⟩ := hnumber tail
    refine ⟨⟨true, n, width⟩, rest, by simp [Opening.behind], hrest, ?_⟩
    intro hbare
    cases congrArg Opening.minus hbare
  · obtain ⟨n, width, rest, rfl, hrest⟩ := hnumber w
    refine ⟨⟨false, n, width⟩, rest, by simp [Opening.behind], hrest, ?_⟩
    intro hbare
    obtain ⟨-, rfl, rfl⟩ := Opening.mk.inj hbare
    simpa using hminus

def Format.push (p : Piece) (f : Format) : Format := ⟨p :: f.pieces, f.stray⟩

theorem Format.spell_push (p : Piece) (f : Format) : (f.push p).spell = p.spell ++ f.spell := by
  rw [spell, push, List.flatMap_cons, List.append_assoc]
  rfl

/-- A format with a conversion that is cut off, or whose width is no `int`. -/
structure Broken (w : List UInt8) (pieces : List Piece) (o : Opening) (tail : List UInt8) :
    Prop where
  spelled : w = pieces.flatMap Piece.spell ++ (o.spell ++ tail)
  begun : o ≠ .bare
  cut : o.width < 2147483648 → tail = []

theorem Broken.push {w tail : List UInt8} {pieces : List Piece} {o : Opening}
    (h : Broken w pieces o tail) (p : Piece) : Broken (p.spell ++ w) (p :: pieces) o tail where
  spelled := by rw [h.spelled, List.flatMap_cons, List.append_assoc]
  begun := h.begun
  cut := h.cut

/-- Every sequence of bytes without a NUL is spelled with pieces up to its end, or up to a
conversion that goes wrong. -/
theorem spelled_or_broken {w : List UInt8} (hw : 0 ∉ w) :
    (∃ f : Format, f.spell = w) ∨ ∃ pieces o tail, Broken w pieces o tail := by
  have hpush (p : Piece) {w : List UInt8}
      (h : (∃ f : Format, f.spell = w) ∨ ∃ pieces o tail, Broken w pieces o tail) :
      (∃ f : Format, f.spell = p.spell ++ w) ∨
        ∃ pieces o tail, Broken (p.spell ++ w) pieces o tail := by
    rcases h with ⟨f, rfl⟩ | ⟨pieces, o, tail, h⟩
    · exact Or.inl ⟨f.push p, f.spell_push p⟩
    · exact Or.inr ⟨p :: pieces, o, tail, h.push p⟩
  induction hn : w.length using Nat.strong_induction_on generalizing w with
  | _ n ih =>
    subst hn
    cases w with
    | nil => exact Or.inl ⟨⟨[], false⟩, rfl⟩
    | cons c w =>
      obtain ⟨hc0, hw⟩ := not_or.mp (mt List.mem_cons.mpr hw)
      by_cases hc : c = 0x25
      · subst hc
        obtain ⟨o, rest, rfl, hdigit, hminus⟩ := opening_split w
        by_cases hlt : o.width < 2147483648
        · cases rest with
          | nil =>
            by_cases ho : o = .bare
            · subst ho
              exact Or.inl ⟨⟨[], true⟩, rfl⟩
            · exact Or.inr ⟨[], o, [], ⟨rfl, ho, fun _ => rfl⟩⟩
          | cons conversion rest =>
            have hrest : 0 ∉ rest := fun h0 => hw (by simp [h0])
            have hlen : rest.length < (0x25 :: (o.behind ++ conversion :: rest)).length := by
              simp only [List.length_cons, List.length_append]
              omega
            by_cases hpercent : o = .bare ∧ conversion = 0x25
            · obtain ⟨rfl, rfl⟩ := hpercent
              exact hpush .percent (ih _ hlen hrest rfl)
            · have hne : conversion ≠ 0 := by
                rintro rfl
                exact hw (by simp)
              have hbare : o.minus = false → o.zeros = 0 → o.width = 0 →
                  conversion ≠ 0x25 ∧ conversion ≠ 0x2d := by
                intro h1 h2 h3
                have ho : o = .bare := Opening.ext h1 h2 h3
                exact ⟨fun h => hpercent ⟨ho, h⟩, fun h => hminus ho (by rw [h]; rfl)⟩
              have hdirective := hpush (.directive ⟨o.minus, o.zeros, o.width, conversion, hlt, hne,
                hdigit conversion rfl, hbare⟩) (ih _ hlen hrest rfl)
              simpa [Piece.spell, Directive.spell_opening, Directive.opening] using hdirective
        · have ho : o ≠ .bare := by
            rintro rfl
            exact hlt (by decide)
          exact Or.inr ⟨[], o, rest, ⟨rfl, ho, fun h => absurd h hlt⟩⟩
      · exact hpush (.char c ⟨Ne.symm hc0, hc⟩) (ih _ (by simp) hw rfl)

/-! ### A format has one meaning -/

theorem Directive.spell_injective {d d' : Directive} {rest rest' : List UInt8}
    (h : d.spell ++ rest = d'.spell ++ rest') : d = d' ∧ rest = rest' := by
  have hbehind : d.opening.behind ++ d.conversion :: rest =
      d'.opening.behind ++ d'.conversion :: rest' := by
    simpa [spell_opening] using h
  have hread := readFlags_spell d rest
  rw [hbehind, readFlags_spell] at hread
  simp only [Option.some.injEq, Prod.mk.injEq, List.cons.injEq] at hread
  obtain ⟨hpad, hwidth, hconversion, rfl⟩ := hread
  have hminus : d.minus = d'.minus := (congrArg Pad.right hpad).symm
  have hzeros : d.zeros = d'.zeros := by
    have hlen := congrArg List.length hbehind
    simpa [opening, Opening.behind, hwidth, hminus] using hlen
  cases d
  cases d'
  simp_all

theorem Directive.spell_cons (d : Directive) (rest : List UInt8) :
    ∃ c tail, d.spell ++ rest = 0x25 :: c :: tail ∧ c ≠ 0x25 := by
  obtain ⟨c, tail, hcons, hc, -⟩ := d.head rest
  exact ⟨c, tail, by simp [spell_opening, ← hcons], hc.2⟩

/-- A first piece and what follows it are found in the format. -/
theorem Piece.spell_injective {p p' : Piece} {rest rest' : List UInt8}
    (h : p.spell ++ rest = p'.spell ++ rest') : p = p' ∧ rest = rest' := by
  cases p with
  | char c hc =>
    cases p' with
    | char c' hc' => simpa [spell] using h
    | percent => exact absurd (List.cons.inj h).1 hc.2
    | directive d => exact absurd (List.cons.inj h).1 hc.2
  | percent =>
    cases p' with
    | char c hc => exact absurd (List.cons.inj h).1.symm hc.2
    | percent => simpa [spell] using h
    | directive d =>
      obtain ⟨c, tail, hcons, hc⟩ := d.spell_cons rest'
      have h2 : 0x25 :: 0x25 :: rest = 0x25 :: c :: tail := h.trans hcons
      exact absurd (List.cons.inj (List.cons.inj h2).2).1.symm hc
  | directive d =>
    cases p' with
    | char c hc => exact absurd (List.cons.inj h).1.symm hc.2
    | percent =>
      obtain ⟨c, tail, hcons, hc⟩ := d.spell_cons rest
      have h2 : 0x25 :: c :: tail = 0x25 :: 0x25 :: rest' := hcons.symm.trans h
      exact absurd (List.cons.inj (List.cons.inj h2).2).1 hc
    | directive d' =>
      obtain ⟨rfl, hrest⟩ := Directive.spell_injective h
      exact ⟨rfl, hrest⟩

/-- No piece is the `%` that ends a format. -/
theorem Piece.spell_ne_end (p : Piece) (rest : List UInt8) (stray : Bool) :
    p.spell ++ rest ≠ if stray then [0x25] else [] := by
  cases p with
  | char c hc =>
    intro h
    cases stray
    · cases h
    · exact hc.2 (List.cons.inj h).1
  | percent =>
    intro h
    cases stray <;> cases h
  | directive d =>
    obtain ⟨c, tail, hcons, -⟩ := d.spell_cons rest
    intro h
    rw [Piece.spell, hcons] at h
    cases stray <;> cases h

theorem Format.spell_injective {f f' : Format} (h : f.spell = f'.spell) : f = f' := by
  obtain ⟨pieces, stray⟩ := f
  obtain ⟨pieces', stray'⟩ := f'
  simp only [Format.spell] at h
  have hboth : pieces = pieces' ∧ stray = stray' := by
    induction pieces generalizing pieces' with
    | nil =>
      cases pieces' with
      | nil =>
        refine ⟨rfl, ?_⟩
        cases stray <;> cases stray' <;> first | rfl | cases h
      | cons p' pieces' =>
        rw [List.flatMap_cons, List.append_assoc] at h
        exact absurd h.symm (p'.spell_ne_end _ stray)
    | cons p pieces ih =>
      cases pieces' with
      | nil =>
        rw [List.flatMap_cons, List.append_assoc] at h
        exact absurd h (p.spell_ne_end _ stray')
      | cons p' pieces' =>
        rw [List.flatMap_cons, List.flatMap_cons, List.append_assoc, List.append_assoc] at h
        obtain ⟨rfl, hrest⟩ := Piece.spell_injective h
        obtain ⟨rfl, rfl⟩ := ih pieces' hrest
        exact ⟨rfl, rfl⟩
  rw [hboth.1, hboth.2]

/-! ### What `print` makes of it -/

section Sink

variable {σ : Type} (printchar : σ → UInt8 → Option σ) (stack : Vector UInt8 printBufLen)
  (strings : Strings)

theorem print_opening {o : Opening} (ho : o ≠ .bare) (rest : List UInt8) (args : List UInt32)
    (pc : Nat) (out : σ) : print printchar strings stack (o.spell ++ rest) args pc out =
      (readFlags (o.behind ++ rest)).bind fun (pad, width, format) =>
        format.head?.bind fun conversion =>
          (convert printchar strings stack out conversion width pad args).bind
            fun (args, n, out) => print printchar strings stack format.tail args (pc + n) out := by
  obtain ⟨c, tail, hcons, hc⟩ := Opening.behind_cons ho
  rw [Opening.spell, hcons]
  exact print_flags printchar stack strings (Opening.behind_ne hc).1 (tail ++ rest) args pc out

/-- The conversion that the terminator cuts off takes it for its character, prints nothing, and the
loop goes on behind it. -/
theorem print_cut {o : Opening} (ho : o ≠ .bare) (hlt : o.width < 2147483648) (rest : List UInt8)
    (args : List UInt32) (pc : Nat) (out : σ) :
    print printchar strings stack (o.spell ++ 0 :: rest) args pc out =
      print printchar strings stack rest args pc out := by
  have hread := readFlags_opening hlt (c := 0) (by decide) (fun h => absurd h ho) rest
  have hnothing := convert_unknown printchar stack out o.width o.pad strings
    (show Kind.ofByte 0 = none by decide) args
  rw [print_opening printchar stack strings ho, hread]
  simp [hnothing]

theorem print_overlong {o : Opening} (hge : 2147483648 ≤ o.width) (rest : List UInt8)
    (args : List UInt32) (pc : Nat) (out : σ) :
    print printchar strings stack (o.spell ++ rest) args pc out = none := by
  have ho : o ≠ .bare := by
    rintro rfl
    exact absurd hge (by decide)
  rw [print_opening printchar stack strings ho, readFlags_overlong hge]
  rfl

end Sink

end Printf

end UsbSpdt
