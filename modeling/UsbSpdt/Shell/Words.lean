import UsbSpdt.Library.Runs
import UsbSpdt.Shell.InPlace

/-!
# Lines without quotes

Such a line is read as its words, unless it has 127 bytes: then `cmdParse` does not look at the
last one.
-/

namespace UsbSpdt

/-- The maximal runs of bytes other than blanks. -/
def words (text : List UInt8) : List (List UInt8) := Runs.runs isBlank text

/-- The open word with the bytes `w`. -/
def OpenWord.ofBytes (w : List UInt8) : OpenWord := if w = [] then .none else .growing w

theorem OpenWord.args_ofBytes {w : List UInt8} (hw : ∀ c ∈ w, isBlank c = false) :
    (ofBytes w).args = words w := by
  rw [words, Runs.runs_of_forall hw]
  cases w <;> rfl

theorem OpenWord.grow_ofBytes (w : List UInt8) (c : UInt8) :
    (ofBytes w).grow c = ofBytes (w ++ [c]) := by
  cases w <;> rfl

theorem read_words {text : List UInt8} (hquote : ∀ c ∈ text, isQuote c = false) {w : List UInt8}
    (hw : ∀ c ∈ w, isBlank c = false) (done : List (List UInt8)) (cut : Bool) :
    read false 0 ⟨done, .ofBytes w, cut⟩ text = ⟨done ++ words (w ++ text), none, false⟩ := by
  induction text generalizing w done cut with
  | nil => simp [read, Reading.finish, OpenWord.args_ofBytes hw]
  | cons c text ih =>
    have hc := hquote c (List.mem_cons_self ..)
    have hrest : ∀ c' ∈ text, isQuote c' = false :=
      fun c' hc' => hquote c' (List.mem_cons_of_mem c hc')
    by_cases hblank : isBlank c = true
    case pos =>
      have hnil : ∀ c' ∈ ([] : List UInt8), isBlank c' = false :=
        fun c' hc' => absurd hc' List.not_mem_nil
      have hnext := ih hrest hnil (done ++ words w) (cut || OpenWord.ofBytes w ≠ .none)
      rw [read_blank hc hblank, Reading.blank, OpenWord.args_ofBytes hw]
      rw [List.nil_append, List.append_assoc] at hnext
      have hruns : words (w ++ c :: text) = words w ++ words text :=
        Runs.runs_append_cons w text hblank
      rw [hruns]
      exact hnext
    case neg =>
      rw [Bool.not_eq_true] at hblank
      have hgrown : ∀ c' ∈ w ++ [c], isBlank c' = false := by
        intro c' hc'
        rcases List.mem_append.mp hc' with hc' | hc'
        · exact hw c' hc'
        · rwa [List.mem_singleton.mp hc']
      rw [read_letter hc hblank, Reading.letter]
      dsimp only
      rw [OpenWord.grow_ofBytes, ih hrest hgrown, List.append_assoc, List.singleton_append]

/-- A short line is read without its last byte. -/
theorem read_short {text : List UInt8} (hquote : ∀ c ∈ text, isQuote c = false) (r : Reading)
    (last : UInt8) : read true 0 r (text ++ [last]) = read false 0 r text := by
  induction text generalizing r with
  | nil => rfl
  | cons c text ih =>
    have hc := hquote c (List.mem_cons_self ..)
    have hrest : ∀ c' ∈ text, isQuote c' = false :=
      fun c' hc' => hquote c' (List.mem_cons_of_mem c hc')
    simp [read, hc, ih hrest]

/-- The bytes of a line without quotes that `cmdParse` looks at. -/
def scanned (text : List UInt8) : List UInt8 :=
  if text.length = commandSize then text.dropLast else text

theorem readLine_words {text : List UInt8} (hquote : ∀ c ∈ text, isQuote c = false) :
    readLine text = ⟨words (scanned text), none, false⟩ := by
  have hnil : ∀ c ∈ ([] : List UInt8), isBlank c = false :=
    fun c hc => absurd hc List.not_mem_nil
  have hread : ∀ text, (∀ c ∈ text, isQuote c = false) →
      read false 0 .start text = ⟨words text, none, false⟩ :=
    fun text hquote => read_words hquote hnil [] false
  rw [readLine, scanned]
  by_cases hshort : text.length = commandSize
  case pos =>
    have hne : text ≠ [] := by
      rintro rfl
      exact absurd hshort (by decide)
    have hinit : ∀ c ∈ text.dropLast, isQuote c = false :=
      fun c hc => hquote c (List.dropLast_subset _ hc)
    rw [if_pos hshort, decide_eq_true hshort]
    conv_lhs => rw [← List.dropLast_append_getLast hne]
    rw [read_short hinit, hread _ hinit]
  case neg => rw [if_neg hshort, decide_eq_false hshort, hread _ hquote]

/-- What is not scanned matters when it is no blank. -/
theorem words_scanned_iff (text : List UInt8) :
    words (scanned text) = words text ↔
      ¬ (text.length = commandSize ∧ ∃ c, text.getLast? = some c ∧ isBlank c = false) := by
  rw [scanned]
  by_cases hshort : text.length = commandSize
  case neg =>
    rw [if_neg hshort]
    exact iff_of_true rfl fun hand => hshort hand.1
  case pos =>
    have hne : text ≠ [] := by
      rintro rfl
      exact absurd hshort (by decide)
    have hlast := List.getLast?_eq_some_getLast hne
    have hsplit := List.dropLast_append_getLast hne
    rw [if_pos hshort]
    cases hblank : isBlank (text.getLast hne) with
    | true =>
      refine iff_of_true ?_ fun ⟨_, c, hc, hcb⟩ => ?_
      · have hruns := Runs.runs_append_sep text.dropLast hblank
        rw [hsplit] at hruns
        exact hruns.symm
      · rw [hlast, Option.some_inj] at hc
        rw [← hc, hblank] at hcb
        exact Bool.noConfusion hcb
    | false =>
      refine iff_of_false (fun heq => ?_) fun hnot => hnot ⟨hshort, _, hlast, hblank⟩
      have hruns := Runs.runs_append_ne text.dropLast hblank
      rw [hsplit] at hruns
      exact hruns heq.symm

theorem split_iff_scanned (l : Line) (beyond : List UInt8)
    (hquote : ∀ c ∈ l.text, isQuote c = false)
    (hwords : (words l.text).length ≤ debugShellMaxargs) :
    ((tokenize (l.memory beyond)).unmatched = none ∧
        (tokenize (l.memory beyond)).argv = words l.text ∧
        (tokenize (l.memory beyond)).argc = (words l.text).length) ↔
      words (scanned l.text) = words l.text := by
  rw [handed_iff l beyond hwords, (tokenize_agrees l beyond).unmatched, readLine_words hquote]
  exact and_iff_right rfl

/-- A line without quotes is split into its words exactly when it does not have 127 bytes with a
word at its end. -/
theorem words_split_iff (l : Line) (beyond : List UInt8) (hquote : ∀ c ∈ l.text, isQuote c = false)
    (hwords : (words l.text).length ≤ debugShellMaxargs) :
    ((tokenize (l.memory beyond)).unmatched = none ∧
        (tokenize (l.memory beyond)).argv = words l.text ∧
        (tokenize (l.memory beyond)).argc = (words l.text).length) ↔
      ¬ (l.text.length = commandSize ∧ ∃ c, l.text.getLast? = some c ∧ isBlank c = false) :=
  (split_iff_scanned l beyond hquote hwords).trans (words_scanned_iff l.text)

/-- `hv 1`. -/
theorem words_split_hv :
    (tokenize ((⟨[0x68, 0x76, 0x20, 0x31], by decide, by decide⟩ : Line).memory [])).argv =
      [[0x68, 0x76], [0x31]] :=
  ((words_split_iff ⟨[0x68, 0x76, 0x20, 0x31], by decide, by decide⟩ [] (by simp [isQuote])
    (by decide)).mpr fun hand => absurd hand.1 (by decide)).2.1

/-- A line of 127 times the same letter. -/
def letters : Line where
  text := List.replicate 127 0x61
  noNul := fun hmem => absurd (List.eq_of_mem_replicate hmem) (by decide)
  length_le := by
    rw [List.length_replicate]
    decide

/-- It loses its last byte. -/
theorem last_byte_lost :
    ¬ ∀ (l : Line) (beyond : List UInt8), (∀ c ∈ l.text, isQuote c = false) →
      (words l.text).length ≤ debugShellMaxargs →
      (tokenize (l.memory beyond)).unmatched = none ∧
        (tokenize (l.memory beyond)).argv = words l.text ∧
        (tokenize (l.memory beyond)).argc = (words l.text).length := by
  intro h
  have hquote : ∀ c ∈ letters.text, isQuote c = false := by
    intro c hc
    rw [List.eq_of_mem_replicate hc]
    rfl
  have hwords : words letters.text = [letters.text] := by
    apply Runs.runs_of_forall
    intro c hc
    rw [List.eq_of_mem_replicate hc]
    rfl
  have hone : (words letters.text).length ≤ debugShellMaxargs := by
    rw [hwords]
    decide
  have hsame := (split_iff_scanned letters [] hquote hone).mp (h letters [] hquote hone)
  have hlength : letters.text.length = commandSize := by
    rw [letters, List.length_replicate]
    rfl
  have hlast : letters.text.getLast? = some 0x61 := by
    rw [letters, List.getLast?_replicate]
    rfl
  exact (words_scanned_iff letters.text).mp hsame ⟨hlength, 0x61, hlast, rfl⟩

end UsbSpdt
