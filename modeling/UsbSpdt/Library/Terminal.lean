import Mathlib.Data.List.Basic

/-!
# Terminals

Rows of cells with a cursor in the last one. A printable byte goes into the cell at the cursor; a
backspace moves the cursor and leaves the cells alone.
-/

/-- The rows above the row of the cursor, that row, and the column of the cursor. -/
structure Terminal where
  above : List (List UInt8)
  row : List UInt8
  col : Nat

namespace Terminal

def blank : UInt8 := 0x20

def printable (b : UInt8) : Bool := 0x20 ≤ b ∧ b < 0x7f

/-- A row, filled with blanks up to a column, with a byte in that column. -/
def place (row : List UInt8) (col : Nat) (b : UInt8) : List UInt8 :=
  row.take col ++ List.replicate (col - row.length) blank ++ b :: row.drop (col + 1)

/-- Bytes that are neither printable nor BS, CR or LF do nothing. -/
def put (t : Terminal) (b : UInt8) : Terminal :=
  if b = 0x08 then { t with col := t.col - 1 }
  else if b = 0x0d then { t with col := 0 }
  else if b = 0x0a then { t with above := t.above ++ [t.row], row := [] }
  else if printable b then { t with row := place t.row t.col b, col := t.col + 1 }
  else t

def feed (t : Terminal) (bytes : List UInt8) : Terminal := bytes.foldl put t

/-- The cursor at the beginning of an empty row. -/
def fresh (above : List (List UInt8)) : Terminal := ⟨above, [], 0⟩

@[simp] theorem feed_nil (t : Terminal) : t.feed [] = t := rfl

@[simp] theorem feed_cons (t : Terminal) (b : UInt8) (bytes : List UInt8) :
    t.feed (b :: bytes) = (t.put b).feed bytes := rfl

@[simp] theorem feed_append (t : Terminal) (xs ys : List UInt8) :
    t.feed (xs ++ ys) = (t.feed xs).feed ys := List.foldl_append

theorem put_printable (t : Terminal) {b : UInt8} (h : printable b = true) :
    t.put b = { t with row := place t.row t.col b, col := t.col + 1 } := by
  have hbs : b ≠ 0x08 := by rintro rfl; exact absurd h (by decide)
  have hcr : b ≠ 0x0d := by rintro rfl; exact absurd h (by decide)
  have hlf : b ≠ 0x0a := by rintro rfl; exact absurd h (by decide)
  simp [put, hbs, hcr, hlf, h]

theorem feed_crlf (t : Terminal) : t.feed [0x0d, 0x0a] = fresh (t.above ++ [t.row]) := rfl

/-- What has scrolled up stays as it is. -/
theorem put_above (t : Terminal) (rows : List (List UInt8)) (b : UInt8) :
    ({ t with above := rows ++ t.above } : Terminal).put b =
      { t.put b with above := rows ++ (t.put b).above } := by
  unfold put
  split
  · rfl
  split
  · rfl
  split
  · simp
  split
  · rfl
  · rfl

theorem feed_above (t : Terminal) (rows : List (List UInt8)) (bytes : List UInt8) :
    ({ t with above := rows ++ t.above } : Terminal).feed bytes =
      { t.feed bytes with above := rows ++ (t.feed bytes).above } := by
  induction bytes generalizing t with
  | nil => rfl
  | cons b bytes ih => rw [feed_cons, feed_cons, put_above, ih]

theorem fresh_feed (rows : List (List UInt8)) (bytes : List UInt8) :
    (fresh rows).feed bytes =
      { (fresh []).feed bytes with above := rows ++ ((fresh []).feed bytes).above } := by
  have hfeed := feed_above (fresh []) rows bytes
  rwa [fresh, List.append_nil] at hfeed

/-! ### A text with blanks behind it -/

/-- The cursor stands behind the text, and there is nothing but `spare` blanks to its right. -/
structure Shows (t : Terminal) (rows : List (List UInt8)) (text : List UInt8) (spare : Nat) :
    Prop where
  above : t.above = rows
  row : t.row = text ++ List.replicate spare blank
  col : t.col = text.length

theorem Shows.eq {t : Terminal} {rows : List (List UInt8)} {text : List UInt8} {spare : Nat}
    (h : t.Shows rows text spare) :
    t = ⟨rows, text ++ List.replicate spare blank, text.length⟩ := by
  rw [← h.above, ← h.row, ← h.col]

theorem shows_fresh (rows : List (List UInt8)) : (fresh rows).Shows rows [] 0 := ⟨rfl, rfl, rfl⟩

variable {t : Terminal} {rows : List (List UInt8)} {text : List UInt8} {spare : Nat}

theorem place_end (text : List UInt8) (spare : Nat) (b : UInt8) :
    place (text ++ List.replicate spare blank) text.length b =
      (text ++ [b]) ++ List.replicate (spare - 1) blank := by
  simp [place, List.drop_append]

theorem Shows.put (h : t.Shows rows text spare) {b : UInt8} (hb : printable b = true) :
    (t.put b).Shows rows (text ++ [b]) (spare - 1) := by
  rw [put_printable t hb]
  constructor
  · exact h.above
  · rw [h.row, h.col, place_end]
  · simp [h.col]

theorem Shows.feed (h : t.Shows rows text spare) {bytes : List UInt8}
    (hb : ∀ b ∈ bytes, printable b = true) :
    (t.feed bytes).Shows rows (text ++ bytes) (spare - bytes.length) := by
  induction bytes generalizing t text spare with
  | nil => simpa using h
  | cons b bytes ih =>
    have hput := h.put (hb b List.mem_cons_self)
    have hrest := ih hput fun c hc => hb c (List.mem_cons_of_mem b hc)
    rw [List.append_assoc, Nat.sub_sub, Nat.add_comm 1] at hrest
    exact hrest

theorem place_over (text rest : List UInt8) (a b : UInt8) :
    place (text ++ a :: rest) text.length b = text ++ b :: rest := by
  simp [place, List.drop_append]

/-- BS, blank, BS takes back the last byte of the text. -/
theorem Shows.rubout {a : UInt8} (h : t.Shows rows (text ++ [a]) spare) :
    (t.feed [0x08, blank, 0x08]).Shows rows text (spare + 1) := by
  have hcol : t.col = text.length + 1 := by simp [h.col]
  have hblank : ({ t with col := t.col - 1 } : Terminal).put blank =
      { t with row := place t.row text.length blank, col := text.length + 1 } := by
    rw [put_printable _ rfl, hcol, Nat.add_sub_cancel]
  have hfeed : t.feed [0x08, blank, 0x08] =
      { t with row := place t.row text.length blank, col := text.length } := by
    change (({ t with col := t.col - 1 } : Terminal).put blank).put 0x08 = _
    rw [hblank]
    rfl
  rw [hfeed]
  constructor
  · exact h.above
  · simp [h.row, place_over, List.replicate_succ]
  · rfl

end Terminal
