import UsbSpdt.Printf.Refinement

/-!
# Formatted output to memory

`mysprintf` and `mysnprintf` write from the beginning of a buffer. The second takes the size of the
buffer as an argument and does not use it.
-/

namespace UsbSpdt

namespace Printf

/-- A pointer into a buffer. -/
structure Cursor where
  buf : List UInt8
  pos : Nat

/-- `**str = (char) c; ++(*str);`. There is no store behind the end of the buffer. -/
def Cursor.store (str : Cursor) (c : UInt8) : Option Cursor :=
  if str.pos < str.buf.length then some ⟨str.buf.set str.pos c, str.pos + 1⟩ else none

variable (strings : Strings) (stack : Vector UInt8 printBufLen)

/-- The count returned, and the buffer afterwards. -/
def mysprintf (out : List UInt8) (format : List UInt8) (args : List UInt32) :
    Option (Nat × List UInt8) := do
  let (pc, out) ← print Cursor.store strings stack format args 0 ⟨out, 0⟩
  let out ← out.store 0
  pure (pc, out.buf)

def mysnprintf (buf : List UInt8) (_count : UInt32) (format : List UInt8) (args : List UInt32) :
    Option (Nat × List UInt8) := do
  let (pc, buf) ← print Cursor.store strings stack format args 0 ⟨buf, 0⟩
  let buf ← buf.store 0
  pure (pc, buf.buf)

/-- A text with room is stored as it is, and all the rest of the buffer is left alone. -/
theorem foldlM_store (text done rest : List UInt8) :
    text.foldlM Cursor.store ⟨done ++ rest, done.length⟩ =
      if text.length ≤ rest.length then
        some ⟨done ++ text ++ rest.drop text.length, (done ++ text).length⟩
      else none := by
  induction text generalizing done rest with
  | nil => simp
  | cons c text ih =>
    rw [List.foldlM_cons, Cursor.store]
    cases rest with
    | nil => simp
    | cons x rest =>
      have hset : (done ++ x :: rest).set done.length c = (done ++ [c]) ++ rest := by
        simp [List.set_append_right]
      have hlen : done.length + 1 = (done ++ [c]).length := by simp
      simp only [List.length_append, List.length_cons, hset]
      rw [if_pos (by omega), hlen]
      simp only [bind, Option.bind_some, ih]
      simp

/-- The terminator behind a text that has been stored. -/
theorem store_nul (text rest : List UInt8) :
    Cursor.store ⟨text ++ rest, text.length⟩ 0 =
      if 0 < rest.length then some ⟨text ++ 0 :: rest.drop 1, text.length + 1⟩ else none := by
  rw [Cursor.store]
  cases rest with
  | nil => simp
  | cons x rest => simp [List.set_append_right]

/-- `mysprintf` needs room for the text and its terminator. It stores these, and it returns the
length of the text. -/
theorem mysprintf_eq (f : Format) (rest out : List UInt8) (args : List UInt32) :
    mysprintf strings stack out (f.spell ++ 0 :: rest) args =
      (render strings f.pieces args).bind fun text =>
        if text.length < out.length then
          some (text.length, text ++ 0 :: out.drop (text.length + 1))
        else none := by
  rw [mysprintf, print_eq]
  cases render strings f.pieces args with
  | none => rfl
  | some text =>
    have hfold := foldlM_store text [] out
    simp only [List.nil_append, List.length_nil] at hfold
    simp only [Option.bind_some, hfold]
    by_cases hle : text.length ≤ out.length
    · simp only [if_pos hle, Option.map_some, bind, Option.bind_some, store_nul, List.length_drop]
      by_cases hlt : text.length < out.length
      · rw [if_pos (by omega), if_pos hlt]
        simp [List.drop_drop]
      · rw [if_neg (by omega), if_neg hlt]
        rfl
    · rw [if_neg hle, if_neg (by omega)]
      rfl

/-- Behind a string that ends before its memory does stands a NUL. -/
theorem eq_of_stringAt {mem w : List UInt8} (h : CString.stringAt mem 0 = w)
    (hlt : w.length < mem.length) : mem = w ++ 0 :: mem.drop (w.length + 1) := by
  induction mem generalizing w with
  | nil => exact absurd hlt (Nat.not_lt_zero _)
  | cons c mem ih =>
    rw [CString.stringAt, List.drop_zero, List.takeWhile_cons] at h
    split at h
    · subst h
      have hrest := ih rfl (Nat.lt_of_succ_lt_succ hlt)
      simpa [CString.stringAt] using hrest
    · next hc =>
      subst h
      simpa using hc

/-- Both functions come to an end exactly when the text has an argument for every conversion and the
buffer has room for the text and a NUL, whatever size is passed. The buffer then holds the text as
a string, and behind its terminator what it held before. -/
theorem mysprintf_iff (f : Format) (rest out buf : List UInt8) (count : UInt32)
    (args : List UInt32) (n : Nat) :
    (mysprintf strings stack out (f.spell ++ 0 :: rest) args = some (n, buf) ↔
      ∃ text, render strings f.pieces args = some text ∧ text.length = n ∧ n < out.length ∧
        CString.stringAt buf 0 = text ∧ buf.length = out.length ∧
        buf.drop (n + 1) = out.drop (n + 1)) ∧
      mysnprintf strings stack out count (f.spell ++ 0 :: rest) args =
        mysprintf strings stack out (f.spell ++ 0 :: rest) args := by
  refine ⟨?_, rfl⟩
  rw [mysprintf_eq, Option.bind_eq_some_iff]
  apply exists_congr
  intro text
  apply and_congr_right
  intro htext
  have hnul := zero_notMem_render strings htext
  constructor
  · intro h
    split at h
    · next hlt =>
      obtain ⟨rfl, rfl⟩ := Prod.mk.inj (Option.some.inj h)
      refine ⟨rfl, hlt, CString.stringAt_of_drop hnul rfl, ?_, ?_⟩
      · simp
        omega
      · simp
    · cases h
  · rintro ⟨rfl, hlt, hstring, hlen, hdrop⟩
    have hbuf := eq_of_stringAt hstring (by omega)
    rw [if_pos hlt, ← hdrop, ← hbuf]

end Printf

end UsbSpdt
