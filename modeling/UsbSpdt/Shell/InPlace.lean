import Mathlib.Data.List.Forall2
import UsbSpdt.Shell.Arguments

/-!
# Splitting in place

The tokenizer reads its line as `readLine` says. Between two steps every argument has its NUL in
front of `jj`, so that no later store touches it, and from `jj` on the buffer still holds the rest
of the line.
-/

namespace UsbSpdt

open CString

/-- The string `w` starts at `p` and ends in front of `jj`. -/
def ClosedAt (mem : List UInt8) (jj p : Nat) (w : List UInt8) : Prop :=
  stringAt mem p = w ∧ p + w.length < jj

theorem ClosedAt.set {mem : List UInt8} {jj p : Nat} {w : List UInt8} (h : ClosedAt mem jj p w)
    {i jj' : Nat} (hi : jj ≤ i) (hjj : jj ≤ jj') : ClosedAt (mem.set i 0) jj' p w := by
  obtain ⟨hstring, hlt⟩ := h
  have hbehind : p + (stringAt mem p).length < i := by
    rw [hstring]
    omega
  exact ⟨by rw [stringAt_set_behind mem 0 hbehind, hstring], by omega⟩

/-- The bytes of `w` stand from `p` to `jj`, without a NUL behind them yet. -/
structure GrowingAt (mem : List UInt8) (jj p : Nat) (w : List UInt8) : Prop where
  place : p + w.length = jj
  text : mem.drop p = w ++ mem.drop jj
  noNul : 0 ∉ w

theorem GrowingAt.letter {mem : List UInt8} {jj p : Nat} {w : List UInt8}
    (h : GrowingAt mem jj p w) {c : UInt8} (hat : mem.drop jj = c :: mem.drop (jj + 1))
    (hc : c ≠ 0) : GrowingAt mem (jj + 1) p (w ++ [c]) where
  place := by
    have hplace := h.place
    rw [List.length_append, List.length_singleton]
    omega
  text := by
    rw [h.text, hat, List.append_assoc]
    rfl
  noNul := by
    rw [List.mem_append, not_or, List.mem_singleton]
    exact ⟨h.noNul, hc.symm⟩

/-- A NUL behind more of the line closes a growing argument. -/
theorem GrowingAt.close {mem : List UInt8} {jj p : Nat} {w : List UInt8}
    (h : GrowingAt mem jj p w) (more : List UInt8) (hmore : (mem.drop jj).take more.length = more)
    (hnul : 0 ∉ more) (hlt : jj + more.length < mem.length) {jj' : Nat}
    (hjj : jj + more.length < jj') :
    ClosedAt (mem.set (jj + more.length) 0) jj' p (w ++ more) := by
  have hlen : (w ++ more).length = w.length + more.length := List.length_append
  have hplace := h.place
  have hbytes : (mem.drop p).take (w ++ more).length = w ++ more := by
    rw [h.text, hlen, List.take_length_add_append, hmore]
  have hnul' : 0 ∉ w ++ more := by simp [h.noNul, hnul]
  have hset := stringAt_set_nul hnul' hbytes (by omega)
  have hindex : p + (w ++ more).length = jj + more.length := by omega
  rw [hindex] at hset
  exact ⟨hset, by omega⟩

/-- A NUL right behind it closes it as it is. -/
theorem GrowingAt.close_here {mem : List UInt8} {jj p : Nat} {w : List UInt8}
    (h : GrowingAt mem jj p w) (hlt : jj < mem.length) {jj' : Nat} (hjj : jj < jj') :
    ClosedAt (mem.set jj 0) jj' p w := by
  have hclose := h.close [] List.take_zero List.not_mem_nil hlt hjj
  rwa [List.append_nil] at hclose

def WordAt (t : Tokenizer) : OpenWord → Prop
  | .none => t.argstart = none
  | .growing w => ∃ p, t.argstart = some p ∧ GrowingAt t.cmdstr t.jj p w
  | .ended w => ∃ p, t.argstart = some p ∧ ClosedAt t.cmdstr t.jj p w

/-- Between two steps, on a line of `total` bytes: `rest` is what the reading has not come to yet,
and the first `skip` bytes of it lie in front of `jj` already. -/
structure Reads (total : Nat) (beyond : List UInt8) (t : Tokenizer) (r : Reading) (skip : Nat)
    (rest : List UInt8) : Prop where
  going : t.unmatched = none
  place : t.jj + rest.length = total + skip
  close : skip ≤ rest.length + 1
  mem : t.cmdstr.drop t.jj = (rest ++ 0 :: beyond).drop skip
  noNul : 0 ∉ rest
  args : List.Forall₂ (ClosedAt t.cmdstr t.jj) t.args r.args
  word : WordAt t r.word
  growing : ∀ w, r.word = .growing w → skip = 0
  uncut : r.cut = false → strlen t.cmdstr = total
  cut : r.cut = true → strlen t.cmdstr < t.jj
  nuls : ∀ n ∈ t.nuls, n < t.jj

namespace Reads

variable {total skip : Nat} {beyond rest : List UInt8} {t : Tokenizer} {r : Reading} {c : UInt8}

theorem skip_one (h : Reads total beyond t r (skip + 1) (c :: rest)) :
    Reads total beyond t r skip rest where
  going := h.going
  place := by
    have := h.place
    rw [List.length_cons] at this
    omega
  close := by
    have := h.close
    rw [List.length_cons] at this
    omega
  mem := h.mem
  noNul := fun hmem => h.noNul (List.mem_cons_of_mem c hmem)
  args := h.args
  word := h.word
  growing := fun w hw => absurd (h.growing w hw) (Nat.succ_ne_zero skip)
  uncut := h.uncut
  cut := h.cut
  nuls := h.nuls

theorem ne_zero (h : Reads total beyond t r 0 (c :: rest)) : c ≠ 0 := by
  rintro rfl
  exact h.noNul List.mem_cons_self

theorem drop_jj (h : Reads total beyond t r 0 (c :: rest)) :
    t.cmdstr.drop t.jj = c :: (rest ++ 0 :: beyond) := h.mem

theorem drop_succ (h : Reads total beyond t r 0 (c :: rest)) :
    t.cmdstr.drop (t.jj + 1) = rest ++ 0 :: beyond := by
  rw [← List.tail_drop, h.drop_jj]
  rfl

theorem getD_jj (h : Reads total beyond t r 0 (c :: rest)) : t.cmdstr.getD t.jj 0 = c := by
  rw [List.getD_eq_getElem?_getD, ← List.head?_drop, h.drop_jj]
  rfl

theorem length_gt (h : Reads total beyond t r 0 (c :: rest)) :
    t.jj + 1 + rest.length < t.cmdstr.length := by
  have hlen := congrArg List.length h.drop_succ
  rw [List.length_drop, List.length_append, List.length_cons] at hlen
  omega

/-- A step that stores nothing. -/
theorem advance (h : Reads total beyond t r 0 (c :: rest)) {start : Option Nat} {word : OpenWord}
    (hword : WordAt { t with argstart := start, jj := t.jj + 1 } word) :
    Reads total beyond { t with argstart := start, jj := t.jj + 1 } { r with word } 0 rest where
  going := h.going
  place := by
    have := h.place
    rw [List.length_cons] at this
    change t.jj + 1 + rest.length = _
    omega
  close := Nat.zero_le _
  mem := h.drop_succ
  noNul := fun hmem => h.noNul (List.mem_cons_of_mem c hmem)
  args := h.args.imp fun _ _ hp => ⟨hp.1, Nat.lt_succ_of_lt hp.2⟩
  word := hword
  growing := fun _ _ => rfl
  uncut := h.uncut
  cut := fun hcut => Nat.lt_succ_of_lt (h.cut hcut)
  nuls := fun n hn => Nat.lt_succ_of_lt (h.nuls n hn)

/-- A step that stores a NUL at `i` and an argument. -/
theorem store (h : Reads total beyond t r 0 (c :: rest)) {i q : Nat} {s : List UInt8}
    (start : Option Nat) (word : OpenWord) (hi : t.jj ≤ i) (hlt : i < t.cmdstr.length)
    (hnext : i < t.jj + 1 + skip) (hclose : skip ≤ rest.length + 1)
    (harg : ClosedAt (t.cmdstr.set i 0) (t.jj + 1 + skip) q s)
    (hword : WordAt ⟨t.cmdstr.set i 0, t.args ++ [q], start, t.jj + 1 + skip, t.nuls ++ [i], none⟩
      word)
    (hgrowing : ∀ w, word ≠ .growing w) :
    Reads total beyond
      ⟨t.cmdstr.set i 0, t.args ++ [q], start, t.jj + 1 + skip, t.nuls ++ [i], none⟩
      ⟨r.args ++ [s], word, true⟩ skip rest where
  going := rfl
  place := by
    have := h.place
    rw [List.length_cons] at this
    change t.jj + 1 + skip + rest.length = _
    omega
  close := hclose
  mem := by
    change (t.cmdstr.set i 0).drop (t.jj + 1 + skip) = _
    rw [List.drop_set_of_lt hnext, ← List.drop_drop, h.drop_succ]
  noNul := fun hmem => h.noNul (List.mem_cons_of_mem c hmem)
  args := by
    have hold := h.args.imp fun _ _ hp => hp.set hi (show t.jj ≤ t.jj + 1 + skip by omega)
    exact List.rel_append hold (.cons harg .nil)
  word := hword
  growing := fun w hw => absurd hw (hgrowing w)
  uncut := fun hcut => absurd hcut Bool.noConfusion
  cut := fun _ => Nat.lt_of_le_of_lt (strlen_le_of_nul (List.getElem?_set_self hlt)) hnext
  nuls := by
    intro n hn
    change n < t.jj + 1 + skip
    rcases List.mem_append.mp hn with hn | hn
    · have := h.nuls n hn
      omega
    · rw [List.mem_singleton.mp hn]
      exact hnext

theorem step_letter (h : Reads total beyond t r 0 (c :: rest)) (hquote : isQuote c = false)
    (hblank : isBlank c = false) : Reads total beyond t.step (r.letter c) 0 rest := by
  have hstep : t.step = { t.accumulate with jj := t.accumulate.jj + 1 } := by
    rw [Tokenizer.step, h.getD_jj, hquote, hblank]
    rfl
  have hat : t.cmdstr.drop t.jj = c :: t.cmdstr.drop (t.jj + 1) := by
    rw [h.drop_jj, h.drop_succ]
  have hword := h.word
  rw [hstep, Tokenizer.accumulate, Reading.letter]
  cases hw : r.word with
  | none =>
    rw [hw] at hword
    rw [hword]
    have hnew : GrowingAt t.cmdstr t.jj t.jj [] := ⟨rfl, rfl, List.not_mem_nil⟩
    exact h.advance ⟨t.jj, rfl, hnew.letter hat h.ne_zero⟩
  | growing w =>
    rw [hw] at hword
    obtain ⟨p, hp, hgrowing⟩ := hword
    rw [hp]
    exact h.advance ⟨p, hp, hgrowing.letter hat h.ne_zero⟩
  | ended w =>
    rw [hw] at hword
    obtain ⟨p, hp, hstring, hlt⟩ := hword
    rw [hp]
    exact h.advance ⟨p, hp, hstring, Nat.lt_succ_of_lt hlt⟩

theorem jj_lt_of_growing (h : Reads total beyond t r skip rest) {w : List UInt8}
    (hw : r.word = .growing w) : t.jj < t.cmdstr.length := by
  have hlen := congrArg List.length h.mem
  rw [h.growing w hw, List.drop_zero, List.length_drop, List.length_append,
    List.length_cons] at hlen
  omega

/-- A NUL at `jj` closes the open argument. -/
theorem close_word (h : Reads total beyond t r skip rest) (hne : r.word ≠ .none) :
    ∃ p w, t.argstart = some p ∧ r.word.args = [w] ∧
      ClosedAt (t.cmdstr.set t.jj 0) (t.jj + 1) p w := by
  have hword := h.word
  cases hw : r.word with
  | none => exact absurd hw hne
  | growing w =>
    have hlt := h.jj_lt_of_growing hw
    rw [hw] at hword
    obtain ⟨p, hp, hgrowing⟩ := hword
    exact ⟨p, w, hp, rfl, hgrowing.close_here hlt (Nat.lt_succ_self _)⟩
  | ended w =>
    rw [hw] at hword
    obtain ⟨p, hp, hended⟩ := hword
    exact ⟨p, w, hp, rfl, hended.set (Nat.le_refl _) (Nat.le_succ _)⟩

theorem argstart_of_none (h : Reads total beyond t r skip rest) (hw : r.word = .none) :
    t.argstart = none := by
  have hword := h.word
  rw [hw] at hword
  exact hword

theorem step_blank (h : Reads total beyond t r 0 (c :: rest)) (hquote : isQuote c = false)
    (hblank : isBlank c = true) : Reads total beyond t.step r.blank 0 rest := by
  have hstep : t.step = { t.delimit with jj := t.delimit.jj + 1 } := by
    rw [Tokenizer.step, h.getD_jj, hquote, hblank]
    rfl
  rw [hstep, Tokenizer.delimit]
  by_cases hw : r.word = .none
  case pos =>
    have hstart := h.argstart_of_none hw
    have hr : r.blank = { r with word := .none } := by simp [Reading.blank, OpenWord.args, hw]
    rw [hr, hstart]
    exact h.advance hstart
  case neg =>
    -- the NUL goes on the blank itself
    obtain ⟨p, w, hp, hargs, hclosed⟩ := h.close_word hw
    have hlen := h.length_gt
    have hr : r.blank = ⟨r.args ++ [w], .none, true⟩ := by simp [Reading.blank, hargs, hw]
    have hstore := h.store none .none (Nat.le_refl _) (by omega) (Nat.lt_succ_self _)
      (Nat.zero_le _) hclosed rfl (fun w hw => OpenWord.noConfusion hw)
    rw [← h.going] at hstore
    rw [hr, hp]
    exact hstore

/-- The scan for the closing quote ends where `quoted` looks. -/
theorem closingQuote (h : Reads total beyond t r 0 (c :: rest)) (quote : UInt8) :
    Tokenizer.closingQuote t.cmdstr quote (strlen t.cmdstr - (t.jj + 1)) (t.jj + 1) =
      t.jj + 1 + closingIndex r.cut quote rest := by
  have hplace := h.place
  rw [List.length_cons] at hplace
  rw [closingIndex]
  cases hcut : r.cut with
  | false =>
    have hlen : strlen t.cmdstr - (t.jj + 1) = rest.length := by
      rw [h.uncut hcut]
      omega
    rw [hlen, Tokenizer.closingQuote_eq h.drop_succ]
    rfl
  | true =>
    have hlen : strlen t.cmdstr - (t.jj + 1) = 0 := by
      have := h.cut hcut
      omega
    rw [hlen]
    rfl

theorem getD_closing (h : Reads total beyond t r 0 (c :: rest)) {quote : UInt8}
    (hquote : isQuote quote = true) (m : Nat) (hm : m ≤ rest.length) :
    t.cmdstr.getD (t.jj + 1 + m) 0 = quote ↔ rest[m]? = some quote := by
  have hzero : quote ≠ 0 := by
    rintro rfl
    exact absurd hquote (by decide)
  have hget : t.cmdstr[t.jj + 1 + m]? = (rest ++ 0 :: beyond)[m]? := by
    rw [← h.drop_succ, List.getElem?_drop]
  rw [List.getD_eq_getElem?_getD, hget]
  rcases Nat.lt_or_eq_of_le hm with hlt | heq
  · rw [List.getElem?_append_left hlt, List.getElem?_eq_getElem hlt]
    simp
  · rw [heq, List.getElem?_append_right (Nat.le_refl _), Nat.sub_self,
      List.getElem?_eq_none (Nat.le_refl rest.length)]
    simp [Ne.symm hzero]

theorem closingIndex_le (cut : Bool) (quote : UInt8) (rest : List UInt8) :
    closingIndex cut quote rest ≤ rest.length := by
  rw [closingIndex]
  split
  case isTrue => exact Nat.zero_le _
  case isFalse => exact List.idxOf_le_length

theorem step_unmatched (h : Reads total beyond t r 0 (c :: rest)) (hquote : isQuote c = true)
    (hnone : quoted r.cut c rest = none) :
    t.step = { t with unmatched := some c, jj := t.jj + 1 } := by
  have hne := quoted_eq_none hnone
  have hget := (h.getD_closing hquote _ (closingIndex_le r.cut c rest)).not.mpr hne
  rw [Tokenizer.step, h.getD_jj, if_pos hquote, Tokenizer.swallow, h.closingQuote, if_pos hget]

/-- The NUL that closes a quoted argument ends the open one, too. -/
theorem wordAt_endWith (h : Reads total beyond t r 0 (c :: rest)) {content : List UInt8}
    (hbytes : (rest ++ 0 :: beyond).take content.length = content) (hnul : 0 ∉ content)
    (hlt : content.length < rest.length) {jj' : Nat} (hjj : t.jj + 1 + content.length < jj')
    (args nuls : List Nat) :
    WordAt ⟨t.cmdstr.set (t.jj + 1 + content.length) 0, args, t.argstart, jj', nuls, none⟩
      (r.word.endWith (c :: content)) := by
  have hlen := h.length_gt
  have hword := h.word
  cases hw : r.word with
  | none =>
    rw [hw] at hword
    exact hword
  | growing w =>
    rw [hw] at hword
    obtain ⟨p, hp, hgrowing⟩ := hword
    have hc : 0 ∉ c :: content := by
      rw [List.mem_cons, not_or]
      exact ⟨h.ne_zero.symm, hnul⟩
    have hmore : (t.cmdstr.drop t.jj).take (c :: content).length = c :: content := by
      rw [h.drop_jj, List.length_cons, List.take_succ_cons, hbytes]
    have hindex : t.jj + (c :: content).length = t.jj + 1 + content.length := by
      rw [List.length_cons]
      omega
    have hclose := hgrowing.close (c :: content) hmore hc (by omega) (hindex ▸ hjj)
    rw [hindex] at hclose
    exact ⟨p, hp, hclose⟩
  | ended w =>
    rw [hw] at hword
    obtain ⟨p, hp, hended⟩ := hword
    exact ⟨p, hp, hended.set (by omega) (by change t.jj ≤ jj'; omega)⟩

theorem step_quote (h : Reads total beyond t r 0 (c :: rest)) (hquote : isQuote c = true)
    {content : List UInt8} (hsome : quoted r.cut c rest = some content) :
    Reads total beyond t.step (r.quote c content) (content.length + 2) rest := by
  obtain ⟨hlength, hat, htake⟩ := quoted_eq_some hsome
  have hm : content.length < rest.length := (List.getElem?_eq_some_iff.mp hat).1
  have hlen := h.length_gt
  have hget := (h.getD_closing hquote _ (Nat.le_of_lt hm)).mpr hat
  have hstep : t.step =
      ⟨t.cmdstr.set (t.jj + 1 + content.length) 0, t.args ++ [t.jj + 1], t.argstart,
        t.jj + 1 + (content.length + 2), t.nuls ++ [t.jj + 1 + content.length], none⟩ := by
    rw [Tokenizer.step, h.getD_jj, if_pos hquote, Tokenizer.swallow, h.closingQuote, ← hlength,
      if_neg (not_not_intro hget), ← h.going]
    rfl
  have hnul : 0 ∉ content := by
    intro hmem
    rw [htake] at hmem
    exact h.noNul (List.mem_cons_of_mem c (List.mem_of_mem_take hmem))
  have hbytes : (rest ++ 0 :: beyond).take content.length = content := by
    rw [List.take_append_of_le_length (Nat.le_of_lt hm), ← htake]
  have harg : ClosedAt (t.cmdstr.set (t.jj + 1 + content.length) 0)
      (t.jj + 1 + (content.length + 2)) (t.jj + 1) content :=
    ⟨stringAt_set_nul hnul (by rw [h.drop_succ, hbytes]) (by omega), by omega⟩
  rw [hstep]
  apply h.store t.argstart (r.word.endWith (c :: content)) (by omega) (by omega) (by omega)
    (by omega) harg
  · exact h.wordAt_endWith hbytes hnul hm (by omega) _ _
  · intro w hw
    cases hword : r.word <;> rw [hword] at hw <;> cases hw

end Reads

/-- The tokenizer `t` has come to the outcome `o` on a line of `total` bytes. -/
structure Agrees (total : Nat) (t : Tokenizer) (o : Outcome) : Prop where
  unmatched : t.unmatched = o.unmatched
  args : t.args.map (stringAt t.cmdstr) = o.args
  inside : (∀ n ∈ t.nuls, n ≤ total) ↔ o.overrun = false

theorem map_stringAt {mem : List UInt8} {jj : Nat} {args : List Nat} {ws : List (List UInt8)}
    (h : List.Forall₂ (ClosedAt mem jj) args ws) : args.map (stringAt mem) = ws := by
  induction h with
  | nil => rfl
  | cons hp _ ih => rw [List.map_cons, hp.1, ih]

namespace Reads

variable {total skip : Nat} {beyond rest : List UInt8} {t : Tokenizer} {r : Reading} {c : UInt8}

theorem nuls_le (h : Reads total beyond t r skip rest) {n : Nat} (hn : n ∈ t.nuls) :
    n ≤ total := by
  have := h.nuls n hn
  have := h.place
  have := h.close
  omega

/-- Behind the loop: an open argument gets its NUL at `jj`, which may lie behind the line. -/
theorem finish (h : Reads total beyond t r skip rest) {past : Nat}
    (hpast : past = 0 ↔ t.jj ≤ total) : Agrees total t.finish (r.finish past) := by
  by_cases hw : r.word = .none
  case pos =>
    have hfinish : t.finish = t := by rw [Tokenizer.finish, h.going, h.argstart_of_none hw]
    have hr : r.finish past = ⟨r.args, none, false⟩ := by simp [Reading.finish, hw, OpenWord.args]
    rw [hfinish, hr]
    exact ⟨h.going, map_stringAt h.args, iff_of_true (fun n hn => h.nuls_le hn) rfl⟩
  case neg =>
    obtain ⟨p, w, hp, hargs, hclosed⟩ := h.close_word hw
    have hfinish : t.finish = (t.storeNul t.jj).storeArg p := by
      rw [Tokenizer.finish, h.going, hp]
    have hold := h.args.imp fun _ _ hq => hq.set (Nat.le_refl t.jj) (Nat.le_succ t.jj)
    have hall := List.rel_append hold (.cons hclosed .nil)
    have hinside : (∀ n ∈ t.nuls ++ [t.jj], n ≤ total) ↔ t.jj ≤ total := by
      refine ⟨fun hin => hin t.jj (by simp), fun hle n hn => ?_⟩
      rcases List.mem_append.mp hn with hn | hn
      · exact h.nuls_le hn
      · rw [List.mem_singleton.mp hn]
        exact hle
    have hover : (decide (r.word ≠ .none ∧ past ≠ 0)) = false ↔ past = 0 := by simp [hw]
    rw [hfinish, Reading.finish, hargs]
    exact ⟨h.going, map_stringAt hall, (hinside.trans hpast.symm).trans hover.symm⟩

theorem lt_wholeLength (h : Reads total beyond t r 0 (c :: rest)) {wholeLength : Nat}
    {short : Bool} (hwhole : wholeLength + short.toNat = total) (hlast : ¬ (short ∧ rest = [])) :
    t.jj < wholeLength := by
  have hplace := h.place
  rw [List.length_cons] at hplace
  cases short with
  | false =>
    rw [Bool.toNat_false] at hwhole
    omega
  | true =>
    have hrest : rest.length ≠ 0 := fun hzero => hlast ⟨rfl, List.eq_nil_of_length_eq_zero hzero⟩
    rw [Bool.toNat_true] at hwhole
    omega

/-- The loop from here on and what follows it. -/
theorem scan_finish (rest : List UInt8) {t : Tokenizer} {r : Reading} {skip : Nat}
    (h : Reads total beyond t r skip rest) {wholeLength : Nat} {short : Bool}
    (hwhole : wholeLength + short.toNat = total) {n : Nat} (hn : wholeLength ≤ t.jj + n) :
    Agrees total (Tokenizer.scan wholeLength n t).finish (read short skip r rest) := by
  induction rest generalizing t r skip n with
  | nil =>
    have hplace := h.place
    rw [List.length_nil] at hplace
    rw [Tokenizer.scan_of_le (by omega), read]
    exact h.finish (by omega)
  | cons c rest ih =>
    have hplace := h.place
    rw [List.length_cons] at hplace
    cases skip with
    | succ skip =>
      rw [read]
      exact ih h.skip_one hn
    | zero =>
      rw [read]
      by_cases hlast : short ∧ rest = []
      case pos =>
        obtain ⟨rfl, rfl⟩ := hlast
        rw [List.length_nil] at hplace
        rw [Tokenizer.scan_of_le (by simp at hwhole; omega), if_pos ⟨rfl, rfl⟩]
        exact h.finish (by omega)
      case neg =>
        have hlt := h.lt_wholeLength hwhole hlast
        obtain ⟨n, rfl⟩ : ∃ m, n = m + 1 := ⟨n - 1, by omega⟩
        rw [if_neg hlast, Tokenizer.scan_of_lt hlt h.going]
        have hgoOn {t' : Tokenizer} {r' : Reading} {skip : Nat}
            (hstep : Reads total beyond t' r' skip rest) :
            Agrees total (Tokenizer.scan wholeLength n t').finish (read short skip r' rest) := by
          have hplace' := hstep.place
          exact ih hstep (by omega)
        by_cases hquote : isQuote c = true
        case pos =>
          rw [if_pos hquote]
          cases hq : quoted r.cut c rest with
          | some content => exact hgoOn (h.step_quote hquote hq)
          | none =>
            rw [h.step_unmatched hquote hq, Tokenizer.scan_of_unmatched (by simp)]
            exact ⟨rfl, map_stringAt h.args, iff_of_true (fun n hn => h.nuls_le hn) rfl⟩
        case neg =>
          rw [if_neg hquote]
          rw [Bool.not_eq_true] at hquote
          by_cases hblank : isBlank c = true
          case pos =>
            rw [if_pos hblank]
            exact hgoOn (h.step_blank hquote hblank)
          case neg =>
            rw [if_neg hblank]
            exact hgoOn (h.step_letter hquote (Bool.not_eq_true _ ▸ hblank))

end Reads

/-- The line in its buffer, before the first step. -/
theorem reads_start (l : Line) (beyond : List UInt8) :
    Reads l.text.length beyond (.start (l.memory beyond)) .start 0 l.text where
  going := rfl
  place := Nat.zero_add _
  close := Nat.zero_le _
  mem := rfl
  noNul := l.noNul
  args := .nil
  word := rfl
  growing := fun _ _ => rfl
  uncut := fun _ => strlen_append_nul l.noNul beyond
  cut := fun hcut => absurd hcut Bool.noConfusion
  nuls := fun _ hn => absurd hn List.not_mem_nil

/-- The tokenizer finds in the buffer what `readLine` reads, whatever lies behind the line. -/
theorem tokenize_agrees (l : Line) (beyond : List UInt8) :
    Agrees l.text.length (tokenize (l.memory beyond)) (readLine l.text) := by
  have hlen : strlen (l.memory beyond) = l.text.length := strlen_append_nul l.noNul beyond
  rw [tokenize, readLine, hlen]
  apply (reads_start l beyond).scan_finish
  · by_cases hshort : l.text.length = commandSize
    case pos => simp [hshort, commandSize]
    case neg => simp [hshort]
  · exact Nat.le_add_left _ _

theorem argv_eq (l : Line) (beyond : List UInt8) :
    (tokenize (l.memory beyond)).argv = (readLine l.text).args.take debugShellMaxargs := by
  rw [Tokenizer.argv, List.map_take, (tokenize_agrees l beyond).args]

theorem argc_eq (l : Line) (beyond : List UInt8) :
    (tokenize (l.memory beyond)).argc = (readLine l.text).args.length := by
  rw [Tokenizer.argc, ← (tokenize_agrees l beyond).args, List.length_map]

/-- What a command is handed, for at most 32 arguments. -/
theorem handed_iff (l : Line) (beyond : List UInt8) {ws : List (List UInt8)}
    (hws : ws.length ≤ debugShellMaxargs) :
    ((tokenize (l.memory beyond)).argv = ws ∧ (tokenize (l.memory beyond)).argc = ws.length) ↔
      (readLine l.text).args = ws := by
  rw [argv_eq, argc_eq]
  constructor
  · rintro ⟨hargv, hargc⟩
    rwa [List.take_of_length_le (by rw [hargc]; exact hws)] at hargv
  · intro h
    rw [h]
    exact ⟨List.take_of_length_le hws, rfl⟩

/-- Arguments only in `args[0]` to `args[31]`, and NULs only in the line and on its terminator. -/
structure Tokenizer.InBounds (t : Tokenizer) (length : Nat) : Prop where
  args : t.argc ≤ debugShellMaxargs
  nuls : ∀ n ∈ t.nuls, n ≤ length

/-- The tokenizer stays in bounds exactly on the lines of at most 32 arguments that do not end in a
quoted string with a word still open in front of it. -/
theorem tokenize_in_bounds_iff (l : Line) (beyond : List UInt8) :
    (tokenize (l.memory beyond)).InBounds l.text.length ↔
      (readLine l.text).args.length ≤ debugShellMaxargs ∧ (readLine l.text).overrun = false := by
  have hargc := argc_eq l beyond
  have hinside := (tokenize_agrees l beyond).inside
  constructor
  · intro h
    exact ⟨hargc ▸ h.args, hinside.mp h.nuls⟩
  · rintro ⟨hargs, hover⟩
    exact ⟨hargc ▸ hargs, hinside.mpr hover⟩

/-- A line of less than 64 bytes that does not end in a quote stays in bounds. -/
theorem short_line_in_bounds (l : Line) (beyond : List UInt8) (hshort : l.text.length < 64)
    (hlast : ∀ q, l.text.getLast? = some q → isQuote q = false) :
    (tokenize (l.memory beyond)).InBounds l.text.length := by
  constructor
  case args =>
    rw [argc_eq]
    exact readLine_args_le hshort
  case nuls =>
    refine (tokenize_agrees l beyond).inside.mpr ?_
    rw [← Bool.not_eq_true]
    intro hover
    obtain ⟨q, hq, hquote⟩ := read_overrun (Nat.zero_le _) hover
    rw [hlast q hq] at hquote
    cases hquote

/-- The line `x""` gets a NUL behind its terminator. -/
theorem glued_quotes_write_behind :
    ¬ (tokenize ((⟨[0x78, 0x22, 0x22], by decide, by decide⟩ : Line).memory [])).InBounds 3 := by
  intro h
  exact absurd (h.nuls 4 (by decide)) (by decide)

end UsbSpdt
