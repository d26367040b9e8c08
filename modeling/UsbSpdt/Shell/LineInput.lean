import UsbSpdt.Library.LineEdit

/-!
# Line input

`cmd_term_get` reads a line into the buffer of its caller, one character at a time. A carriage
return ends the line, backspace and DEL take back its last character, and a line that fills the
buffer is returned as it stands.
-/

namespace UsbSpdt

/-- The 1024 bytes that `vDebugShell` allocates for its line. -/
structure LineBuffer where
  bytes : List UInt8
  length_eq : bytes.length = 1024

def LineBuffer.set (line : LineBuffer) (i : Nat) (x : UInt8) : LineBuffer where
  bytes := line.bytes.set i x
  length_eq := by rw [List.length_set, line.length_eq]

@[simp]
theorem LineBuffer.set_bytes (line : LineBuffer) (i : Nat) (x : UInt8) :
    (line.set i x).bytes = line.bytes.set i x := rfl

/-- A NUL behind the kept text. -/
theorem LineBuffer.set_nul {line : LineBuffer} {kept : List UInt8}
    (h : line.bytes.take kept.length = kept) (hlt : kept.length < 1024) :
    (line.set kept.length 0).bytes = kept ++ 0 :: line.bytes.drop (kept.length + 1) := by
  rw [LineBuffer.set_bytes, List.set_eq_take_append_cons_drop,
    if_pos (by rw [line.length_eq]; exact hlt), h]

def LineBuffer.zeroed : LineBuffer := ⟨List.replicate 1024 0, List.length_replicate⟩

/-- The buffer and the index of `cmd_term_get`, with the offsets of its stores so far. -/
structure LineInput where
  line : LineBuffer
  j : UInt32
  stores : List Nat

/-- `cmd_term_get` waiting in `_read`, or back in its caller with a length. -/
inductive TermGet where
  | reading (s : LineInput)
  | returned (len : UInt32) (s : LineInput)

/-- Backspace and DEL. -/
def erases (rxbyte : UInt8) : Bool := rxbyte = 0x08 ∨ rxbyte = 0x7f

def LineInput.store (s : LineInput) (off : Nat) (x : UInt8) : LineInput :=
  { s with line := s.line.set off x, stores := s.stores ++ [off] }

/-- `*(buf + j) = x; j++`. -/
def LineInput.put (s : LineInput) (x : UInt8) : LineInput :=
  { s.store s.j.toNat x with j := s.j + 1 }

namespace TermGet

/-- The top of the loop. -/
def loop (maxlen : UInt32) (s : LineInput) : TermGet :=
  if s.j ≥ maxlen - 1 then .returned s.j s else .reading s

/-- What `cmd_term_get` does with the byte that `_read` gives it, up to the next `_read`. -/
def rx (maxlen : UInt32) (s : LineInput) (rxbyte : UInt8) : TermGet :=
  if rxbyte = 0x0d then
    let s := s.put rxbyte
    let s := s.store s.j.toNat 0x0a
    let s := s.store (s.j.toNat + 1) 0
    .returned (s.j + 1) s
  else if erases rxbyte then
    loop maxlen { s with j := s.j - 1 } -- also with nothing to take back
  else
    loop maxlen (s.put rxbyte)

def feed (maxlen : UInt32) : TermGet → List UInt8 → TermGet
  | .returned len s, _ => .returned len s -- what follows is left for the next call
  | .reading s, [] => .reading s
  | .reading s, b :: input => feed maxlen (rx maxlen s b) input

end TermGet

/-- `cmd_term_get` with `input` to come. -/
def cmdTermGet (line : LineBuffer) (maxlen : UInt32) (input : List UInt8) : TermGet :=
  .feed maxlen (.loop maxlen ⟨line, 0, []⟩) input

/-- The first `kept.length` bytes of the buffer are the characters that the line keeps. -/
structure LineInput.Holds (s : LineInput) (kept : List UInt8) : Prop where
  index : s.j.toNat = kept.length
  text : s.line.bytes.take kept.length = kept

namespace LineInput

variable {s : LineInput} {kept : List UInt8}

theorem holds_fresh (line : LineBuffer) (stores : List Nat) :
    Holds ⟨line, 0, stores⟩ [] := ⟨rfl, rfl⟩

theorem Holds.put (h : s.Holds kept) (hlt : kept.length < 1023) (b : UInt8) :
    (s.put b).Holds (kept ++ [b]) where
  index := by
    have h1 : (1 : UInt32).toNat = 1 := rfl
    change (s.j + 1).toNat = _
    rw [List.length_append, List.length_singleton, UInt32.toNat_add, h.index, h1]
    omega
  text := by
    have hlen := s.line.length_eq
    rw [List.length_append, List.length_singleton]
    change (s.line.bytes.set s.j.toNat b).take (kept.length + 1) = kept ++ [b]
    rw [h.index, List.take_set, List.take_add_one, h.text, List.getElem?_eq_getElem (by omega),
      Option.toList_some, List.set_append_right _ _ (Nat.le_refl _), Nat.sub_self,
      List.set_cons_zero]

theorem Holds.take_back (h : s.Holds kept) (hne : kept ≠ []) :
    Holds { s with j := s.j - 1 } kept.dropLast where
  index := by
    have hpos := List.length_pos_iff.mpr hne
    have hlt := s.j.toNat_lt
    have h1 : (1 : UInt32).toNat = 1 := rfl
    have hindex := h.index
    rw [List.length_dropLast, UInt32.toNat_sub, h1]
    omega
  text := by
    rw [List.length_dropLast, List.dropLast_eq_take, ← h.text, List.take_take, h.text,
      Nat.min_eq_left (Nat.sub_le _ _)]

/-- With nothing kept the index wraps round. -/
theorem Holds.index_wraps (h : s.Holds []) : (s.j - 1).toNat = 0xffffffff := by
  have hj : s.j = 0 := UInt32.toNat.inj h.index
  rw [hj]
  rfl

end LineInput

namespace TermGet

def state : TermGet → LineInput
  | .reading s => s
  | .returned _ s => s

/-- Every store is inside the buffer, and a line that is returned ends in CR LF. -/
structure Sound (out : TermGet) : Prop where
  inside : ∀ i ∈ out.state.stores, i ≤ 1023
  terminated : ∀ len s, out = .returned len s →
    2 ≤ len.toNat ∧ len.toNat ≤ 1023 ∧ s.line.bytes[len.toNat - 2]? = some 0x0d ∧
      s.line.bytes[len.toNat - 1]? = some 0x0a

variable {s : LineInput} {kept : List UInt8}

theorem loop_of_lt (h : s.j.toNat < 1022) : loop 1023 s = .reading s := by
  have h1022 : (1023 - 1 : UInt32).toNat = 1022 := rfl
  rw [loop, if_neg]
  rw [ge_iff_le, UInt32.le_iff_toNat_le, h1022]
  omega

theorem loop_of_le (h : 1022 ≤ s.j.toNat) : loop 1023 s = .returned s.j s := by
  have h1022 : (1023 - 1 : UInt32).toNat = 1022 := rfl
  rw [loop, if_pos]
  rwa [ge_iff_le, UInt32.le_iff_toNat_le, h1022]

/-- A carriage return ends the line, whatever stood in the buffer behind it. -/
theorem rx_cr (h : s.Holds kept) (hlt : kept.length < 1022) :
    ∃ len t, rx 1023 s 0x0d = .returned len t ∧ len.toNat = kept.length + 2 ∧
      t.stores = s.stores ++ [kept.length, kept.length + 1, kept.length + 2] ∧
      t.line = ((s.line.set kept.length 0x0d).set (kept.length + 1) 0x0a).set
        (kept.length + 2) 0 := by
  have h1 : (1 : UInt32).toNat = 1 := rfl
  have hindex := h.index
  have hj : (s.j + 1).toNat = kept.length + 1 := by
    rw [UInt32.toNat_add, h1]
    omega
  refine ⟨s.j + 1 + 1, _, if_pos rfl, ?_, ?_, ?_⟩
  · rw [UInt32.toNat_add, h1]
    omega
  · simp [LineInput.put, LineInput.store, hindex, hj]
  · simp [LineInput.put, LineInput.store, hindex, hj]

theorem rx_erase {b : UInt8} (hb : erases b = true) :
    rx 1023 s b = loop 1023 { s with j := s.j - 1 } := by
  have hcr : b ≠ 0x0d := by
    rintro rfl
    exact absurd hb (by decide)
  rw [rx, if_neg hcr, if_pos hb]

theorem rx_put {b : UInt8} (hcr : b ≠ 0x0d) (hb : erases b = false) :
    rx 1023 s b = loop 1023 (s.put b) := by
  rw [rx, if_neg hcr, if_neg (by rw [hb]; decide)]

theorem sound_cr (h : s.Holds kept) (hlt : kept.length < 1022)
    (hstores : ∀ i ∈ s.stores, i ≤ 1023) : (rx 1023 s 0x0d).Sound := by
  obtain ⟨len, t, hrx, hlen, htstores, htline⟩ := rx_cr h hlt
  have hbuf := s.line.length_eq
  rw [hrx]
  constructor
  case inside =>
    intro i hi
    rw [state, htstores, List.mem_append] at hi
    rcases hi with hi | hi
    · exact hstores i hi
    · simp only [List.mem_cons, List.not_mem_nil, or_false] at hi
      omega
  case terminated =>
    rintro _ _ ⟨⟩
    refine ⟨by omega, by omega, ?_, ?_⟩
    · rw [htline, hlen]
      simp [List.getElem?_set, hbuf]
      omega
    · rw [htline, hlen]
      simp [List.getElem?_set, hbuf]
      omega

/-- A byte of the line with room for what it leaves: the editor waits for the next one. -/
theorem rx_reading (h : s.Holds kept) (hlt : kept.length < 1022) {b : UInt8} (hb : b ≠ 0x0d)
    (hne : erases b = true → kept ≠ []) (hroom : (LineEdit.key erases kept b).length < 1022) :
    ∃ t, rx 1023 s b = .reading t ∧ t.Holds (LineEdit.key erases kept b) ∧
      ∀ i ∈ t.stores, i ∈ s.stores ∨ i = kept.length := by
  rw [LineEdit.key] at hroom ⊢
  by_cases her : erases b = true
  case pos =>
    rw [if_pos her] at hroom ⊢
    have hback := h.take_back (hne her)
    refine ⟨_, ?_, hback, fun i hi => .inl hi⟩
    rw [rx_erase her, loop_of_lt (by rw [hback.index]; exact hroom)]
  case neg =>
    rw [if_neg her] at hroom ⊢
    have hput := h.put (by omega) b
    refine ⟨_, ?_, hput, ?_⟩
    · rw [rx_put hb (by simpa using her), loop_of_lt (by rw [hput.index]; exact hroom)]
    · intro i hi
      rw [LineInput.put, LineInput.store, List.mem_append, List.mem_singleton, h.index] at hi
      exact hi

/-- Without that room, or with nothing to take back, the call returns what is not a line. -/
theorem rx_not_sound (h : s.Holds kept) (hlt : kept.length < 1022) (hcr : 0x0d ∉ kept) {b : UInt8}
    (hb : b ≠ 0x0d)
    (hdis : ¬ ((erases b = true → kept ≠ []) ∧ (LineEdit.key erases kept b).length < 1022)) :
    ∃ len t, rx 1023 s b = .returned len t ∧ ¬ (TermGet.returned len t).Sound := by
  by_cases her : erases b = true
  case pos =>
    have hempty : kept = [] := by
      refine Classical.byContradiction fun hne => hdis ⟨fun _ => hne, ?_⟩
      rw [LineEdit.key, if_pos her, List.length_dropLast]
      omega
    subst hempty
    have hwraps := h.index_wraps
    refine ⟨s.j - 1, { s with j := s.j - 1 }, ?_, ?_⟩
    · rw [rx_erase her]
      exact loop_of_le (by change 1022 ≤ (s.j - 1).toNat; omega)
    · intro hsound
      obtain ⟨-, hle, -, -⟩ := hsound.terminated _ _ rfl
      omega
  case neg =>
    have hput := h.put (by omega) b
    have hfull : (kept ++ [b]).length = 1022 := by
      rw [LineEdit.key, if_neg her] at hdis
      have hlen : (kept ++ [b]).length = kept.length + 1 := List.length_append
      have : ¬ (kept ++ [b]).length < 1022 := fun hroom => hdis ⟨fun h => absurd h her, hroom⟩
      omega
    refine ⟨(s.put b).j, s.put b, ?_, ?_⟩
    · rw [rx_put hb (by simpa using her), loop_of_le (by rw [hput.index]; omega)]
    · -- the carriage return it needs at 1020 would be one of the kept characters
      intro hsound
      obtain ⟨-, -, hline, -⟩ := hsound.terminated _ _ rfl
      have hmem : (0x0d : UInt8) ∈ kept ++ [b] := by
        rw [← hput.text]
        apply List.mem_of_getElem? (i := 1020)
        rw [List.getElem?_take_of_lt (by omega)]
        rwa [hput.index, hfull] at hline
      rcases List.mem_append.mp hmem with hkept | hmem
      · exact hcr hkept
      · exact hb (List.mem_singleton.mp hmem).symm

theorem feed_returned (maxlen len : UInt32) (s : LineInput) (input : List UInt8) :
    feed maxlen (.returned len s) input = .returned len s := by
  cases input <;> rfl

/-- From a kept text on, the call is sound exactly when the rest of the line is orderly. -/
theorem feed_sound_iff (input : List UInt8) {s : LineInput} {kept : List UInt8}
    (h : s.Holds kept) (hlt : kept.length < 1022) (hcr : 0x0d ∉ kept)
    (hstores : ∀ i ∈ s.stores, i ≤ 1023) :
    (feed 1023 (.reading s) input).Sound ↔
      LineEdit.OrderlyFrom erases 1022 kept (input.takeWhile (· ≠ 0x0d)) := by
  induction input generalizing s kept with
  | nil => exact iff_of_true ⟨hstores, fun _ _ hret => by cases hret⟩ hlt
  | cons b input ih =>
    rw [feed]
    by_cases hb : b = 0x0d
    case pos =>
      subst hb
      obtain ⟨len, t, hrx, -⟩ := rx_cr h hlt
      have hsound := sound_cr h hlt hstores
      rw [hrx] at hsound ⊢
      rw [feed_returned]
      exact iff_of_true hsound hlt
    rw [List.takeWhile_cons_of_pos (by simpa using hb), LineEdit.OrderlyFrom]
    by_cases hkey : (erases b = true → kept ≠ []) ∧ (LineEdit.key erases kept b).length < 1022
    case pos =>
      obtain ⟨t, hrx, hholds, htstores⟩ := rx_reading h hlt hb hkey.1 hkey.2
      have hcr' : 0x0d ∉ LineEdit.key erases kept b := by
        intro hmem
        rcases LineEdit.mem_of_mem_key hmem with hkept | hcrb
        · exact hcr hkept
        · exact hb hcrb.symm
      have hstores' : ∀ i ∈ t.stores, i ≤ 1023 := by
        intro i hi
        rcases htstores i hi with hi | rfl
        · exact hstores i hi
        · omega
      rw [hrx, ih hholds hkey.2 hcr' hstores']
      exact ⟨fun hord => ⟨hlt, hkey.1, hord⟩, fun hord => hord.2.2⟩
    case neg =>
      obtain ⟨len, t, hrx, hsound⟩ := rx_not_sound h hlt hcr hb hkey
      rw [hrx, feed_returned]
      exact iff_of_false hsound fun hord => hkey ⟨hord.2.1, hord.2.2.length_lt⟩

end TermGet

/-- A line is read soundly exactly when, up to its carriage return, it never takes back a character
that is not there and keeps fewer than 1022. -/
theorem line_input_sound_iff (line : LineBuffer) (input : List UInt8) :
    (cmdTermGet line 1023 input).Sound ↔
      LineEdit.Orderly erases 1022 (input.takeWhile (· ≠ 0x0d)) := by
  have hfresh := LineInput.holds_fresh line []
  rw [cmdTermGet, TermGet.loop_of_lt (by rw [hfresh.index]; decide)]
  exact TermGet.feed_sound_iff input hfresh (by decide) List.not_mem_nil
    fun i hi => absurd hi List.not_mem_nil

/-- A backspace on the empty line returns the length `2 ^ 32 - 1`. -/
theorem backspace_on_empty_line :
    ¬ (cmdTermGet .zeroed 1023 [0x08]).Sound := by
  intro hsound
  obtain ⟨-, hle, -, -⟩ := hsound.terminated _ _ rfl
  exact absurd hle (by decide)

end UsbSpdt
