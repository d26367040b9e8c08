import Mathlib.Data.List.DropRight
import UsbSpdt.Firmware.InstrTask
import UsbSpdt.Library.Bounded

/-!
# The build in the ID reply

`version.mk` makes the string `build_sha1` of the number of commits and an abbreviated hash.
`get_instrument_ID` takes it apart again, at fixed positions.
-/

namespace UsbSpdt

def isHexDigit (c : UInt8) : Bool := isDigit c || (97 ≤ c && c ≤ 102)

/-- `CHANGESET` of `version.mk`: `GIT_SERIAL`, as `wc -l` prints it, and `GIT_HASH`. -/
structure Changeset where
  serial : Nat
  abbreviated : List UInt8
  dirty : Bool
  serial_range : 1 ≤ serial ∧ serial ≤ 65535
  hex : ∀ c ∈ abbreviated, isHexDigit c
  seven : 7 ≤ abbreviated.length

namespace Changeset

def serialText (c : Changeset) : List UInt8 := (Nat.toDigits 10 c.serial).map Char.toUInt8

/-- The hash, with the `+` of a build from a changed tree. -/
def gitHash (c : Changeset) : List UInt8 := c.abbreviated ++ if c.dirty then [43] else []

def text (c : Changeset) : List UInt8 := c.serialText ++ 95 :: c.gitHash

/-- The text and its terminator are what `buildSha1` begins with. -/
def Lies (c : Changeset) (buildSha1 : Nat → UInt8) : Prop :=
  ∀ k, k ≤ c.text.length → buildSha1 k = c.text.getD k 0

end Changeset

/-- The reads that `get_instrument_ID` makes of a string of `size` bytes, terminator included: four
characters, one step back, and `SZ_BUILD_SHA1` characters. -/
def readChangeset (size : Nat) : Bounded Unit UInt8 (List UInt8 × List UInt8) := do
  let count ← Bounded.loads size () 0 4
  let sha ← Bounded.loads size () 3 szBuildSha1
  pure (count, sha)

/-- What it makes of the first four. -/
def fwRevBuild (buildSha1 : Nat → UInt8) : UInt16 :=
  UInt16.ofInt (atoi ((List.range 4).map buildSha1))

def bldSha (buildSha1 : Nat → UInt8) : List UInt8 :=
  (List.range szBuildSha1).map (fun k => buildSha1 (3 + k)) ++ [0]

theorem idResponse_eq (fw : Firmware) :
    idResponse fw = [fw.productID.toUInt8, 1, 1, 0, LittleEndian.low (fwRevBuild fw.buildSha1),
      LittleEndian.high (fwRevBuild fw.buildSha1), UInt8.ofNat (szBuildSha1 + 1)] ++
        bldSha fw.buildSha1 ++ List.replicate 42 0 := by
  simp only [idResponse, fwRevBuild, bldSha, List.append_assoc]

/-- Without its trailing NULs. -/
def stripNuls (s : List UInt8) : List UInt8 := s.rdropWhile fun c => c = 0

/-! ### Where the reads end -/

theorem readChangeset_iff (size : Nat) (buildSha1 : Nat → UInt8) :
    (readChangeset size fun _ => buildSha1).isSome ↔ 11 ≤ size := by
  constructor
  · intro h
    obtain ⟨r, hr⟩ := Option.isSome_iff_exists.mp h
    obtain ⟨count, hcount, hrest⟩ := Option.bind_eq_some_iff.mp hr
    obtain ⟨sha, hsha, _⟩ := Option.bind_eq_some_iff.mp hrest
    exact Bounded.bound_of_loads size (n := szBuildSha1) (by decide) hsha
  · intro h
    have hcount := Bounded.runs_loads size () 0 4 (by omega) fun _ => buildSha1
    have hsha := Bounded.runs_loads size () 3 szBuildSha1 (by rw [szBuildSha1]; omega)
      fun _ => buildSha1
    have hrun : readChangeset size _ = _ := hcount.bind (hsha.bind (Bounded.runs_pure (_, _) _))
    rw [hrun]
    rfl

/-! ### The number of commits -/

theorem toUInt8_digit {c : Char} (hc : c.isDigit) :
    c.toUInt8.toNat = c.toNat ∧ 48 ≤ c.toNat ∧ c.toNat ≤ 57 := by
  have hrange : 48 ≤ c.toNat ∧ c.toNat ≤ 57 := by
    simpa [Char.isDigit, UInt32.le_iff_toNat_le] using hc
  have hbyte : c.toUInt8.toNat = c.toNat % 256 := UInt32.toNat_toUInt8 c.val
  exact ⟨by omega, hrange⟩

theorem isDigit_toUInt8 {c : Char} (hc : c.isDigit) : isDigit c.toUInt8 := by
  obtain ⟨hbyte, hlow, hhigh⟩ := toUInt8_digit hc
  have h48 : (48 : UInt8) ≤ c.toUInt8 := UInt8.le_iff_toNat_le.mpr (hbyte ▸ hlow)
  have h57 : c.toUInt8 ≤ (57 : UInt8) := UInt8.le_iff_toNat_le.mpr (hbyte ▸ hhigh)
  simp [isDigit, h48, h57]

theorem digits_foldl {l : List Char} (hl : ∀ c ∈ l, c.isDigit) (init : Nat) :
    (l.map Char.toUInt8).foldl (fun n c => 10 * n + (c.toNat - 48 : Int)) init =
      Nat.ofDigitChars 10 l init := by
  induction l generalizing init with
  | nil => rfl
  | cons c l ih =>
    obtain ⟨hbyte, hlow, _⟩ := toUInt8_digit (hl c List.mem_cons_self)
    have hstep : (10 * (init : Int) + (c.toUInt8.toNat - 48 : Int)) =
        (10 * init + (c.toNat - 48) : Nat) := by
      rw [hbyte]
      omega
    rw [List.map_cons, List.foldl_cons, hstep, ih fun x hx => hl x (List.mem_cons_of_mem c hx)]
    rfl

/-- `atoi` of a decimal number, whatever comes after its last digit. -/
theorem atoi_toDigits (n : Nat) {rest : List UInt8} (hrest : rest.takeWhile isDigit = []) :
    atoi ((Nat.toDigits 10 n).map Char.toUInt8 ++ rest) = n := by
  have hdigit : ∀ c ∈ Nat.toDigits 10 n, c.isDigit := fun c hc =>
    Nat.isDigit_of_mem_toDigits (by decide) (by decide) hc
  have hbytes : ∀ x ∈ (Nat.toDigits 10 n).map Char.toUInt8, isDigit x := by
    intro x hx
    obtain ⟨c, hc, rfl⟩ := List.mem_map.mp hx
    exact isDigit_toUInt8 (hdigit c hc)
  have hvalue : digits ((Nat.toDigits 10 n).map Char.toUInt8 ++ rest) = n := by
    rw [digits, List.takeWhile_append_of_pos hbytes, hrest, List.append_nil]
    exact (digits_foldl hdigit 0).trans (by rw [Nat.ofDigitChars_ten_toDigits])
  obtain ⟨c, l, hcons⟩ := List.exists_cons_of_ne_nil (Nat.toDigits_ne_nil (n := n) (b := 10))
  -- a digit is neither a space nor a sign
  have hc : 48 ≤ c.toUInt8.toNat := by
    obtain ⟨hbyte, hlow, _⟩ := toUInt8_digit (hdigit c (hcons ▸ List.mem_cons_self))
    omega
  rw [hcons, List.map_cons, List.cons_append] at hvalue ⊢
  have hspace : isSpace c.toUInt8 = false := by
    have h32 : c.toUInt8 ≠ 32 := by
      intro h
      rw [h] at hc
      exact absurd hc (by decide)
    have h13 : ¬ c.toUInt8 ≤ 13 := by
      intro h
      have := UInt8.le_iff_toNat_le.mp h
      change _ ≤ 13 at this
      omega
    simp [isSpace, h32, h13]
  rw [atoi, List.dropWhile_cons_of_neg (by simp [hspace])]
  split
  · next heq =>
    rw [(List.cons.inj heq).1] at hc
    exact absurd hc (by decide)
  · next heq =>
    rw [(List.cons.inj heq).1] at hc
    exact absurd hc (by decide)
  · exact hvalue

namespace Changeset

theorem gitHash_length (c : Changeset) : 7 ≤ c.gitHash.length := by
  have h7 := c.seven
  rw [gitHash, List.length_append]
  omega

theorem text_length (c : Changeset) :
    c.text.length = c.serialText.length + 1 + c.gitHash.length := by
  rw [text, List.length_append, List.length_cons]
  omega

theorem serialText_length_le_iff (c : Changeset) {k : Nat} (hk : 0 < k) :
    c.serialText.length ≤ k ↔ c.serial < 10 ^ k := by
  rw [serialText, List.length_map]
  exact Nat.length_toDigits_le_iff (by decide) hk

theorem serialText_length_pos (c : Changeset) : 0 < c.serialText.length := by
  rw [serialText, List.length_map]
  exact Nat.length_toDigits_pos

end Changeset

theorem fwRevBuild_of_atoi {m : Nat → UInt8} {c : Changeset} (hm : c.Lies m) {n : Nat}
    (hn : atoi (c.text.take 4) = n) (hlt : n ≤ 65535) : (fwRevBuild m).toNat = n := by
  have hfour : (List.range 4).map m = c.text.take 4 := by
    have hlen := c.text_length
    have h7 := c.gitHash_length
    apply List.ext_getElem
    · rw [List.length_map, List.length_range, List.length_take]
      omega
    · intro k hk hk'
      rw [List.length_map, List.length_range] at hk
      have hlt : k < c.text.length := by omega
      rw [List.getElem_map, List.getElem_range, List.getElem_take, hm k (by omega),
        List.getD_eq_getElem?_getD, List.getElem?_eq_getElem hlt, Option.getD_some]
  rw [fwRevBuild, hfour, hn, UInt16.ofInt, UInt16.toNat_ofNat']
  omega

/-- The number of commits is reported while it has no more than four digits. -/
theorem fwRevBuild_eq_iff {m : Nat → UInt8} {c : Changeset} (hm : c.Lies m) :
    (fwRevBuild m).toNat = c.serial ↔ c.serial ≤ 9999 := by
  have hrange := c.serial_range
  by_cases h : c.serial ≤ 9999
  · have hlen : c.serialText.length ≤ 4 := (c.serialText_length_le_iff (by decide)).mpr (by omega)
    have hrest : ((95 :: c.gitHash).take (4 - c.serialText.length)).takeWhile isDigit = [] := by
      cases 4 - c.serialText.length <;> rfl
    have hatoi : atoi (c.text.take 4) = c.serial := by
      rw [Changeset.text, List.take_append, List.take_of_length_le hlen]
      exact atoi_toDigits c.serial hrest
    exact ⟨fun _ => h, fun _ => fwRevBuild_of_atoi hm hatoi hrange.2⟩
  · have hsplit := Nat.toDigits_of_base_le (b := 10) (n := c.serial) (by decide) (by omega)
    have hfour : (Nat.toDigits 10 (c.serial / 10)).length = 4 := by
      have hle := Nat.length_toDigits_le_iff (b := 10) (n := c.serial / 10) (k := 4)
        (by decide) (by decide)
      have hgt := Nat.length_toDigits_le_iff (b := 10) (n := c.serial / 10) (k := 3)
        (by decide) (by decide)
      omega
    have hatoi : atoi (c.text.take 4) = (c.serial / 10 : Nat) := by
      have htake : c.text.take 4 = (Nat.toDigits 10 (c.serial / 10)).map Char.toUInt8 ++ [] := by
        rw [Changeset.text, Changeset.serialText, hsplit, List.map_append, List.append_assoc,
          List.append_nil, List.take_append_of_le_length (by rw [List.length_map, hfour]),
          List.take_of_length_le (by rw [List.length_map, hfour])]
      rw [htake]
      exact atoi_toDigits (c.serial / 10) rfl
    have hbuild := fwRevBuild_of_atoi hm hatoi (by omega)
    rw [hbuild]
    omega

/-! ### The hash -/

theorem stripNuls_append_nul (s : List UInt8) : stripNuls (s ++ [0]) = stripNuls s :=
  List.rdropWhile_concat_pos _ _ _ (by decide)

theorem stripNuls_of_ne {s : List UInt8} (hs : ∀ x ∈ s, x ≠ 0) : stripNuls s = s := by
  apply List.rdropWhile_eq_self_iff.mpr
  intro hne
  simpa using hs _ (List.getLast_mem hne)

theorem mem_stripNuls {s : List UInt8} {x : UInt8} (hx : x ∈ s) (h0 : x ≠ 0) :
    x ∈ stripNuls s := by
  have hsplit : stripNuls s ++ s.rtakeWhile (fun c => c = 0) = s :=
    List.rdropWhile_append_rtakeWhile
  rw [← hsplit] at hx
  rcases List.mem_append.mp hx with hx | hx
  · exact hx
  · have hnul := List.mem_rtakeWhile_imp hx
    exact absurd (of_decide_eq_true hnul) h0

/-- What `C/a` gives of a field of nine bytes that begins a string of at least seven. -/
theorem stripNuls_field {g : List UInt8} (h7 : 7 ≤ g.length) (hg : ∀ x ∈ g, x ≠ 0) :
    stripNuls ((g ++ [0]).take 8 ++ [0]) = g.take 8 := by
  have htake : ∀ x ∈ g.take 8, x ≠ 0 := fun x hx => hg x (List.mem_of_mem_take hx)
  rw [stripNuls_append_nul]
  by_cases h8 : 8 ≤ g.length
  · rw [List.take_append_of_le_length h8, stripNuls_of_ne htake]
  · have hlen : (g ++ [0]).length ≤ 8 := by
      rw [List.length_append]
      change g.length + 1 ≤ 8
      omega
    rw [List.take_of_length_le hlen, List.take_of_length_le (by omega), stripNuls_append_nul,
      stripNuls_of_ne hg]

/-- A list equals itself moved by one place where its elements are all the same. -/
theorem take_eq_take_cons_iff {a : UInt8} {t : List UInt8} {n : Nat} (hn : n ≤ t.length) :
    t.take n = (a :: t).take n ↔ t.take n = List.replicate n a := by
  induction n generalizing a t with
  | zero => simp
  | succ n ih =>
    obtain ⟨b, t, rfl⟩ := List.exists_cons_of_length_pos (Nat.lt_of_lt_of_le n.succ_pos hn)
    have hrest := ih (a := b) (t := t) (by simpa using hn)
    rw [List.take_succ_cons, List.take_succ_cons, List.replicate_succ, List.cons.injEq,
      List.cons.injEq, hrest]
    constructor
    · rintro ⟨rfl, h⟩
      exact ⟨rfl, h⟩
    · rintro ⟨rfl, h⟩
      exact ⟨rfl, h⟩

theorem bldSha_eq {m : Nat → UInt8} {c : Changeset} (hm : c.Lies m) (h : 10 ≤ c.text.length) :
    bldSha m = ((c.text ++ [0]).drop 3).take 8 ++ [0] := by
  rw [bldSha]
  congr 1
  apply List.ext_getElem
  · rw [List.length_map, List.length_range, List.length_take, List.length_drop, List.length_append]
    change 8 = min 8 (c.text.length + 1 - 3)
    omega
  · intro k hk hk'
    rw [List.length_map, List.length_range, szBuildSha1] at hk
    rw [List.getElem_map, List.getElem_range, List.getElem_take, List.getElem_drop,
      hm (3 + k) (by omega)]
    by_cases hin : 3 + k < c.text.length
    · rw [List.getElem_append_left hin, List.getD_eq_getElem?_getD, List.getElem?_eq_getElem hin,
        Option.getD_some]
    · rw [List.getElem_append_right (Nat.le_of_not_lt hin), List.getElem_singleton,
        List.getD_eq_getElem?_getD, List.getElem?_eq_none (Nat.le_of_not_lt hin), Option.getD_none]

namespace Changeset

theorem gitHash_ne (c : Changeset) {x : UInt8} (hx : x ∈ c.gitHash) : x ≠ 0 ∧ x ≠ 95 := by
  rcases List.mem_append.mp hx with hx | hx
  · have hhex := c.hex x hx
    constructor
    · rintro rfl
      exact absurd hhex (by decide)
    · rintro rfl
      exact absurd hhex (by decide)
  · have h43 : x = 43 := by
      cases hd : c.dirty
      · simp [hd] at hx
      · simpa [hd] using hx
    subst h43
    decide

/-- The number of commits has two digits, or it has one and the hash begins with one character nine
times. -/
def HashInPlace (c : Changeset) : Prop :=
  (10 ≤ c.serial ∧ c.serial ≤ 99) ∨
    (c.serial ≤ 9 ∧ ∃ x, c.gitHash.take 9 = List.replicate 9 x)

theorem gitHash_noNul (c : Changeset) : ∀ x ∈ c.gitHash, x ≠ 0 := fun _ hx => (c.gitHash_ne hx).1

end Changeset

section Field

variable {m : Nat → UInt8} {c : Changeset} (hm : c.Lies m) (h : 10 ≤ c.text.length)

include hm h

/-- The first character of the hash is lost. -/
theorem bldSha_one_digit (hd : c.serialText.length = 1) :
    stripNuls (bldSha m) = c.gitHash.take 8 ↔
      ∃ x, c.gitHash.take 9 = List.replicate 9 x := by
  have hlen := c.text_length
  have h7 := c.gitHash_length
  obtain ⟨a, t, ht⟩ := List.exists_cons_of_length_pos (by omega : 0 < c.gitHash.length)
  have hdrop : (c.text ++ [0]).drop 3 = t ++ [0] := by
    obtain ⟨d, hdigit⟩ := List.length_eq_one_iff.mp hd
    simp [Changeset.text, hdigit, ht]
  rw [ht, List.length_cons] at hlen
  rw [bldSha_eq hm h, hdrop, ht, stripNuls_field (by omega) fun x hx =>
    c.gitHash_noNul x (ht ▸ List.mem_cons_of_mem a hx)]
  constructor
  · intro heq
    have h8 : 8 ≤ t.length := by
      have := congrArg List.length heq
      rw [List.length_take, List.length_take, List.length_cons] at this
      omega
    refine ⟨a, ?_⟩
    rw [List.take_succ_cons, (take_eq_take_cons_iff h8).mp heq]
    rfl
  · rintro ⟨x, hx⟩
    have h8 : 8 ≤ t.length := by
      have := congrArg List.length hx
      rw [List.length_take, List.length_cons, List.length_replicate] at this
      omega
    rw [List.take_succ_cons, List.replicate_succ, List.cons.injEq] at hx
    exact (take_eq_take_cons_iff h8).mpr (hx.1 ▸ hx.2)

theorem bldSha_two_digits (hd : c.serialText.length = 2) :
    stripNuls (bldSha m) = c.gitHash.take 8 := by
  have hdrop : (c.text ++ [0]).drop 3 = c.gitHash ++ [0] := by
    obtain ⟨d, e, hdigits⟩ := List.length_eq_two.mp hd
    simp [Changeset.text, hdigits]
  rw [bldSha_eq hm h, hdrop, stripNuls_field c.gitHash_length c.gitHash_noNul]

/-- The separator is among the characters copied. -/
theorem bldSha_more_digits (hd : 3 ≤ c.serialText.length) (h5 : c.serialText.length ≤ 5) :
    stripNuls (bldSha m) ≠ c.gitHash.take 8 := by
  have hdrop : (c.text ++ [0]).drop 3 = c.serialText.drop 3 ++ 95 :: (c.gitHash ++ [0]) := by
    rw [Changeset.text, List.append_assoc, List.drop_append_of_le_length hd]
    rfl
  have hseparator : 95 ∈ ((c.text ++ [0]).drop 3).take 8 := by
    have hroom : 8 - (c.serialText.drop 3).length = (7 - (c.serialText.drop 3).length) + 1 := by
      rw [List.length_drop]
      omega
    rw [hdrop, List.take_append, hroom, List.take_succ_cons]
    exact List.mem_append_right _ List.mem_cons_self
  intro heq
  have hmem := mem_stripNuls (List.mem_append_left [0] hseparator) (by decide)
  rw [← bldSha_eq hm h, heq] at hmem
  exact absurd rfl (c.gitHash_ne (List.mem_of_mem_take hmem)).2

end Field

/-- The field holds the beginning of the hash where the hash starts at the third character; one
character early, where the shift does not show. -/
theorem bldSha_eq_iff {m : Nat → UInt8} {c : Changeset} (hm : c.Lies m) (h : 10 ≤ c.text.length) :
    stripNuls (bldSha m) = c.gitHash.take 8 ↔ c.HashInPlace := by
  have hrange := c.serial_range
  have hpos := c.serialText_length_pos
  have h1 := c.serialText_length_le_iff (k := 1) (by decide)
  have h2 := c.serialText_length_le_iff (k := 2) (by decide)
  have h5 := c.serialText_length_le_iff (k := 5) (by decide)
  rw [Changeset.HashInPlace]
  obtain hd | hd | hd : c.serialText.length = 1 ∨ c.serialText.length = 2 ∨
      3 ≤ c.serialText.length := by omega
  · rw [bldSha_one_digit hm h hd, and_iff_right (by omega : c.serial ≤ 9), or_iff_right (by omega)]
  · exact iff_of_true (bldSha_two_digits hm h hd) (Or.inl (by omega))
  · refine iff_of_false (bldSha_more_digits hm h hd (by omega)) ?_
    rintro (hserial | ⟨hserial, -⟩)
    · omega
    · omega

end UsbSpdt
