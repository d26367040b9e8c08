import UsbSpdt.Host.Registers

/-!
# The EEPROM tab of AttenSwitchTool

Entering the tab fills its entries from the device and Write Strings stores them again. There is no
entry for the manufacturer string, and what is stored in its place is empty.
-/

namespace UsbSpdt

open AttenSwitch CyclicMemory

/-- The widgets of the toolkit. -/
structure Widgets (Entry Toggle : Type) where
  setText : Entry → List UInt8 → Entry
  getText : Entry → List UInt8
  setActive : Toggle → Bool → Toggle

/-- The string survives the entry that it is put into. -/
def Widgets.Keeps {Entry Toggle : Type} (w : Widgets Entry Toggle) (entry : Entry)
    (s : List UInt8) : Prop := w.getText (w.setText entry s) = s

structure EepromTab (Entry Toggle : Type) where
  vidEntry : Entry
  pidEntry : Entry
  prodEntry : Entry
  serialEntry : Entry
  extraEntry : Entry
  s1High : Toggle
  s2High : Toggle

/-- `sprintf("0x%04x", n)` -/
def hexText (n : Nat) : List UInt8 :=
  let digits := (Nat.toDigits 16 n).map fun c => UInt8.ofNat c.toNat
  [0x30, 0x78] ++ List.replicate (4 - digits.length) 0x30 ++ digits

section Tool

variable {Entry Toggle : Type} (w : Widgets Entry Toggle)

def eepromViewportMapCb (tab : EepromTab Entry Toggle) : Session (EepromTab Entry Toggle) := do
  let _ ← eeMagicOf none
  let strings ← readEEStrings
  let (vid, pid) ← eeVidPid none none
  let (s1pol, s2pol) ← eePolarity none none
  pure
    { vidEntry := w.setText tab.vidEntry (hexText vid)
      pidEntry := w.setText tab.pidEntry (hexText pid)
      prodEntry := w.setText tab.prodEntry (strings.getD 1 [])
      serialEntry := w.setText tab.serialEntry (strings.getD 2 [])
      extraEntry := w.setText tab.extraEntry (strings.getD 3 [])
      s1High := w.setActive tab.s1High (s1pol ≠ 0)
      s2High := w.setActive tab.s2High (s2pol ≠ 0) }

def writeStringsClicked (confirmed : Bool) (tab : EepromTab Entry Toggle) : Session Unit := do
  let _ ← blink 1
  if confirmed then
    writeEEStrings [] (w.getText tab.prodEntry) (w.getText tab.serialEntry)
      (w.getText tab.extraEntry)
    let _ ← blink 0
    pure ()
  else
    let _ ← blink 0
    pure ()

/-- Entering the tab, confirming Write Strings with no edit, and reading the strings again. -/
def saveUnedited (tab : EepromTab Entry Toggle) : Session (List (List UInt8)) := do
  let tab ← eepromViewportMapCb w tab
  writeStringsClicked w true tab
  readEEStrings

variable (residue : List UInt8 → List UInt8)

theorem ensures_writeStringsClicked {d : Device} {m : Image} (h : d.At m)
    (tab : EepromTab Entry Toggle) :
    Dialogue.Ensures (Device.serve residue) (writeStringsClicked w true tab) d
      fun _ t => t.At (storeStrings [] (w.getText tab.prodEntry) (w.getText tab.serialEntry)
        (w.getText tab.extraEntry) m) := by
  apply Dialogue.ensures_bind
  apply (ensures_blink residue h 1).mono
  intro _ t ht
  apply Dialogue.ensures_bind
  apply (ensures_writeEEStrings residue ht [] _ _ _).mono
  intro _ t ht
  apply Dialogue.ensures_bind
  exact (ensures_blink residue ht 0).mono fun _ t ht => Dialogue.ensures_pure ht

theorem ensures_saveUnedited {d : Device} {m : Image} (h : d.At m)
    (tab : EepromTab Entry Toggle) :
    Dialogue.Ensures (Device.serve residue) (saveUnedited w tab) d
      fun strings _ => strings = [5, 8, 0xb, 0x10].map (fetchString (storeStrings []
        (w.getText (w.setText tab.prodEntry (fetchString m 8)))
        (w.getText (w.setText tab.serialEntry (fetchString m 0xb)))
        (w.getText (w.setText tab.extraEntry (fetchString m 0x10))) m)) := by
  apply Dialogue.ensures_bind
  apply Dialogue.ensures_bind_eq (ensures_getMagic residue h)
  intro t ht
  apply Dialogue.ensures_bind_eq (ensures_readEEStrings residue ht)
  intro t ht
  apply Dialogue.ensures_bind_eq (ensures_getVidPid residue ht)
  intro t ht
  apply Dialogue.ensures_bind_eq (ensures_getPolarity residue ht)
  intro t ht
  apply Dialogue.ensures_pure
  apply Dialogue.ensures_bind
  apply (ensures_writeStringsClicked w residue ht _).mono
  intro _ t ht
  exact (ensures_readEEStrings residue ht).mono fun _ _ hread => hread.1

end Tool

theorem fetchString_length_le (m : Image) (record : Nat) : (fetchString m record).length ≤ 255 := by
  have hlen := ((fetch m record 3).getD 2 0).toNat_lt
  rw [fetchString]
  split
  · rw [fetch_length, unpackVC]
    omega
  · exact Nat.zero_le 255

theorem fetchString_eq_nil_iff (m : Image) (record : Nat) :
    fetchString m record = [] ↔
      validStr (unpackVC (fetch m record 3)).1 (unpackVC (fetch m record 3)).2 = false := by
  rw [fetchString]
  split
  case isTrue hv =>
    have hne := ((validStr_iff _ _).mp hv).2.1
    refine iff_of_false ?_ (by simp [hv])
    intro hnil
    have hlen := fetch_length m (unpackVC (fetch m record 3)).1 (unpackVC (fetch m record 3)).2
    rw [hnil] at hlen
    exact hne hlen.symm
  case isFalse hv => exact iff_of_true rfl (by simpa using hv)

variable {Entry Toggle : Type} (w : Widgets Entry Toggle) (residue : List UInt8 → List UInt8)

/-- Saving the tab unedited keeps the strings exactly when there is no manufacturer string and the
others survive their entries, as long as no entry gives back more than it was set to. -/
theorem strings_tab_keeps_iff {d u : Device} (hidle : d.inEp = none) {strings : List (List UInt8)}
    (hread : readEEStrings.run (Device.serve residue) d = some (strings, u))
    (hfit : (strings.map List.length).sum < 464)
    (hentry : ∀ (entry : Entry) (s : List UInt8),
      (w.getText (w.setText entry s)).length ≤ s.length)
    (tab : EepromTab Entry Toggle) :
    (∃ t, (saveUnedited w tab).run (Device.serve residue) d = some (strings, t)) ↔
      validStr (unpackVC (fetch d.image 5 3)).1 (unpackVC (fetch d.image 5 3)).2 = false ∧
      w.Keeps tab.prodEntry (strings.getD 1 []) ∧
      w.Keeps tab.serialEntry (strings.getD 2 []) ∧
      w.Keeps tab.extraEntry (strings.getD 3 []) := by
  have hstrings := ((ensures_readEEStrings residue ⟨hidle, rfl⟩).unique hread).1
  subst hstrings
  simp only [List.map_cons, List.map_nil, List.sum_cons, List.sum_nil] at hfit
  have hsaved := ensures_saveUnedited w residue ⟨hidle, rfl⟩ tab
  have hprd := hentry tab.prodEntry (fetchString d.image 8)
  have hser := hentry tab.serialEntry (fetchString d.image 0xb)
  have hextra := hentry tab.extraEntry (fetchString d.image 0x10)
  have hprd255 := fetchString_length_le d.image 8
  have hser255 := fetchString_length_le d.image 0xb
  have hextra255 := fetchString_length_le d.image 0x10
  -- what the entries give back fits, so it is read back as it was stored
  have hnil : ([] : List UInt8).length = 0 := rfl
  have hback := (@fetchString_storeStrings_iff d.image [] _ _ _ (Nat.zero_le 255)
    (Nat.le_trans hprd hprd255) (Nat.le_trans hser hser255) (Nat.le_trans hextra hextra255)
    (by omega)).mpr (by omega)
  rw [hback] at hsaved
  rw [← fetchString_eq_nil_iff]
  constructor
  · intro h
    rcases h with ⟨t, ht⟩
    have heq := hsaved.unique ht
    simp only [List.cons.injEq, and_true] at heq
    exact ⟨heq.1, heq.2.1.symm, heq.2.2.1.symm, heq.2.2.2.symm⟩
  · rintro ⟨hmfg, hkeep⟩
    simp only [Widgets.Keeps, List.getD_cons_succ, List.getD_cons_zero] at hkeep
    obtain ⟨now, t, ht, rfl⟩ := hsaved
    exact ⟨t, by rw [ht, hkeep.1, hkeep.2.1, hkeep.2.2, hmfg]⟩

/-- Entries that take a text up to its first NUL, and radio buttons, which are not switched off by
themselves. -/
def textWidgets : Widgets (List UInt8) Bool where
  setText _ s := s.takeWhile (· ≠ 0)
  getText s := s
  setActive active on := active || on

def freshTab : EepromTab (List UInt8) Bool := ⟨[], [], [], [], [], true, true⟩

theorem product_string_kept :
    ∃ t, (saveUnedited textWidgets freshTab).run (Device.serve fun _ => [])
      (.powerUp (storeStrings [] [80, 68] [] [1] fun _ => 0) (fun _ => 0) fun _ _ => 0) =
        some ([[], [80, 68], [], [1]], t) := by
  obtain ⟨strings, u, hread, hstrings, -⟩ := ensures_readEEStrings (fun _ => [])
    (d := .powerUp (storeStrings [] [80, 68] [] [1] fun _ => 0) (fun _ => 0) fun _ _ => 0)
    ⟨rfl, rfl⟩
  obtain rfl : strings = [[], [80, 68], [], [1]] := by
    rw [hstrings]
    decide
  exact (strings_tab_keeps_iff textWidgets (fun _ => []) rfl hread (by decide)
    (fun _ s => (List.takeWhile_prefix _).length_le) freshTab).mpr
      ⟨by decide, rfl, rfl, rfl⟩

/-- A manufacturer string is erased. -/
theorem manufacturer_erased :
    ∃ u, readEEStrings.run (Device.serve fun _ => [])
        (.powerUp (storeStrings [65, 66] [80, 68] [] [1] fun _ => 0) (fun _ => 0) fun _ _ => 0) =
          some ([[65, 66], [80, 68], [], [1]], u) ∧
      ¬ ∃ t, (saveUnedited textWidgets freshTab).run (Device.serve fun _ => [])
        (.powerUp (storeStrings [65, 66] [80, 68] [] [1] fun _ => 0) (fun _ => 0) fun _ _ => 0) =
          some ([[65, 66], [80, 68], [], [1]], t) := by
  obtain ⟨strings, u, hread, hstrings, -⟩ := ensures_readEEStrings (fun _ => [])
    (d := .powerUp (storeStrings [65, 66] [80, 68] [] [1] fun _ => 0) (fun _ => 0) fun _ _ => 0)
    ⟨rfl, rfl⟩
  obtain rfl : strings = [[65, 66], [80, 68], [], [1]] := by
    rw [hstrings]
    decide
  refine ⟨u, hread, ?_⟩
  intro h
  rcases h with ⟨t, ht⟩
  have hsaved := (ensures_saveUnedited textWidgets (fun _ => []) ⟨rfl, rfl⟩ freshTab).unique ht
  have hmfg := (List.cons.inj hsaved).1
  exact absurd hmfg (by decide)

end UsbSpdt
