import UsbSpdt.Host.Provision

/-!
# The two readers of the memory map

The firmware copies every string whose pointer and length are not zero. The host asks in addition
that the string starts at 0x20 or later and ends inside the EEPROM.
-/

namespace UsbSpdt

open AttenSwitch CyclicMemory

namespace StringArray

/-- The position of the string in what `readEEStrings` returns. -/
def slot : StringArray → Nat
  | .manufacturer => 0
  | .product => 1
  | .serialNumber => 2

end StringArray

/-- The string that the boot has put in an array in place of the built-in one, up to the terminator
behind it. No result once a store has left its array, since it then lands in another one. -/
def Boot.replacement (b : Boot) (a : StringArray) : Option (Option (List UInt8)) :=
  let own := b.stores.filter fun st => st.array = a
  if ∀ st ∈ b.stores, st.InBounds then
    if own = [] then some none
    else some (some ((List.range (own.length - 1)).map (load (fun _ _ => 0) b.stores a)))
  else none

/-- A string of the host's, where the empty string stands for none. -/
def nonempty (string : List UInt8) : Option (List UInt8) :=
  if string = [] then none else some string

def recordAt (m : Image) (a : StringArray) : Nat × Nat := unpackVC (fetch m a.record.toNat 3)

def NullRecord (m : Image) (a : StringArray) : Prop := (recordAt m a).1 = 0 ∨ (recordAt m a).2 = 0

/-- The string lies between the memory map and the last cell. -/
def InsideRecord (m : Image) (a : StringArray) : Prop :=
  0x20 ≤ (recordAt m a).1 ∧ (recordAt m a).1 + (recordAt m a).2 < 512

/-- The string starts inside the memory map or runs past the last cell. -/
def OutsideRecord (m : Image) (a : StringArray) : Prop :=
  (recordAt m a).1 < 0x20 ∨ 512 < (recordAt m a).1 + (recordAt m a).2

/-! ### What the boot has stored -/

theorem filter_placed (dest a : StringArray) (bytes : List UInt8) :
    (placed dest bytes).filter (fun st => st.array = a) =
      if dest = a then placed dest bytes else [] := by
  have harray : ∀ st ∈ placed dest bytes, st.array = dest := by
    intro st hst
    rcases List.mem_append.mp hst with hst | hst
    · obtain ⟨x, -, rfl⟩ := List.mem_map.mp hst
      rfl
    · obtain rfl := List.mem_singleton.mp hst
      rfl
  split
  case isTrue h =>
    apply List.filter_eq_self.mpr
    intro st hst
    simp only [harray st hst, h, decide_true]
  case isFalse h =>
    apply List.filter_eq_nil_iff.mpr
    intro st hst
    simp only [harray st hst, h, decide_false, Bool.false_eq_true, not_false_iff]

theorem placed_length (dest : StringArray) (bytes : List UInt8) :
    (placed dest bytes).length = bytes.length + 1 := by
  simp [placed]

theorem overlay_range (bytes : List UInt8) (array : Nat → UInt8) :
    (List.range bytes.length).map (overlay bytes array) = bytes := by
  apply List.ext_getElem
  · simp
  · intro j hj hj'
    simp [overlay, Nat.le_of_lt hj', hj']

theorem filter_elim_placed (dest a : StringArray) (string : Option (List UInt8)) :
    (string.elim [] (placed dest)).filter (fun st => st.array = a) =
      if dest = a then string.elim [] (placed dest) else [] := by
  cases string with
  | none => simp
  | some bytes => exact filter_placed dest a bytes

/-- Each length leaves room for the terminator: at most 63, 63 and 23 bytes. -/
def LengthsFit (m : Image) : Prop := ∀ a : StringArray, (recordAt m a).2 < a.size

theorem bootString_record (m : Image) (a : StringArray) :
    bootString m a.record.toNat =
      if (recordAt m a).1 ≠ 0 ∧ (recordAt m a).2 ≠ 0 then
        some (fetch m (recordAt m a).1 (recordAt m a).2) else none :=
  bootString_eq m a.record.toNat

theorem LengthsFit.inBounds {m : Image} (hfits : LengthsFit m) (h : m 0 = magic) :
    ∀ st ∈ (readEEprom (.powerUp m)).stores, st.InBounds := by
  apply readEEprom_inBounds h
  intro a bytes hbytes
  rw [bootString_record] at hbytes
  have hcopied := Option.some.inj (Option.ite_none_right_eq_some.mp hbytes).2
  rw [← hcopied, fetch_length]
  exact hfits a

theorem readEEprom_replacement {cells : Image} (h : cells 0 = magic) (hfits : LengthsFit cells)
    (a : StringArray) :
    (readEEprom (.powerUp cells)).replacement a = some (bootString cells a.record.toNat) := by
  have hstores : (readEEprom (.powerUp cells)).stores.filter (fun st => st.array = a) =
      (bootString cells a.record.toNat).elim [] (placed a) := by
    rw [readEEprom_stores h]
    simp only [List.filter_append, filter_elim_placed]
    cases a <;> simp <;> rfl
  have hload := load_readEEprom h (fun _ _ => 0) a
  simp only [Boot.replacement, hstores, hload, if_pos (hfits.inBounds h)]
  cases bootString cells a.record.toNat with
  | none => rfl
  | some bytes =>
    have hne : placed a bytes ≠ [] := List.append_ne_nil_of_right_ne_nil _ (List.cons_ne_nil _ _)
    simp only [Option.elim_some, if_neg hne, placed_length, Nat.add_sub_cancel, withString,
      overlay_range]

/-! ### Both readers -/

theorem fetchString_record (m : Image) (a : StringArray) :
    fetchString m a.record.toNat =
      if validStr (recordAt m a).1 (recordAt m a).2 then
        fetch m (recordAt m a).1 (recordAt m a).2 else [] := rfl

theorem bootString_of_null {m : Image} {a : StringArray} (h : NullRecord m a) :
    bootString m a.record.toNat = nonempty (fetchString m a.record.toNat) := by
  have hboth : ¬ ((recordAt m a).1 ≠ 0 ∧ (recordAt m a).2 ≠ 0) := by
    rw [NullRecord] at h
    omega
  have hinvalid : ¬ validStr (recordAt m a).1 (recordAt m a).2 = true := by
    rw [validStr_iff]
    omega
  rw [bootString_record, fetchString_record, if_neg hboth, if_neg hinvalid]
  rfl

theorem bootString_of_inside {m : Image} {a : StringArray} (h : InsideRecord m a)
    (hlen : (recordAt m a).2 ≠ 0) :
    bootString m a.record.toNat = nonempty (fetchString m a.record.toNat) := by
  have hboth : (recordAt m a).1 ≠ 0 ∧ (recordAt m a).2 ≠ 0 := by
    rw [InsideRecord] at h
    omega
  have hvalid : validStr (recordAt m a).1 (recordAt m a).2 = true := by
    rw [validStr_iff]
    exact ⟨h.1, hlen, h.2⟩
  have hne : fetch m (recordAt m a).1 (recordAt m a).2 ≠ [] := by
    intro hnil
    have hzero := congrArg List.length hnil
    rw [fetch_length] at hzero
    exact hlen hzero
  rw [bootString_record, fetchString_record, if_pos hboth, if_pos hvalid, nonempty, if_neg hne]

/-- The firmware takes what the host refuses. -/
theorem readers_of_outside {m : Image} {a : StringArray} (hnull : ¬ NullRecord m a)
    (h : OutsideRecord m a) :
    fetchString m a.record.toNat = [] ∧
      bootString m a.record.toNat = some (fetch m (recordAt m a).1 (recordAt m a).2) := by
  have hboth : (recordAt m a).1 ≠ 0 ∧ (recordAt m a).2 ≠ 0 := not_or.mp hnull
  have hinvalid : ¬ validStr (recordAt m a).1 (recordAt m a).2 = true := by
    rw [validStr_iff]
    rw [OutsideRecord] at h
    omega
  rw [bootString_record, fetchString_record, if_pos hboth, if_neg hinvalid]
  exact ⟨rfl, rfl⟩

/-- On a memory with the magic byte and lengths that fit, the two readers agree about each record
that is null or points to a string inside the EEPROM; of any other that does not end exactly at the
last cell, the host makes nothing and the firmware a string. -/
theorem readers_compared (residue : List UInt8 → List UInt8) {d : Device} (hidle : d.inEp = none)
    (hmagic : d.image 0 = magic) (hfits : LengthsFit d.image) :
    ∃ strings t, readEEStrings.run (Device.serve residue) d = some (strings, t) ∧
      ∀ a : StringArray,
        (NullRecord d.image a ∨ InsideRecord d.image a →
          (readEEprom (.powerUp d.image)).replacement a =
            some (nonempty (strings.getD a.slot []))) ∧
        (¬ NullRecord d.image a → OutsideRecord d.image a →
          strings.getD a.slot [] = [] ∧ (readEEprom (.powerUp d.image)).replacement a =
            some (some (fetch d.image (recordAt d.image a).1 (recordAt d.image a).2))) := by
  obtain ⟨strings, t, hrun, hstrings, -⟩ := ensures_readEEStrings residue ⟨hidle, rfl⟩
  refine ⟨strings, t, hrun, ?_⟩
  intro a
  have hslot : strings.getD a.slot [] = fetchString d.image a.record.toNat := by
    rw [hstrings]
    cases a <;> rfl
  rw [hslot, readEEprom_replacement hmagic hfits, Option.some.injEq, Option.some.injEq]
  constructor
  · intro h
    by_cases hnull : NullRecord d.image a
    · exact bootString_of_null hnull
    · exact bootString_of_inside (h.resolve_left hnull) (not_or.mp hnull).2
  · exact readers_of_outside

/-- A manufacturer string of one byte at 0x30, and a product string of one byte at 0x10, below where
the host looks. -/
def soundImage : Image :=
  store (store (fun _ => 0) 0 [magic]) 5 [0x30, 0, 1, 0x10, 0, 1]

theorem lengthsFit_soundImage : LengthsFit soundImage := by
  intro a
  cases a <;> decide

theorem readers_compared_sound :
    ∃ strings t, readEEStrings.run (Device.serve fun _ => [])
        (.powerUp soundImage (fun _ => 0) fun _ _ => 0) = some (strings, t) ∧
      (readEEprom (.powerUp soundImage)).replacement .manufacturer =
        some (nonempty (strings.getD 0 [])) ∧
      strings.getD 1 [] = [] ∧
      (readEEprom (.powerUp soundImage)).replacement .product = some (some [0]) := by
  obtain ⟨strings, t, hrun, hagree⟩ := readers_compared (fun _ => [])
    (d := .powerUp soundImage (fun _ => 0) fun _ _ => 0) rfl (by decide) lengthsFit_soundImage
  have hinside : InsideRecord soundImage .manufacturer := by
    unfold InsideRecord
    decide
  have hnull : ¬ NullRecord soundImage .product := by
    unfold NullRecord
    decide
  have houtside : OutsideRecord soundImage .product := by
    unfold OutsideRecord
    decide
  obtain ⟨hhost, hboot⟩ := (hagree .product).2 hnull houtside
  exact ⟨strings, t, hrun, (hagree .manufacturer).1 (Or.inr hinside), hhost, hboot⟩

/-- A manufacturer string of one byte at 0x10, below where the host looks. -/
def lowImage : Image :=
  store (store (fun _ => 0) 0 [magic]) 5 [0x10, 0, 1]

theorem readers_disagree :
    lowImage 0 = magic ∧ LengthsFit lowImage ∧
      ¬ ∃ strings t, readEEStrings.run (Device.serve fun _ => [])
          (.powerUp lowImage (fun _ => 0) fun _ _ => 0) = some (strings, t) ∧
        ∀ a : StringArray,
          (readEEprom (.powerUp lowImage)).replacement a =
            some (nonempty (strings.getD a.slot [])) := by
  have hmagic : lowImage 0 = magic := by decide
  have hlengths : LengthsFit lowImage := by
    intro a
    cases a <;> decide
  refine ⟨hmagic, hlengths, ?_⟩
  intro h
  rcases h with ⟨strings, t, hrun, hagree⟩
  have hread := (ensures_readEEStrings (fun _ => []) ⟨rfl, rfl⟩).unique hrun
  have hboot := hagree .manufacturer
  rw [hread.1, readEEprom_replacement hmagic hlengths] at hboot
  exact absurd hboot (by decide)

end UsbSpdt
