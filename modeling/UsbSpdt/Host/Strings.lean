import UsbSpdt.Host.Eeprom

/-!
# The configuration strings

`writeEEStrings` packs four strings back to back from address 0x30 on and records where each one
is; `readEEStrings` follows the records. `writeEEStrings` has no limit, `validStr` has one, and the
two do not meet.
-/

namespace UsbSpdt

open AttenSwitch CyclicMemory

variable (residue : List UInt8 → List UInt8)

/-! ### What the sessions do to the memory -/

/-- The pointer and the length that `writeEEStrings` records for a string at `addr`. -/
def stringRecord (addr : Nat) (string : List UInt8) : List UInt8 :=
  if string.length ≠ 0 then packV addr ++ packC string.length else packV 0 ++ packC 0

def storeString (record addr : Nat) (string : List UInt8) (m : Image) : Image :=
  store (store m record (stringRecord addr string)) addr string

def storeStrings (mfg prd ser extra : List UInt8) (m : Image) : Image :=
  storeString 0x10 (0x30 + mfg.length + prd.length + ser.length) extra
    (storeString 0xb (0x30 + mfg.length + prd.length) ser
      (storeString 0x8 (0x30 + mfg.length) prd (storeString 0x5 0x30 mfg m)))

def fetchString (m : Image) (record : Nat) : List UInt8 :=
  let r := unpackVC (fetch m record 3)
  if validStr r.1 r.2 then fetch m r.1 r.2 else []

theorem validStr_iff (ptr len : Nat) :
    validStr ptr len = true ↔ 0x20 ≤ ptr ∧ len ≠ 0 ∧ ptr + len < 512 := by
  have hsize : eepromSize = 512 := rfl
  rw [validStr]
  split
  · exact iff_of_false nofun (by omega)
  · split
    · exact iff_of_false nofun (by omega)
    · split
      · exact iff_of_false nofun (by omega)
      · exact iff_of_true rfl (by omega)

theorem ensures_writeEEString {d : Device} {m : Image} (h : d.At m) (record addr : Nat)
    (string : List UInt8) :
    Dialogue.Ensures (Device.serve residue) (writeEEString record addr string) d
      fun a t => a = addr + string.length ∧ t.At (storeString record addr string m) := by
  by_cases hne : string.length ≠ 0
  · rw [writeEEString, if_pos hne, storeString, stringRecord, if_pos hne]
    apply Dialogue.ensures_bind
    apply (ensures_writeEE residue h record _).mono
    intro _ t ht
    apply Dialogue.ensures_bind
    exact (ensures_writeEE residue ht addr string).mono fun _ u hu =>
      Dialogue.ensures_pure ⟨rfl, hu⟩
  · have hnil : string = [] := List.eq_nil_of_length_eq_zero (not_not.mp hne)
    subst hnil
    apply Dialogue.ensures_bind
    exact (ensures_writeEE residue h record _).mono fun _ t ht => Dialogue.ensures_pure ⟨rfl, ht⟩

theorem ensures_writeEEStrings {d : Device} {m : Image} (h : d.At m)
    (mfg prd ser extra : List UInt8) :
    Dialogue.Ensures (Device.serve residue) (writeEEStrings mfg prd ser extra) d
      fun _ t => t.At (storeStrings mfg prd ser extra m) := by
  apply Dialogue.ensures_bind_eq (ensures_writeEEString residue h 0x5 0x30 mfg)
  intro _ ht
  apply Dialogue.ensures_bind_eq (ensures_writeEEString residue ht 0x8 _ prd)
  intro _ ht
  apply Dialogue.ensures_bind_eq (ensures_writeEEString residue ht 0xb _ ser)
  intro _ ht
  apply Dialogue.ensures_bind
  exact (ensures_writeEEString residue ht 0x10 _ extra).mono fun _ t ht =>
    Dialogue.ensures_pure ht.2

theorem ensures_readEEString {d : Device} {m : Image} (h : d.At m) (ptr len : Nat) :
    Dialogue.Ensures (Device.serve residue) (readEEString ptr len) d
      fun s t => s = (if validStr ptr len then fetch m ptr len else []) ∧ t.At m := by
  by_cases hv : validStr ptr len = true
  · rw [readEEString, if_pos hv, if_pos hv]
    exact ensures_readEE residue h ptr len
  · rw [readEEString, if_neg hv, if_neg hv]
    exact Dialogue.ensures_pure ⟨rfl, h⟩

theorem ensures_readEEStrings {d : Device} {m : Image} (h : d.At m) :
    Dialogue.Ensures (Device.serve residue) readEEStrings d
      fun strings t => strings = [fetchString m 5, fetchString m 8, fetchString m 0xb,
        fetchString m 0x10] ∧ t.At m := by
  apply Dialogue.ensures_bind_eq (ensures_readEE residue h 5 3)
  intro _ ht
  apply Dialogue.ensures_bind_eq (ensures_readEE residue ht 8 3)
  intro _ ht
  apply Dialogue.ensures_bind_eq (ensures_readEE residue ht 0xb 3)
  intro _ ht
  apply Dialogue.ensures_bind_eq (ensures_readEE residue ht 0x10 3)
  intro _ ht
  apply Dialogue.ensures_bind_eq (ensures_readEEString residue ht _ _)
  intro _ ht
  apply Dialogue.ensures_bind_eq (ensures_readEEString residue ht _ _)
  intro _ ht
  apply Dialogue.ensures_bind_eq (ensures_readEEString residue ht _ _)
  intro _ ht
  apply Dialogue.ensures_bind_eq (ensures_readEEString residue ht _ _)
  intro _ ht
  exact Dialogue.ensures_pure ⟨rfl, ht⟩

theorem ensures_write_readEEStrings {d : Device} (hidle : d.inEp = none)
    (mfg prd ser extra : List UInt8) :
    Dialogue.Ensures (Device.serve residue)
      (do writeEEStrings mfg prd ser extra; readEEStrings) d
      fun strings _ => strings =
        [5, 8, 0xb, 0x10].map (fetchString (storeStrings mfg prd ser extra d.image)) := by
  apply Dialogue.ensures_bind
  apply (ensures_writeEEStrings residue ⟨hidle, rfl⟩ mfg prd ser extra).mono
  intro _ t ht
  exact (ensures_readEEStrings residue ht).mono fun _ _ h => h.1

/-! ### Reading back -/

theorem stringRecord_length (addr : Nat) (string : List UInt8) :
    (stringRecord addr string).length = 3 := by
  unfold stringRecord
  split <;> rfl

/-- The memory holds a string at `addr` and its record. -/
structure Stored (m : Image) (record addr : Nat) (string : List UInt8) : Prop where
  record : fetch m record 3 = stringRecord addr string
  string : fetch m addr string.length = string

theorem unpackVC_record {addr len : Nat} (haddr : addr < 65536) (hlen : len < 256) :
    unpackVC (packV addr ++ packC len) = (addr, len) := by
  refine Prod.ext ?_ ?_
  · change (LittleEndian.word (LittleEndian.low (UInt16.ofNat addr))
      (LittleEndian.high (UInt16.ofNat addr))).toNat = addr
    rw [LittleEndian.word_low_high, UInt16.toNat_ofNat']
    omega
  · change (UInt8.ofNat len).toNat = len
    rw [UInt8.toNat_ofNat']
    omega

theorem Stored.fetchString_eq_iff {m : Image} {record addr : Nat} {string : List UInt8}
    (h : Stored m record addr string) (h255 : string.length ≤ 255) (h20 : 0x20 ≤ addr)
    (hn : addr + string.length ≤ 512) :
    fetchString m record = string ↔ string.length = 0 ∨ addr + string.length < 512 := by
  rw [fetchString, h.record, stringRecord]
  by_cases hne : string.length ≠ 0
  · rw [if_pos hne, unpackVC_record (by omega) (by omega)]
    have hvalid : validStr addr string.length = true ↔ addr + string.length < 512 := by
      rw [validStr_iff]
      omega
    dsimp only
    split
    case isTrue hv => simp [h.string, hvalid.mp hv]
    case isFalse hv =>
      have hlast : ¬ addr + string.length < 512 := fun hlt => hv (hvalid.mpr hlt)
      simp only [hne, hlast, or_self, iff_false]
      exact fun he => hne (by rw [← he]; rfl)
  · have hnil : string = [] := List.eq_nil_of_length_eq_zero (not_not.mp hne)
    subst hnil
    rw [if_neg hne, unpackVC_record (by decide) (by decide)]
    exact iff_of_true rfl (Or.inl rfl)

/-- The blocks that `storeStrings` stores, in order. -/
def stringBlocks (mfg prd ser extra : List UInt8) : List (Block UInt8) :=
  [(0x5, stringRecord 0x30 mfg), (0x30, mfg),
    (0x8, stringRecord (0x30 + mfg.length) prd), (0x30 + mfg.length, prd),
    (0xb, stringRecord (0x30 + mfg.length + prd.length) ser),
    (0x30 + mfg.length + prd.length, ser),
    (0x10, stringRecord (0x30 + mfg.length + prd.length + ser.length) extra),
    (0x30 + mfg.length + prd.length + ser.length, extra)]

theorem storeStrings_eq (m : Image) (mfg prd ser extra : List UInt8) :
    storeStrings mfg prd ser extra m = storeBlocks m (stringBlocks mfg prd ser extra) := rfl

section Blocks

variable {mfg prd ser extra : List UInt8}

theorem stringBlocks_inside
    (hfit : mfg.length + prd.length + ser.length + extra.length ≤ 464) :
    ∀ b ∈ stringBlocks mfg prd ser extra, b.1 + b.2.length ≤ 512 := by
  simp only [stringBlocks, List.mem_cons, List.not_mem_nil, or_false, forall_eq_or_imp, forall_eq,
    stringRecord_length]
  omega

theorem stringBlocks_apart : (stringBlocks mfg prd ser extra).Pairwise Block.Apart := by
  simp only [stringBlocks, List.pairwise_cons, List.mem_cons, List.not_mem_nil, or_false,
    forall_eq_or_imp, forall_eq, Block.Apart, stringRecord_length, false_implies, implies_true,
    List.Pairwise.nil, and_true]
  and_intros <;> omega

/-- The four strings where `writeEEStrings` puts them. -/
theorem stored_storeStrings (m : Image)
    (hfit : mfg.length + prd.length + ser.length + extra.length ≤ 464) :
    Stored (storeStrings mfg prd ser extra m) 0x5 0x30 mfg ∧
      Stored (storeStrings mfg prd ser extra m) 0x8 (0x30 + mfg.length) prd ∧
      Stored (storeStrings mfg prd ser extra m) 0xb (0x30 + mfg.length + prd.length) ser ∧
      Stored (storeStrings mfg prd ser extra m) 0x10
        (0x30 + mfg.length + prd.length + ser.length) extra := by
  have hback {record addr : Nat} {string : List UInt8}
      (hrecord : (record, stringRecord addr string) ∈ stringBlocks mfg prd ser extra)
      (hstring : (addr, string) ∈ stringBlocks mfg prd ser extra) :
      Stored (storeStrings mfg prd ser extra m) record addr string := by
    rw [storeStrings_eq]
    have hfound := fetch_storeBlocks m (stringBlocks_inside hfit) stringBlocks_apart hrecord
    rw [stringRecord_length] at hfound
    exact ⟨hfound, fetch_storeBlocks m (stringBlocks_inside hfit) stringBlocks_apart hstring⟩
  refine ⟨hback ?_ ?_, hback ?_ ?_, hback ?_ ?_, hback ?_ ?_⟩ <;> simp [stringBlocks]

end Blocks

theorem fetchString_storeStrings_iff (m : Image) {mfg prd ser extra : List UInt8}
    (hmfg : mfg.length ≤ 255) (hprd : prd.length ≤ 255) (hser : ser.length ≤ 255)
    (hextra : extra.length ≤ 255)
    (hfit : mfg.length + prd.length + ser.length + extra.length ≤ 464) :
    [5, 8, 0xb, 0x10].map (fetchString (storeStrings mfg prd ser extra m)) =
        [mfg, prd, ser, extra] ↔
      mfg.length + prd.length + ser.length + extra.length < 464 := by
  obtain ⟨h0, h1, h2, h3⟩ := stored_storeStrings m hfit
  simp only [List.map_cons, List.map_nil, List.cons.injEq, and_true,
    h0.fetchString_eq_iff hmfg (by omega) (by omega),
    h1.fetchString_eq_iff hprd (by omega) (by omega),
    h2.fetchString_eq_iff hser (by omega) (by omega),
    h3.fetchString_eq_iff hextra (by omega) (by omega)]
  omega

/-- Four strings that fit are read back as written exactly when they leave the last cell free. -/
theorem strings_round_trip_iff {d : Device} (hidle : d.inEp = none)
    {mfg prd ser extra : List UInt8} (hmfg : mfg.length ≤ 255) (hprd : prd.length ≤ 255)
    (hser : ser.length ≤ 255) (hextra : extra.length ≤ 255)
    (hfit : mfg.length + prd.length + ser.length + extra.length ≤ 464) :
    (∃ t, Dialogue.run (Device.serve residue)
        (do writeEEStrings mfg prd ser extra; readEEStrings) d =
          some ([mfg, prd, ser, extra], t)) ↔
      mfg.length + prd.length + ser.length + extra.length < 464 := by
  have hread := fetchString_storeStrings_iff d.image hmfg hprd hser hextra hfit
  have hrun := ensures_write_readEEStrings residue hidle mfg prd ser extra
  constructor
  · intro h
    rcases h with ⟨t, ht⟩
    exact hread.mp (hrun.unique ht).symm
  · intro hlt
    obtain ⟨strings, t, ht, rfl⟩ := hrun
    exact ⟨t, by rw [ht, hread.mpr hlt]⟩

theorem short_strings_round_trip :
    ∃ t, Dialogue.run (Device.serve fun _ => [])
      (do writeEEStrings [77, 70] [] [48] [1, 2]; readEEStrings)
      (.powerUp (fun _ => 0xFF) (fun _ => 0) fun _ _ => 0) =
        some ([[77, 70], [], [48], [1, 2]], t) :=
  (strings_round_trip_iff (fun _ => []) rfl (by decide) (by decide) (by decide) (by decide)
    (by decide)).mpr (by decide)

/-- Strings of 255 and 209 bytes fill the EEPROM to its last cell. -/
theorem full_strings_lost :
    ¬ ∃ t, Dialogue.run (Device.serve fun _ => [])
      (do writeEEStrings (List.replicate 255 65) (List.replicate 209 66) [] []; readEEStrings)
      (.powerUp (fun _ => 0xFF) (fun _ => 0) fun _ _ => 0) =
        some ([List.replicate 255 65, List.replicate 209 66, [], []], t) := by
  intro h
  rcases h with ⟨t, ht⟩
  have hmfg : (List.replicate 255 (65 : UInt8)).length = 255 := List.length_replicate
  have hprd : (List.replicate 209 (66 : UInt8)).length = 209 := List.length_replicate
  have hnil : ([] : List UInt8).length = 0 := rfl
  have hread := (ensures_write_readEEStrings (fun _ => []) rfl _ _ _ _).unique ht
  have hlt := (fetchString_storeStrings_iff _ (by omega) (by omega) (by omega) (by omega)
    (by omega)).mp hread.symm
  omega

/-! ### The rest of the configuration -/

/-- What is stored below 0x20 and beside a record does not reach the string that is read back. -/
theorem fetchString_store {m : Image} {record addr : Nat} {val : List UInt8}
    (hlow : addr + val.length ≤ 0x20) (hr : record + 3 ≤ 0x20)
    (hdisjoint : addr + val.length ≤ record ∨ record + 3 ≤ addr) :
    fetchString (store m addr val) record = fetchString m record := by
  have hrecord : fetch (store m addr val) record 3 = fetch m record 3 :=
    fetch_store_disjoint m (by omega) (by omega) hdisjoint
  rw [fetchString, fetchString, hrecord]
  split
  case isTrue hv =>
    have hbounds := (validStr_iff _ _).mp hv
    exact fetch_store_disjoint m (by omega) (by omega) (Or.inl (by omega))
  case isFalse => rfl

def configAddresses : List Nat := [0, 1, 2, 3, 4, 0xE, 0xF]

theorem read_storeString_config {m m' : Image} {c : Nat} (hm : read m c = read m' c)
    (hc : c < 512) (record : Nat) (hr : record + 3 ≤ 512) (hout : c < record ∨ record + 3 ≤ c)
    (addr : Nat) (string : List UInt8) :
    read (storeString record addr string m) c = read (store m' addr string) c := by
  apply read_store_congr
  rw [← hm]
  apply read_store_untouched
  intro k hk
  rw [stringRecord_length] at hk
  rw [Nat.mod_eq_of_lt (by omega), Nat.mod_eq_of_lt hc]
  omega

/-- In the cells of the configuration, writing the strings amounts to storing them all from 0x30
on. -/
theorem read_storeStrings_config (m : Image) (mfg prd ser extra : List UInt8) {c : Nat}
    (hc : c ∈ configAddresses) :
    read (storeStrings mfg prd ser extra m) c =
      read (store m 0x30 (mfg ++ prd ++ ser ++ extra)) c := by
  have hclear : c < 512 ∧ (c < 0x5 ∨ 0x5 + 3 ≤ c) ∧ (c < 0x8 ∨ 0x8 + 3 ≤ c) ∧
      (c < 0xb ∨ 0xb + 3 ≤ c) ∧ (c < 0x10 ∨ 0x10 + 3 ≤ c) := by
    revert c
    decide
  obtain ⟨h512, h5, h8, hb, h10⟩ := hclear
  have h0 := read_storeString_config (Eq.refl (read m c)) h512 0x5 (by omega) h5 0x30 mfg
  have h1 := read_storeString_config h0 h512 0x8 (by omega) h8 (0x30 + mfg.length) prd
  have h2 := read_storeString_config h1 h512 0xb (by omega) hb
    (0x30 + mfg.length + prd.length) ser
  have h3 := read_storeString_config h2 h512 0x10 (by omega) h10
    (0x30 + mfg.length + prd.length + ser.length) extra
  rw [storeStrings, h3, store_append, store_append, store_append]
  simp only [List.length_append, Nat.add_assoc]

theorem read_storeStrings_config_iff (m : Image) (mfg prd ser extra : List UInt8) {c : Nat}
    (hc : c ∈ configAddresses) :
    read (storeStrings mfg prd ser extra m) c = read m c ↔
      ∀ k (hk : k < (mfg ++ prd ++ ser ++ extra).length), (0x30 + k) % 512 = c →
        (mfg ++ prd ++ ser ++ extra).length ≤ k + 512 →
          (mfg ++ prd ++ ser ++ extra)[k] = read m c := by
  have hmod : c % 512 = c := by
    revert c
    decide
  rw [read_storeStrings_config m mfg prd ser extra hc, read_store_eq_iff, hmod]

/-- Writing four strings leaves the rest of the configuration as it was exactly when every byte that
wraps around onto one of its cells, and is not overwritten by a later one, is what was there. -/
theorem strings_keep_config_iff {d : Device} (hidle : d.inEp = none)
    (mfg prd ser extra : List UInt8) :
    (∃ t, (writeEEStrings mfg prd ser extra).run (Device.serve residue) d = some ((), t) ∧
      ∀ c ∈ configAddresses, read t.image c = read d.image c) ↔
      ∀ c ∈ configAddresses, ∀ k (hk : k < (mfg ++ prd ++ ser ++ extra).length),
        (0x30 + k) % 512 = c → (mfg ++ prd ++ ser ++ extra).length ≤ k + 512 →
          (mfg ++ prd ++ ser ++ extra)[k] = read d.image c := by
  have hrun := ensures_writeEEStrings residue ⟨hidle, rfl⟩ mfg prd ser extra
  constructor
  · intro h c hc
    rcases h with ⟨t, ht, hkeep⟩
    rw [← read_storeStrings_config_iff d.image mfg prd ser extra hc, ← (hrun.unique ht).image]
    exact hkeep c hc
  · intro h
    obtain ⟨_, t, ht, hat⟩ := hrun
    refine ⟨t, ht, fun c hc => ?_⟩
    rw [hat.image]
    exact (read_storeStrings_config_iff d.image mfg prd ser extra hc).mpr (h c hc)

/-- Strings that fit touch nothing else. -/
theorem strings_fit_keep_config {mfg prd ser extra : List UInt8}
    (hfit : (mfg ++ prd ++ ser ++ extra).length ≤ 464) (m : Image) {c : Nat}
    (hc : c ∈ configAddresses) : read (storeStrings mfg prd ser extra m) c = read m c := by
  rw [read_storeStrings_config_iff m mfg prd ser extra hc]
  intro k hk hland
  have hlow : ∀ c ∈ configAddresses, c < 0x30 := by decide
  have := hlow c hc
  omega

theorem short_strings_keep_config :
    ∃ t, (writeEEStrings [77, 70] [] [48] [1, 2]).run (Device.serve fun _ => [])
        (.powerUp (fun _ => 0xFF) (fun _ => 0) fun _ _ => 0) = some ((), t) ∧
      ∀ c ∈ configAddresses, read t.image c =
        read (Device.powerUp (fun _ => 0xFF) (fun _ => 0) fun _ _ => 0).image c :=
  (strings_keep_config_iff (fun _ => []) rfl [77, 70] [] [48] [1, 2]).mpr (by decide)

/-- A string of 465 bytes wraps around onto the magic byte. -/
theorem long_string_overwrites_magic :
    ¬ ∃ t, (writeEEStrings (List.replicate 465 65) [] [] []).run (Device.serve fun _ => [])
        (.powerUp (fun _ => 0xFF) (fun _ => 0) fun _ _ => 0) = some ((), t) ∧
      ∀ c ∈ configAddresses, read t.image c =
        read (Device.powerUp (fun _ => 0xFF) (fun _ => 0) fun _ _ => 0).image c := by
  intro h
  rcases h with ⟨t, ht, hkeep⟩
  have hrun := (ensures_writeEEStrings (fun _ => []) ⟨rfl, rfl⟩ _ _ _ _).unique ht
  have h0 := hkeep 0 (by decide)
  rw [hrun.image, read_storeStrings_config_iff _ _ _ _ _ (by decide)] at h0
  simp only [List.append_nil, List.length_replicate, List.getElem_replicate] at h0
  have hbyte : (65 : UInt8) = 0xFF := h0 464 (by omega) (by omega) (by omega)
  exact absurd hbyte (by decide)

end UsbSpdt
