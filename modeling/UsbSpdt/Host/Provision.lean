import UsbSpdt.Boot.Identifiers
import UsbSpdt.Host.Registers

/-!
# From the host's calls to the next boot

The host writes the memory map and the firmware reads it at boot. What is provisioned is what the
device enumerates with, and the two readers of the map agree as long as a record is null or points
to a string inside the EEPROM.
-/

namespace UsbSpdt

open AttenSwitch CyclicMemory

/-! ### The firmware's view of a record -/

theorem toNat_word_ne_zero (w : UInt16) : w ≠ 0 ↔ w.toNat ≠ 0 :=
  not_congr ⟨fun h => congrArg UInt16.toNat h, fun h => UInt16.toNat.inj h⟩

theorem toNat_byte_ne_zero (b : UInt8) : b ≠ 0 ↔ b.toNat ≠ 0 :=
  not_congr ⟨fun h => congrArg UInt8.toNat h, fun h => UInt8.toNat.inj h⟩

/-- Both readers decode a record in the same way. -/
theorem bootString_eq (m : Image) (record : Nat) :
    bootString m record =
      if (unpackVC (fetch m record 3)).1 ≠ 0 ∧ (unpackVC (fetch m record 3)).2 ≠ 0 then
        some (fetch m (unpackVC (fetch m record 3)).1 (unpackVC (fetch m record 3)).2)
      else none := by
  simp only [bootString, toNat_word_ne_zero, toNat_byte_ne_zero]
  rfl

theorem Stored.bootString_eq {m : Image} {record addr : Nat} {string : List UInt8}
    (h : Stored m record addr string) (haddr : 0 < addr) (hn : addr + string.length ≤ 512)
    (h255 : string.length ≤ 255) :
    bootString m record = if string = [] then none else some string := by
  rw [UsbSpdt.bootString_eq, h.record, stringRecord]
  by_cases hne : string.length ≠ 0
  · have hnil : string ≠ [] := fun he => hne (congrArg List.length he)
    rw [if_pos hne, unpackVC_record (by omega) (by omega), if_neg hnil, if_pos ⟨by omega, hne⟩,
      h.string]
  · have hnil : string = [] := List.eq_nil_of_length_eq_zero (not_not.mp hne)
    subst hnil
    rw [if_neg hne, unpackVC_record (by decide) (by decide)]
    rfl

theorem Stored.store_before {m : Image} {record addr : Nat} {string : List UInt8}
    (h : Stored m record addr string) {a : Nat} {val : List UInt8} (ha : a + val.length ≤ record)
    (hr : record + 3 ≤ addr) (hn : addr + string.length ≤ 512) :
    Stored (store m a val) record addr string where
  record := by
    rw [fetch_store_disjoint m (by omega) (by omega) (Or.inl ha), h.record]
  string := by
    rw [fetch_store_disjoint m (by omega) (by omega) (Or.inl (by omega)), h.string]

/-! ### Provisioning -/

namespace FittingStrings

def forArray (s : FittingStrings) : StringArray → List UInt8
  | .manufacturer => s.mfg
  | .product => s.prd
  | .serialNumber => s.ser

/-- Where `writeEEStrings` puts it. -/
def addrFor (s : FittingStrings) : StringArray → Nat
  | .manufacturer => 0x30
  | .product => 0x30 + s.mfg.length
  | .serialNumber => 0x30 + s.mfg.length + s.prd.length

/-- The strings fit the arrays that they are copied to at boot. -/
def FitArrays (s : FittingStrings) : Prop := ∀ a, (s.forArray a).length < a.size

theorem addrFor_bounds (s : FittingStrings) (a : StringArray) :
    0x30 ≤ s.addrFor a ∧ s.addrFor a + (s.forArray a).length ≤ 512 := by
  have hfit := s.fit
  cases a <;> simp only [addrFor, forArray] <;> omega

def StoredIn (s : FittingStrings) (m : Image) : Prop :=
  ∀ a : StringArray, Stored m a.record.toNat (s.addrFor a) (s.forArray a)

theorem storedIn_storeStrings (s : FittingStrings) (m : Image) :
    s.StoredIn (storeStrings s.mfg s.prd s.ser s.extra m) := by
  obtain ⟨hmfg, hprd, hser, -⟩ := stored_storeStrings m (Nat.le_of_lt s.fit)
  intro a
  cases a with
  | manufacturer => exact hmfg
  | product => exact hprd
  | serialNumber => exact hser

theorem StoredIn.store {s : FittingStrings} {m : Image} (h : s.StoredIn m) {addr : Nat}
    {val : List UInt8} (hlow : addr + val.length ≤ 5) : s.StoredIn (store m addr val) := by
  intro a
  have hbounds := s.addrFor_bounds a
  have hrecord : 5 ≤ a.record.toNat ∧ a.record.toNat + 3 ≤ 0x30 := by
    cases a <;> decide
  exact (h a).store_before (by omega) (by omega) hbounds.2

end FittingStrings

/-- What the three provisioning calls leave in the memory. -/
structure Provisioned (m : Image) (vid pid : UInt16) (s : FittingStrings) : Prop where
  magicByte : read m 0 = magic
  vidPid : fetch m 1 4 = packV vid.toNat ++ packV pid.toNat
  strings : s.StoredIn m

/-- The three calls, in one of their orders. -/
def provisioning (vid pid : UInt16) (hvid : vid ≠ 0) (s : FittingStrings) : List Setter :=
  [.eeVidPid vid pid hvid, .writeEEStrings s, .eeMagic magic]

theorem mem_provisioning {vid pid : UInt16} {hvid : vid ≠ 0} {s : FittingStrings}
    {calls : List Setter} (hcalls : calls.Perm (provisioning vid pid hvid s)) {o : Setter}
    (ho : o ∈ calls) :
    o = .eeVidPid vid pid hvid ∨ o = .writeEEStrings s ∨ o = .eeMagic magic := by
  simpa only [provisioning, List.mem_cons, List.not_mem_nil, or_false] using
    hcalls.mem_iff.mp ho

/-- Whatever the order, each call leaves what the other two have written. -/
theorem provisioned_run (m : Image) {vid pid : UInt16} {hvid : vid ≠ 0} {s : FittingStrings}
    {calls : List Setter} (hcalls : calls.Perm (provisioning vid pid hvid s)) :
    Provisioned (Service.run Setter.onImage m calls).2 vid pid s := by
  have hmem (o : Setter) (ho : o ∈ provisioning vid pid hvid s) : o ∈ calls :=
    hcalls.mem_iff.mpr ho
  have hlen : (packV vid.toNat ++ packV pid.toNat).length = 4 := rfl
  have hlen1 : [magic].length = 1 := rfl
  constructor
  case magicByte =>
    have hfetch : fetch (Service.run Setter.onImage m calls).2 0 1 = [magic] := by
      apply Service.run_establishes (P := fun m => fetch m 0 1 = [magic])
        (o := Setter.eeMagic magic)
      · intro m
        exact fetch_store m 0 [magic] (by omega)
      · exact hmem _ (by simp [provisioning])
      · intro m o ho hne hm
        rcases mem_provisioning hcalls ho with rfl | rfl | rfl
        · rw [← hm]
          exact fetch_store_disjoint m (by omega) (by omega) (by omega)
        · rw [← hm]
          exact fetch_storeStrings_config s m 0 1 (by decide)
        · exact absurd rfl hne
    exact (List.cons.inj hfetch).1
  case vidPid =>
    apply Service.run_establishes (P := fun m => fetch m 1 4 = _)
      (o := Setter.eeVidPid vid pid hvid)
    · intro m
      exact fetch_store m 1 _ (by omega)
    · exact hmem _ (by simp [provisioning])
    · intro m o ho hne hm
      rcases mem_provisioning hcalls ho with rfl | rfl | rfl
      · exact absurd rfl hne
      · rw [← hm]
        exact fetch_storeStrings_config s m 1 4 (by decide)
      · rw [← hm]
        exact fetch_store_disjoint m (by omega) (by omega) (by omega)
  case strings =>
    apply Service.run_establishes (P := s.StoredIn) (o := Setter.writeEEStrings s)
    · intro m
      exact s.storedIn_storeStrings m
    · exact hmem _ (by simp [provisioning])
    · intro m o ho hne hm
      rcases mem_provisioning hcalls ho with rfl | rfl | rfl
      · exact hm.store (by omega)
      · exact absurd rfl hne
      · exact hm.store (by omega)

/-- What a boot from a provisioned memory enumerates with, on top of the compiled-in strings. -/
structure Enumerates (b : Boot) (vid pid : UInt16) (s : FittingStrings)
    (compiledIn : StringArray → Nat → UInt8) : Prop where
  idVendor : b.identity.idVendor = vid
  idProduct : b.identity.idProduct = pid
  shortProdID : (shortProdID b).toNat = pid.toNat % 256
  inBounds : ∀ st ∈ b.stores, st.InBounds
  strings : ∀ a, load compiledIn b.stores a =
    if s.forArray a = [] then compiledIn a else overlay (s.forArray a) (compiledIn a)

theorem FittingStrings.StoredIn.bootString {s : FittingStrings} {m : Image} (h : s.StoredIn m)
    (a : StringArray) :
    bootString m a.record.toNat = if s.forArray a = [] then none else some (s.forArray a) := by
  have hbounds := s.addrFor_bounds a
  have h255 : (s.forArray a).length ≤ 255 := by
    cases a with
    | manufacturer => exact s.mfg_le
    | product => exact s.prd_le
    | serialNumber => exact s.ser_le
  exact (h a).bootString_eq (by omega) hbounds.2 h255

theorem Provisioned.enumerates {m : Image} {vid pid : UInt16} {s : FittingStrings}
    (h : Provisioned m vid pid s) (hvid : vid ≠ 0) (hpid : pid ≠ 0) (hfit : s.FitArrays)
    (compiledIn : StringArray → Nat → UInt8) :
    Enumerates (readEEprom (.powerUp m)) vid pid s compiledIn := by
  have hmagic : m 0 = magic := h.magicByte
  have hidentity : (readEEprom (.powerUp m)).identity = ⟨vid, vid, pid, pid⟩ := by
    obtain ⟨h1, h2, h3, h4, -⟩ :
        read m 1 = _ ∧ read m 2 = _ ∧ read m 3 = _ ∧ read m 4 = _ ∧ True := by
      simpa only [fetch, packV, List.cons_append, List.nil_append, List.cons.injEq, and_true]
        using h.vidPid
    apply readEEprom_identity hmagic _ hvid _ hpid
    · rw [h1, h2, word_packed]
    · rw [h3, h4, word_packed]
  constructor
  case idVendor => rw [hidentity]
  case idProduct => rw [hidentity]
  case shortProdID =>
    rw [shortProdID, hidentity, UInt8.toNat_ofNat']
    exact Nat.mod_mod _ _
  case inBounds =>
    apply readEEprom_inBounds hmagic
    intro a bytes hbytes
    rw [h.strings.bootString] at hbytes
    split at hbytes
    · cases hbytes
    · obtain rfl : s.forArray a = bytes := by simpa using hbytes
      exact hfit a
  case strings =>
    intro a
    rw [load_readEEprom hmagic, h.strings.bootString]
    split <;> rfl

/-- Every order of the three calls makes the next boot enumerate with what they were given. -/
theorem provisioned_identity (residue : List UInt8 → List UInt8) {d : Device}
    (hidle : d.inEp = none) {vid pid : UInt16} (hvid : vid ≠ 0) (hpid : pid ≠ 0)
    (s : FittingStrings) (hfit : s.FitArrays) {calls : List Setter}
    (hcalls : calls.Perm (provisioning vid pid hvid s))
    (compiledIn : StringArray → Nat → UInt8) :
    ∃ results t,
      (Dialogue.each Setter.session calls).run (Device.serve residue) d = some (results, t) ∧
        Enumerates (readEEprom (.powerUp t.image)) vid pid s compiledIn := by
  obtain ⟨results, t, hrun, hat⟩ := ensures_setters residue ⟨hidle, rfl⟩ calls
  refine ⟨results, t, hrun, ?_⟩
  rw [hat.image]
  exact (provisioned_run d.image hcalls).enumerates hvid hpid hfit compiledIn

/-- A product string alone, with the magic byte first. -/
theorem product_string_identity :
    ∃ results t, (Dialogue.each Setter.session
        [.eeMagic magic, .eeVidPid 0x1234 0x0102 (by decide),
          .writeEEStrings ⟨[], [80, 68], [], [1], by decide, by decide, by decide, by decide,
            by decide⟩]).run (Device.serve fun _ => [])
          (.powerUp (fun _ => 0xFF) (fun _ => 0) fun _ _ => 0) = some (results, t) ∧
      Enumerates (readEEprom (.powerUp t.image)) 0x1234 0x0102
        ⟨[], [80, 68], [], [1], by decide, by decide, by decide, by decide, by decide⟩
        fun _ _ => 0 :=
  provisioned_identity (fun _ => []) rfl (by decide) (by decide) _
    (by intro a; cases a <;> decide)
    (List.perm_append_singleton (Setter.eeMagic magic) [_, _]).symm _

end UsbSpdt
