import Mathlib.Data.List.Induction
import UsbSpdt.Host.Strings

/-!
# The configuration setters as registers

`eeMagic`, `eeVidPid`, `eePolarity` and `writeEEStrings` share one memory. Seen through the getters
each of them sets a register of its own, and `eePolarity` does not set its to what it is told when
only S1 is to be pulsed high.
-/

namespace UsbSpdt

open AttenSwitch CyclicMemory

/-- Four strings that `writeEEStrings` can store and `readEEStrings` find again. -/
structure FittingStrings where
  mfg : List UInt8
  prd : List UInt8
  ser : List UInt8
  extra : List UInt8
  mfg_le : mfg.length ≤ 255
  prd_le : prd.length ≤ 255
  ser_le : ser.length ≤ 255
  extra_le : extra.length ≤ 255
  fit : mfg.length + prd.length + ser.length + extra.length < 464

/-- A call of a setter with arguments in range. -/
inductive Setter where
  | eeMagic (m : UInt8)
  | eeVidPid (vid pid : UInt16) (vid_ne_zero : vid ≠ 0)
  | eePolarity (s1pol s2pol : Bool)
  | writeEEStrings (strings : FittingStrings)

/-- What the getters return. -/
@[ext] structure Config where
  magic : Nat
  vidPid : Nat × Nat
  polarity : Nat × Nat
  strings : List (List UInt8)

namespace Config

/-- Each setter sets its own register. -/
def set (c : Config) : Setter → Config
  | .eeMagic m => { c with magic := m.toNat }
  | .eeVidPid vid pid _ => { c with vidPid := (vid.toNat, pid.toNat) }
  | .eePolarity s1pol s2pol => { c with polarity := (s1pol.toNat, s2pol.toNat) }
  | .writeEEStrings s => { c with strings := [s.mfg, s.prd, s.ser, s.extra] }

/-- The registers that a memory holds. -/
def ofImage (m : Image) : Config where
  magic := ((fetch m 0 1).getD 0 0).toNat
  vidPid := unpackVV (fetch m 1 4)
  polarity := unpackCC (fetch m 0xe 2)
  strings := [5, 8, 0xb, 0x10].map (fetchString m)

end Config

namespace Setter

def session : Setter → Session Unit
  | .eeMagic m => do
    let _ ← eeMagicOf (some m.toNat)
    pure ()
  | .eeVidPid vid pid _ => do
    let _ ← AttenSwitch.eeVidPid (some vid.toNat) (some pid.toNat)
    pure ()
  | .eePolarity s1pol s2pol => do
    let _ ← AttenSwitch.eePolarity (some s1pol.toNat) (some s2pol.toNat)
    pure ()
  | .writeEEStrings s => AttenSwitch.writeEEStrings s.mfg s.prd s.ser s.extra

/-- What the call does to the memory. -/
def write (m : Image) : Setter → Image
  | .eeMagic b => store m 0 [b]
  | .eeVidPid vid pid _ => store m 1 (packV vid.toNat ++ packV pid.toNat)
  | .eePolarity s1pol s2pol =>
    store m 0xe (packC s1pol.toNat ++ packC (s2pol || s1pol).toNat)
  | .writeEEStrings s => storeStrings s.mfg s.prd s.ser s.extra m

/-- What the setter sets its register to: an S2 polarity of 0 gives way to that of S1. -/
def effective : Setter → Setter
  | .eePolarity s1pol s2pol => .eePolarity s1pol (s2pol || s1pol)
  | o => o

end Setter

/-- All getters, one after another. -/
def getConfig : Session Config := do
  let magic ← eeMagicOf none
  let vidPid ← eeVidPid none none
  let polarity ← eePolarity none none
  let strings ← readEEStrings
  pure ⟨magic, vidPid, polarity, strings⟩

/-! ### What the sessions do to the memory -/

variable (residue : List UInt8 → List UInt8)

theorem ensures_getMagic {d : Device} {m : Image} (h : d.At m) :
    Dialogue.Ensures (Device.serve residue) (eeMagicOf none) d
      fun magic t => magic = ((fetch m 0 1).getD 0 0).toNat ∧ t.At m := by
  apply Dialogue.ensures_bind_eq (ensures_readEE residue h 0 1)
  intro t ht
  exact Dialogue.ensures_pure ⟨rfl, ht⟩

theorem ensures_getVidPid {d : Device} {m : Image} (h : d.At m) :
    Dialogue.Ensures (Device.serve residue) (eeVidPid none none) d
      fun vidPid t => vidPid = unpackVV (fetch m 1 4) ∧ t.At m := by
  apply Dialogue.ensures_bind_eq (ensures_readEE residue h 1 4)
  intro t ht
  exact Dialogue.ensures_pure ⟨rfl, ht⟩

theorem ensures_getPolarity {d : Device} {m : Image} (h : d.At m) :
    Dialogue.Ensures (Device.serve residue) (eePolarity none none) d
      fun polarity t => polarity = unpackCC (fetch m 0xe 2) ∧ t.At m := by
  apply Dialogue.ensures_bind_eq (ensures_readEE residue h 0xe 2)
  intro t ht
  exact Dialogue.ensures_pure ⟨rfl, ht⟩

theorem ensures_getConfig {d : Device} {m : Image} (h : d.At m) :
    Dialogue.Ensures (Device.serve residue) getConfig d
      fun c t => c = Config.ofImage m ∧ t.At m := by
  apply Dialogue.ensures_bind_eq (ensures_getMagic residue h)
  intro t ht
  apply Dialogue.ensures_bind_eq (ensures_getVidPid residue ht)
  intro t ht
  apply Dialogue.ensures_bind_eq (ensures_getPolarity residue ht)
  intro t ht
  apply Dialogue.ensures_bind_eq (ensures_readEEStrings residue ht)
  intro t ht
  exact Dialogue.ensures_pure ⟨rfl, ht⟩

theorem packC_byte (b : UInt8) : packC (b.toNat &&& 0xff) = [b] := by
  have hlow : b.toNat &&& 0xff = b.toNat := by
    rw [Nat.and_two_pow_sub_one_eq_mod b.toNat 8]
    exact Nat.mod_eq_of_lt b.toNat_lt
  rw [hlow, packC, UInt8.ofNat_toNat]

theorem word_packed (w : UInt16) : LittleEndian.word (LittleEndian.low (UInt16.ofNat w.toNat))
    (LittleEndian.high (UInt16.ofNat w.toNat)) = w := by
  rw [LittleEndian.word_low_high, UInt16.ofNat_toNat]

theorem unpackVV_packV (vid pid : UInt16) :
    unpackVV (packV vid.toNat ++ packV pid.toNat) = (vid.toNat, pid.toNat) :=
  Prod.ext (congrArg UInt16.toNat (word_packed vid)) (congrArg UInt16.toNat (word_packed pid))

theorem word_and (w : UInt16) : w.toNat &&& 0xffff = w.toNat := by
  rw [Nat.and_two_pow_sub_one_eq_mod w.toNat 16]
  exact Nat.mod_eq_of_lt w.toNat_lt

theorem orDefault_word {w : UInt16} (h : w ≠ 0) (default : Nat) :
    orDefault (some w.toNat) default = w.toNat := by
  have hne : w.toNat ≠ 0 := by
    intro hz
    exact h (UInt16.toNat.inj hz)
  rw [orDefault, Option.getD_some, if_pos hne]

/-- A setter that stores `val` at `addr` and returns something. -/
theorem ensures_stores {α : Type} {d : Device} {m : Image} (h : d.At m) {call : Session α}
    {addr : Nat} {val : List UInt8} {a : α} (hcall : call = do writeEE addr val; pure a) :
    Dialogue.Ensures (Device.serve residue) (do let _ ← call; pure ()) d
      fun _ t => t.At (store m addr val) := by
  subst hcall
  apply Dialogue.ensures_bind
  apply Dialogue.ensures_bind
  apply (ensures_writeEE residue h addr val).mono
  intro _ t ht
  exact Dialogue.ensures_pure (Dialogue.ensures_pure ht)

theorem ensures_setter {d : Device} {m : Image} (o : Setter) (h : d.At m) :
    Dialogue.Ensures (Device.serve residue) o.session d fun _ t => t.At (o.write m) := by
  cases o with
  | eeMagic b =>
    apply ensures_stores residue h
    rw [← packC_byte b]
    rfl
  | eeVidPid vid pid hvid =>
    apply ensures_stores residue h
    simp only [AttenSwitch.eeVidPid, orDefault_word hvid, word_and]
    rfl
  | eePolarity s1pol s2pol =>
    cases s1pol <;> cases s2pol <;> exact ensures_stores residue h rfl
  | writeEEStrings s => exact ensures_writeEEStrings residue h s.mfg s.prd s.ser s.extra

/-! ### What the getters see -/

/-- The records lie between the ids and the polarities, and after these. -/
theorem strings_store {m : Image} {addr : Nat} {val : List UInt8}
    (h : addr + val.length ≤ 5 ∨ 0xe ≤ addr ∧ addr + val.length ≤ 0x10) :
    (Config.ofImage (store m addr val)).strings = (Config.ofImage m).strings := by
  apply List.map_congr_left
  intro record hrecord
  have hbetween : record + 3 ≤ 0x20 ∧ 5 ≤ record ∧ (record + 3 ≤ 0xe ∨ 0x10 ≤ record) := by
    revert record
    decide
  exact fetchString_store (by omega) (by omega) (by omega)

theorem ofImage_store_magic (m : Image) (b : UInt8) :
    Config.ofImage (store m 0 [b]) = { Config.ofImage m with magic := b.toNat } := by
  have hlen : [b].length = 1 := rfl
  have hback : fetch (store m 0 [b]) 0 1 = [b] := fetch_store m 0 [b] (by omega)
  have hother (a len : Nat) (ha : 1 ≤ a) (hn : a + len ≤ 512) :
      fetch (store m 0 [b]) a len = fetch m a len :=
    fetch_store_disjoint m (by omega) hn (Or.inl (by omega))
  apply Config.ext
  · simp only [Config.ofImage, hback]
    rfl
  · simp only [Config.ofImage, hother 1 4 (by decide) (by decide)]
  · simp only [Config.ofImage, hother 0xe 2 (by decide) (by decide)]
  · exact strings_store (by omega)

theorem ofImage_store_vidPid (m : Image) (vid pid : UInt16) :
    Config.ofImage (store m 1 (packV vid.toNat ++ packV pid.toNat)) =
      { Config.ofImage m with vidPid := (vid.toNat, pid.toNat) } := by
  have hlen : (packV vid.toNat ++ packV pid.toNat).length = 4 := rfl
  have hback : fetch (store m 1 (packV vid.toNat ++ packV pid.toNat)) 1 4 =
      packV vid.toNat ++ packV pid.toNat := fetch_store m 1 _ (by omega)
  have hother (a len : Nat) (ha : a + len ≤ 1 ∨ 5 ≤ a) (hn : a + len ≤ 512) :
      fetch (store m 1 (packV vid.toNat ++ packV pid.toNat)) a len = fetch m a len :=
    fetch_store_disjoint m (by omega) hn (by omega)
  apply Config.ext
  · simp only [Config.ofImage, hother 0 1 (by decide) (by decide)]
  · simp only [Config.ofImage, hback, unpackVV_packV]
  · simp only [Config.ofImage, hother 0xe 2 (by decide) (by decide)]
  · exact strings_store (by omega)

theorem ofImage_store_polarity (m : Image) (s1pol s2pol : Bool) :
    Config.ofImage (store m 0xe (packC s1pol.toNat ++ packC s2pol.toNat)) =
      { Config.ofImage m with polarity := (s1pol.toNat, s2pol.toNat) } := by
  have hlen : (packC s1pol.toNat ++ packC s2pol.toNat).length = 2 := rfl
  have hback : fetch (store m 0xe (packC s1pol.toNat ++ packC s2pol.toNat)) 0xe 2 =
      packC s1pol.toNat ++ packC s2pol.toNat := fetch_store m 0xe _ (by omega)
  have hother (a len : Nat) (ha : a + len ≤ 0xe) :
      fetch (store m 0xe (packC s1pol.toNat ++ packC s2pol.toNat)) a len = fetch m a len :=
    fetch_store_disjoint m (by omega) (by omega) (Or.inr ha)
  apply Config.ext
  · simp only [Config.ofImage, hother 0 1 (by decide)]
  · simp only [Config.ofImage, hother 1 4 (by decide)]
  · simp only [Config.ofImage, hback]
    cases s1pol <;> cases s2pol <;> rfl
  · exact strings_store (by omega)

theorem fetch_storeStrings_config (s : FittingStrings) (m : Image) (a len : Nat)
    (h : ∀ k < len, a + k ∈ configAddresses) :
    fetch (storeStrings s.mfg s.prd s.ser s.extra m) a len = fetch m a len := by
  have hfit : (s.mfg ++ s.prd ++ s.ser ++ s.extra).length ≤ 464 := by
    simp only [List.length_append]
    exact Nat.le_of_lt s.fit
  exact fetch_congr fun k hk => strings_fit_keep_config hfit m (h k hk)

theorem ofImage_storeStrings (m : Image) (s : FittingStrings) :
    Config.ofImage (storeStrings s.mfg s.prd s.ser s.extra m) =
      { Config.ofImage m with strings := [s.mfg, s.prd, s.ser, s.extra] } := by
  apply Config.ext
  · simp only [Config.ofImage, fetch_storeStrings_config s m 0 1 (by decide)]
  · simp only [Config.ofImage, fetch_storeStrings_config s m 1 4 (by decide)]
  · simp only [Config.ofImage, fetch_storeStrings_config s m 0xe 2 (by decide)]
  · exact (fetchString_storeStrings_iff m s.mfg_le s.prd_le s.ser_le s.extra_le
      (Nat.le_of_lt s.fit)).mpr s.fit

/-- One call sets one register and leaves the others. -/
theorem ofImage_write (m : Image) (o : Setter) :
    Config.ofImage (o.write m) = (Config.ofImage m).set o.effective := by
  cases o with
  | eeMagic b => exact ofImage_store_magic m b
  | eeVidPid vid pid _ => exact ofImage_store_vidPid m vid pid
  | eePolarity s1pol s2pol => exact ofImage_store_polarity m s1pol (s2pol || s1pol)
  | writeEEStrings s => exact ofImage_storeStrings m s

/-! ### Sequences of calls -/

def Setter.polarityArgs : Setter → Option (Bool × Bool)
  | .eePolarity s1pol s2pol => some (s1pol, s2pol)
  | _ => none

def lastPolarity (os : List Setter) : Option (Bool × Bool) :=
  (os.filterMap Setter.polarityArgs).getLast?

/-- The registers after the calls, when each sets its own. -/
def Config.after (c : Config) (os : List Setter) : Config := os.foldl Config.set c

theorem Config.after_append_singleton (c : Config) (os : List Setter) (o : Setter) :
    c.after (os ++ [o]) = (c.after os).set o := by
  simp only [Config.after, List.foldl_append, List.foldl_cons, List.foldl_nil]

theorem lastPolarity_append_singleton (os : List Setter) (o : Setter) :
    lastPolarity (os ++ [o]) = o.polarityArgs.or (lastPolarity os) := by
  rw [lastPolarity, List.filterMap_append, List.getLast?_append, lastPolarity]
  cases o <;> rfl

/-- Only the polarities can differ from what they were set to. -/
theorem after_effective (c : Config) (os : List Setter) :
    c.after (os.map Setter.effective) = { c.after os with
      polarity := (lastPolarity os).elim c.polarity
        fun args => (args.1.toNat, (args.2 || args.1).toNat) } := by
  induction os using List.reverseRecOn with
  | nil => rfl
  | append_singleton os o ih =>
    rw [List.map_append, List.map_singleton, Config.after_append_singleton, ih,
      Config.after_append_singleton, lastPolarity_append_singleton]
    cases o <;> rfl

theorem after_polarity (c : Config) (os : List Setter) :
    (c.after os).polarity = (lastPolarity os).elim c.polarity
      fun args => (args.1.toNat, args.2.toNat) := by
  induction os using List.reverseRecOn with
  | nil => rfl
  | append_singleton os o ih =>
    rw [Config.after_append_singleton, lastPolarity_append_singleton]
    cases o with
    | eePolarity s1pol s2pol => rfl
    | eeMagic m => exact ih
    | eeVidPid vid pid h => exact ih
    | writeEEStrings s => exact ih

theorem after_effective_iff (c : Config) (os : List Setter) :
    c.after (os.map Setter.effective) = c.after os ↔ lastPolarity os ≠ some (true, false) := by
  rw [after_effective, Config.ext_iff]
  simp only [after_polarity, true_and, and_true]
  rcases lastPolarity os with _ | ⟨s1pol, s2pol⟩
  · exact iff_of_true rfl nofun
  · simp only [Option.elim_some]
    cases s1pol <;> cases s2pol <;> decide

/-! ### The registers behind an idle device -/

def Setter.onImage (m : Image) (o : Setter) : Unit × Image := ((), o.write m)

theorem ensures_setters {d : Device} {m : Image} (h : d.At m) (os : List Setter) :
    Dialogue.Ensures (Device.serve residue) (Dialogue.each Setter.session os) d
      fun _ t => t.At (Service.run Setter.onImage m os).2 := by
  have hcall (d : Device) (m : Image) (o : Setter) (h : d.At m) :
      Dialogue.Ensures (Device.serve residue) o.session d
        fun r t => r = (o.onImage m).1 ∧ t.At (o.onImage m).2 :=
    (ensures_setter residue o h).mono fun _ t ht => ⟨rfl, ht⟩
  exact (Dialogue.ensures_each hcall h os).mono fun _ t ht => ht.2

theorem ofImage_run (m : Image) (os : List Setter) :
    Config.ofImage (Service.run Setter.onImage m os).2 =
      (Config.ofImage m).after (os.map Setter.effective) := by
  induction os generalizing m with
  | nil => rfl
  | cons o os ih =>
    rw [Service.run_cons, ih]
    simp only [Setter.onImage, ofImage_write]
    rfl

theorem ensures_set_getConfig {d : Device} (hidle : d.inEp = none) (os : List Setter) :
    Dialogue.Ensures (Device.serve residue)
      (do let _ ← Dialogue.each Setter.session os; getConfig) d
      fun c _ => c = (Config.ofImage d.image).after (os.map Setter.effective) := by
  apply Dialogue.ensures_bind
  apply (ensures_setters residue ⟨hidle, rfl⟩ os).mono
  intro _ t ht
  apply (ensures_getConfig residue ht).mono
  intro c _ hc
  rw [hc.1, ofImage_run]

/-- The getters return what each register was set to last exactly when the last call of
`eePolarity`, if there was one, was not for S1 alone. -/
theorem registers_last_write_iff {d : Device} (hidle : d.inEp = none) (os : List Setter) :
    (∃ t, Dialogue.run (Device.serve residue)
        (do let _ ← Dialogue.each Setter.session os; getConfig) d =
          some ((Config.ofImage d.image).after os, t)) ↔
      lastPolarity os ≠ some (true, false) := by
  rw [← after_effective_iff (Config.ofImage d.image)]
  have hrun := ensures_set_getConfig residue hidle os
  constructor
  · intro h
    rcases h with ⟨t, ht⟩
    exact (hrun.unique ht).symm
  · intro heq
    obtain ⟨c, t, hc, rfl⟩ := hrun
    exact ⟨t, by rw [hc, heq]⟩

theorem registers_last_write_mixed :
    ∃ t, Dialogue.run (Device.serve fun _ => [])
        (do
          let _ ← Dialogue.each Setter.session
            [.eePolarity true false, .eeMagic 0xAA, .eePolarity false true]
          getConfig)
        (.powerUp (fun _ => 0xFF) (fun _ => 0) fun _ _ => 0) =
      some ((Config.ofImage fun _ => 0xFF).after
        [.eePolarity true false, .eeMagic 0xAA, .eePolarity false true], t) :=
  (registers_last_write_iff (fun _ => []) rfl _).mpr (by decide)

/-- `eePolarity(1, 0)` is read back as both switches being pulsed high. -/
theorem s1_polarity_alone_lost :
    ¬ ∃ t, Dialogue.run (Device.serve fun _ => [])
        (do let _ ← Dialogue.each Setter.session [.eePolarity true false]; getConfig)
        (.powerUp (fun _ => 0xFF) (fun _ => 0) fun _ _ => 0) =
      some ((Config.ofImage fun _ => 0xFF).after [.eePolarity true false], t) := by
  intro h
  rcases h with ⟨t, ht⟩
  have hread := (ensures_set_getConfig (fun _ => []) rfl [.eePolarity true false]).unique ht
  have hpolarity : ((1, 0) : Nat × Nat) = (1, 1) := congrArg Config.polarity hread
  exact absurd hpolarity (by decide)

end UsbSpdt
