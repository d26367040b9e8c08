import UsbSpdt.Host.Interrupted
import UsbSpdt.Host.Provision

/-!
# Provisioning a blank device

The script `setupUSB` writes the ids, the strings and the polarities and, last of all, the magic
byte. Until that byte is there the firmware ignores the memory, so that the script may be cut off
anywhere.
-/

namespace UsbSpdt

open AttenSwitch CyclicMemory

/-- A string and its record; unlike `writeEEString` the script records where an empty one would
be. -/
def setupString (record stringAddr : Nat) (string : List UInt8) : Session Nat := do
  writeEE record (packV stringAddr ++ packC string.length)
  if string.length ≠ 0 then
    writeEE stringAddr string
    pure (stringAddr + string.length)
  else pure (stringAddr + string.length)

/-- The two blocks that this writes. -/
def recordedString (record stringAddr : Nat) (string : List UInt8) : List (Block UInt8) :=
  [(record, packV stringAddr ++ packC string.length), (stringAddr, string)]

/-- The options of the script; `--s1` and `--s2` both set `$s1`. -/
structure SetupArgs where
  vendorId : Nat
  productId : Nat
  manufacturer : List UInt8
  product : List UInt8
  serial : List UInt8
  s1 : Int
  manufacturer_le : manufacturer.length ≤ 63
  product_le : product.length ≤ 63
  serial_le : serial.length ≤ 23

namespace SetupArgs

variable (a : SetupArgs)

/-- The script up to its last `writeEE`. -/
def setup : Session Unit := do
  writeEE 1 (packV a.vendorId ++ packV a.productId)
  let stringAddr ← setupString 5 0x30 a.manufacturer
  let stringAddr ← setupString 8 stringAddr a.product
  let _ ← setupString 0xb stringAddr a.serial
  writeEE 0xe [UInt8.ofInt a.s1]
  writeEE 0xf [1]
  writeEE 0 [magic]

def setupUSB : Session (List UInt8) := do
  a.setup
  readEE 0 512

def string : StringArray → List UInt8
  | .manufacturer => a.manufacturer
  | .product => a.product
  | .serialNumber => a.serial

def addr : StringArray → Nat
  | .manufacturer => 0x30
  | .product => 0x30 + a.manufacturer.length
  | .serialNumber => 0x30 + a.manufacturer.length + a.product.length

def stringBlocks (s : StringArray) : List (Block UInt8) :=
  recordedString s.record.toNat (a.addr s) (a.string s)

/-- What the script writes before the magic byte. -/
def blocks : List (Block UInt8) :=
  (1, packV a.vendorId ++ packV a.productId) :: (a.stringBlocks .manufacturer ++
    (a.stringBlocks .product ++ (a.stringBlocks .serialNumber ++
      [(0xe, [UInt8.ofInt a.s1]), (0xf, [1])])))

/-- The single-byte writes of the script, in order. -/
def writes : List (Nat × UInt8) := blockWrites a.blocks ++ [(0, magic)]

/-! ### The session -/

variable (residue : List UInt8 → List UInt8)

theorem performs_setupString {d : Device} {m : Image} (h : d.At m) (record stringAddr : Nat)
    (string : List UInt8) :
    PerformsWrites residue (blockWrites (recordedString record stringAddr string)) d m
      (setupString record stringAddr string) fun next _ => next = stringAddr + string.length := by
  apply Dialogue.performs_bind (performs_writeEE residue h record _)
  intro _ t _ ht
  by_cases hne : string.length ≠ 0
  · rw [if_pos hne]
    apply Dialogue.performs_bind (performs_writeEE residue ht stringAddr string)
    intro _ u _ hu
    exact Dialogue.performs_pure hu rfl
  · have hnil : string = [] := List.eq_nil_of_length_eq_zero (not_not.mp hne)
    subst hnil
    exact Dialogue.performs_pure ht rfl

theorem performs_setup {d : Device} {m : Image} (h : d.At m) :
    PerformsWrites residue a.writes d m a.setup fun _ _ => True := by
  simp only [writes, blocks, blockWrites, List.flatMap_cons, List.flatMap_append,
    List.append_assoc, List.flatMap_nil, List.nil_append]
  apply Dialogue.performs_bind (performs_writeEE residue h 1 _)
  intro _ _ _ h
  apply Dialogue.performs_bind (performs_setupString residue h 5 0x30 _)
  rintro _ _ rfl h
  apply Dialogue.performs_bind (performs_setupString residue h 8 _ _)
  rintro _ _ rfl h
  apply Dialogue.performs_bind (performs_setupString residue h 0xb _ _)
  rintro _ _ rfl h
  apply Dialogue.performs_bind (performs_writeEE residue h 0xe _)
  intro _ _ _ h
  apply Dialogue.performs_bind (performs_writeEE residue h 0xf _)
  intro _ _ _ h
  exact performs_writeEE residue h 0 [magic]

/-! ### Where the writes go -/

theorem blocks_inside : ∀ b ∈ a.blocks, 1 ≤ b.1 ∧ b.1 + b.2.length ≤ 512 := by
  have hmfg := a.manufacturer_le
  have hprd := a.product_le
  have hser := a.serial_le
  simp only [blocks, stringBlocks, recordedString, packV, packC, addr, string, List.cons_append,
    List.nil_append, List.mem_cons, List.not_mem_nil, or_false, forall_eq_or_imp, forall_eq,
    List.length_cons, List.length_nil]
  refine ⟨by omega, ⟨by decide, by decide⟩, by omega, ⟨by decide, by decide⟩, by omega,
    ⟨by decide, by decide⟩, by omega⟩

theorem blocks_apart : a.blocks.Pairwise Block.Apart := by
  simp only [blocks, stringBlocks, recordedString, packV, packC, addr, string, List.cons_append,
    List.nil_append, List.pairwise_cons, List.mem_cons, List.not_mem_nil, or_false,
    forall_eq_or_imp, forall_eq, Block.Apart, List.length_cons, List.length_nil, false_implies,
    implies_true, List.Pairwise.nil, and_true]
  have hmfg : StringArray.manufacturer.record.toNat = 5 := rfl
  have hprd : StringArray.product.record.toNat = 8 := rfl
  have hser : StringArray.serialNumber.record.toNat = 0xb := rfl
  rw [hmfg, hprd, hser]
  and_intros <;> omega

/-- No write but the last goes to the magic byte. -/
theorem magic_last (m : Image) {n : Nat} (hn : n < a.writes.length) :
    apply m (a.writes.take n) 0 = m 0 := by
  have hlen : a.writes.length = (blockWrites a.blocks).length + 1 := List.length_append
  rw [writes, List.take_append_of_le_length (by omega)]
  apply read_apply_untouched m _ 0
  intro w hw
  obtain ⟨b, hb, hlo, hhi⟩ := mem_blockWrites (List.mem_of_mem_take hw)
  have hinside := a.blocks_inside b hb
  rw [Nat.mod_eq_of_lt (by omega)]
  omega

theorem fetch_complete (m : Image) {b : Block UInt8} (hb : b ∈ a.blocks) :
    fetch (apply m a.writes) b.1 b.2.length = b.2 := by
  have hinside := a.blocks_inside b hb
  have hlast : fetch (store (storeBlocks m a.blocks) 0 [magic]) b.1 b.2.length =
      fetch (storeBlocks m a.blocks) b.1 b.2.length :=
    fetch_store_disjoint _ (by simp) hinside.2 (Or.inl (by simpa using hinside.1))
  rw [writes, apply_append, apply_blockWrites]
  exact hlast.trans
    (fetch_storeBlocks m (fun c hc => (a.blocks_inside c hc).2) a.blocks_apart hb)

/-! ### What the firmware makes of it -/

/-- The next boot takes the ids that are not zero and the strings that are not empty. -/
structure Adopts (b : Boot) : Prop where
  identity : b.identity =
    ⟨adopted (UInt16.ofNat a.vendorId) 0x4161, adopted (UInt16.ofNat a.vendorId) 0x4161,
      adopted (UInt16.ofNat a.productId) 0x00ff, adopted (UInt16.ofNat a.productId) 0x00ff⟩
  strings : ∀ (compiledIn : StringArray → Nat → UInt8) (s : StringArray),
    load compiledIn b.stores s = withString (nonempty (a.string s)) (compiledIn s)
  inBounds : ∀ st ∈ b.stores, st.InBounds
  board : b.board = polarized s2SetPulseHigh 1
    (polarized s1SetPulseHigh (UInt8.ofInt a.s1) .powerUp)

theorem stringBlocks_subset (s : StringArray) : ∀ b ∈ a.stringBlocks s, b ∈ a.blocks := by
  intro b hb
  cases s <;> simp [blocks, hb]

theorem string_lt_size (s : StringArray) : (a.string s).length < s.size := by
  cases s with
  | manufacturer => exact Nat.lt_succ_of_le a.manufacturer_le
  | product => exact Nat.lt_succ_of_le a.product_le
  | serialNumber => exact Nat.lt_succ_of_le a.serial_le

theorem addr_bounds (s : StringArray) : 0 < a.addr s ∧ a.addr s < 65536 := by
  have hmfg := a.manufacturer_le
  have hprd := a.product_le
  cases s <;> simp only [addr] <;> omega

theorem bootString_complete (m : Image) (s : StringArray) :
    bootString (apply m a.writes) s.record.toNat = nonempty (a.string s) := by
  have hrecord := a.fetch_complete m (a.stringBlocks_subset s _ List.mem_cons_self)
  have hstring := a.fetch_complete m
    (a.stringBlocks_subset s _ (List.mem_cons_of_mem _ List.mem_cons_self))
  have haddr := a.addr_bounds s
  have hlen := a.string_lt_size s
  have hsize : s.size ≤ 64 := by cases s <;> decide
  change fetch (apply m a.writes) s.record.toNat 3 = _ at hrecord
  rw [bootString_eq, hrecord, unpackVC_record haddr.2 (by omega), hstring, nonempty]
  by_cases hnil : a.string s = []
  · rw [if_neg (by simp [hnil]), if_pos hnil]
  · have hne : (a.string s).length ≠ 0 := fun h => hnil (List.eq_nil_of_length_eq_zero h)
    rw [if_pos ⟨by omega, hne⟩, if_neg hnil]

theorem adopts_complete (m : Image) : a.Adopts (readEEprom (.powerUp (apply m a.writes))) := by
  have hmagic : apply m a.writes 0 = magic := by
    rw [writes, apply_append]
    exact read_write_same (a := 0) (b := 0) (apply m (blockWrites a.blocks)) magic rfl
  have hids := a.fetch_complete m (b := (1, _)) List.mem_cons_self
  have hs1 := a.fetch_complete m (b := (0xe, [UInt8.ofInt a.s1])) (by simp [blocks])
  have hs2 := a.fetch_complete m (b := (0xf, [1])) (by simp [blocks])
  constructor
  case identity =>
    obtain ⟨h1, h2, h3, h4, -⟩ :
        read (apply m a.writes) 1 = _ ∧ read (apply m a.writes) 2 = _ ∧
          read (apply m a.writes) 3 = _ ∧ read (apply m a.writes) 4 = _ ∧ True := by
      simpa only [fetch, packV, List.cons_append, List.nil_append, List.cons.injEq, and_true,
        List.length_cons, List.length_nil] using hids
    rw [readEEprom_ids hmagic, h1, h2, h3, h4, LittleEndian.word_low_high,
      LittleEndian.word_low_high]
  case strings =>
    intro compiledIn s
    rw [load_readEEprom hmagic, bootString_complete]
  case inBounds =>
    apply readEEprom_inBounds hmagic
    intro s bytes hbytes
    rw [bootString_complete, nonempty] at hbytes
    split at hbytes
    · cases hbytes
    · obtain rfl : a.string s = bytes := by simpa using hbytes
      exact a.string_lt_size s
  case board =>
    rw [readEEprom_board hmagic, (List.cons.inj hs1).1, (List.cons.inj hs2).1]

end SetupArgs

/-- The device when the script has been cut off after `n` packets. -/
def Device.cutSetup (residue : List UInt8 → List UInt8) (d : Device) (a : SetupArgs) (n : Nat) :
    Device :=
  Dialogue.cut (Device.serve residue) n a.setupUSB d

/-- A script that is cut off before its last write has no effect on the next boot; one that is not
makes it adopt what it was given. -/
theorem setupUSB_all_or_nothing (residue : List UInt8 → List UInt8) {d : Device}
    (hidle : d.inEp = none) (hblank : d.image 0 ≠ magic) (a : SetupArgs) :
    (∀ n ≤ a.writes.length,
      (d.cutSetup residue a n).image = apply d.image (a.writes.take n)) ∧
    (∀ n < a.writes.length,
      readEEprom (.powerUp (d.cutSetup residue a n).image) =
        .powerUp (d.cutSetup residue a n).image) ∧
    ∃ buf t, a.setupUSB.run (Device.serve residue) d = some (buf, t) ∧
      t.image = apply d.image a.writes ∧ a.Adopts (readEEprom (.powerUp t.image)) := by
  have hsetup := a.performs_setup residue (d := d) ⟨hidle, rfl⟩
  have hcut (n : Nat) (hn : n ≤ a.writes.length) :
      (d.cutSetup residue a n).image = apply d.image (a.writes.take n) :=
    (hsetup.cut_bind _ hn).image
  refine ⟨hcut, ?_, ?_⟩
  · intro n hn
    have hmagic : (d.cutSetup residue a n).image 0 ≠ magic := by
      rw [hcut n (Nat.le_of_lt hn), a.magic_last d.image hn]
      exact hblank
    rw [readEEprom, powerUp_read_magic, if_neg hmagic]
  · obtain ⟨buf, t, hrun, hat⟩ : Dialogue.Ensures (Device.serve residue) a.setupUSB d
        fun _ t => t.At (apply d.image a.writes) := by
      apply Dialogue.ensures_bind
      apply hsetup.ensures.mono
      intro _ t ht
      exact (ensures_readEE residue ht.2 0 512).mono fun _ u hu => hu.2
    refine ⟨buf, t, hrun, hat.image, ?_⟩
    rw [hat.image]
    exact a.adopts_complete d.image

/-- An erased chip, and a product string alone. -/
theorem setupUSB_product_string :
    ∃ buf t, (SetupArgs.setupUSB ⟨0x4161, 2, [], [80, 68], [], 1, by decide, by decide,
        by decide⟩).run (Device.serve fun _ => [])
          (.powerUp (fun _ => 0xFF) (fun _ => 0) fun _ _ => 0) = some (buf, t) ∧
      SetupArgs.Adopts ⟨0x4161, 2, [], [80, 68], [], 1, by decide, by decide, by decide⟩
        (readEEprom (.powerUp t.image)) := by
  obtain ⟨buf, t, hrun, -, hadopts⟩ := (setupUSB_all_or_nothing (fun _ => [])
    (d := .powerUp (fun _ => 0xFF) (fun _ => 0) fun _ _ => 0) rfl (by decide)
    ⟨0x4161, 2, [], [80, 68], [], 1, by decide, by decide, by decide⟩).2.2
  exact ⟨buf, t, hrun, hadopts⟩

end UsbSpdt
