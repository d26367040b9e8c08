import UsbSpdt.Board.Spdt
import UsbSpdt.Eeprom.Driver
import UsbSpdt.Library.LittleEndian

/-!
# Reading the configuration at boot

`readEEprom` and `copyFromEE` of `cdcacm.c`. The string arrays are represented by the stores made
into them, so that a store past the end of its array shows.
-/

namespace UsbSpdt

def magic : UInt8 := 0xAA

/-- The static arrays that `copyFromEE` fills. -/
inductive StringArray where
  | manufacturer | product | serialNumber
  deriving DecidableEq, Repr

namespace StringArray

def size : StringArray → Nat
  | .manufacturer => 64
  | .product => 64
  | .serialNumber => 24

/-- Where the EEPROM holds the pointer of a string, followed by its length. -/
def record : StringArray → UInt16
  | .manufacturer => 5
  | .product => 8
  | .serialNumber => 0xB

end StringArray

structure Store where
  array : StringArray
  offset : Nat
  byte : UInt8

def Store.InBounds (st : Store) : Prop := st.offset < st.array.size

instance (st : Store) : Decidable st.InBounds := inferInstanceAs (Decidable (_ < _))

structure Identity where
  idVendor : UInt16
  vendorID : UInt16
  idProduct : UInt16
  productID : UInt16

structure Boot where
  eeprom : Eeprom
  board : Board
  identity : Identity
  /-- The stores into the string arrays, oldest first. -/
  stores : List Store

def Boot.powerUp (cells : Image) : Boot where
  eeprom := .powerUp cells
  board := .powerUp
  identity := ⟨0x4161, 0x4161, 0x00ff, 0x00ff⟩
  stores := []

def copyFromEE (e : Eeprom) (dest : StringArray) (addr : UInt16) (len : UInt8) : List Store :=
  (List.range len.toNat).map (fun j => ⟨dest, j, e.read (addr + UInt16.ofNat j)⟩) ++
    [⟨dest, len.toNat, 0⟩]

def readStrPtr (e : Eeprom) (address : UInt16) : UInt16 :=
  LittleEndian.word (e.read address) (e.read (address + 1))

def readVendorID (b : Boot) : Boot :=
  let id := readStrPtr b.eeprom 1
  if id ≠ 0 then { b with identity := { b.identity with idVendor := id, vendorID := id } } else b

def readProductID (b : Boot) : Boot :=
  let id := readStrPtr b.eeprom 3
  if id ≠ 0 then { b with identity := { b.identity with idProduct := id, productID := id } } else b

def readString (array : StringArray) (b : Boot) : Boot :=
  let strPtr := readStrPtr b.eeprom array.record
  let strLen := b.eeprom.read (array.record + 2)
  if strPtr ≠ 0 ∧ strLen ≠ 0 then
    { b with stores := b.stores ++ copyFromEE b.eeprom array strPtr strLen }
  else b

/-- A polarity byte other than 0 and 1 is ignored. -/
def readPolarity (address : UInt16) (setPulseHigh : Int → Program Board Unit) (b : Boot) : Boot :=
  let polarity := b.eeprom.read address
  if polarity = 0 ∨ polarity = 1 then
    { b with board := ((setPulseHigh polarity.toNat).run b.board).2 }
  else b

def readEEprom (b : Boot) : Boot :=
  if b.eeprom.read 0 = magic then
    b |> readVendorID |> readProductID
      |> readString .manufacturer |> readString .product |> readString .serialNumber
      |> readPolarity 0xE s1SetPulseHigh |> readPolarity 0xF s2SetPulseHigh
  else b

/-! ### What is stored -/

theorem readVendorID_frame (b : Boot) :
    (readVendorID b).eeprom = b.eeprom ∧ (readVendorID b).stores = b.stores := by
  simp only [readVendorID]
  split <;> exact ⟨rfl, rfl⟩

theorem readProductID_frame (b : Boot) :
    (readProductID b).eeprom = b.eeprom ∧ (readProductID b).stores = b.stores := by
  simp only [readProductID]
  split <;> exact ⟨rfl, rfl⟩

theorem readPolarity_frame (address : UInt16) (set : Int → Program Board Unit) (b : Boot) :
    (readPolarity address set b).stores = b.stores := by
  simp only [readPolarity]
  split <;> rfl

theorem readString_eeprom (array : StringArray) (b : Boot) :
    (readString array b).eeprom = b.eeprom := by
  simp only [readString]
  split <;> rfl

/-- A pointer of zero, or a length that leaves room for the terminator. -/
def RecordFits (cells : Image) (array : StringArray) : Prop :=
  let record := array.record.toNat
  (CyclicMemory.read cells record = 0 ∧ CyclicMemory.read cells (record + 1) = 0) ∨
    (CyclicMemory.read cells (record + 2)).toNat < array.size

/-- The last store of `copyFromEE` is the terminator at offset `len`. -/
theorem copyFromEE_inBounds_iff (e : Eeprom) (dest : StringArray) (addr : UInt16) (len : UInt8) :
    (∀ st ∈ copyFromEE e dest addr len, st.InBounds) ↔ len.toNat < dest.size := by
  constructor
  · intro h
    exact h ⟨dest, len.toNat, 0⟩ (List.mem_append_right _ (List.mem_singleton_self _))
  · intro h st hst
    rcases List.mem_append.mp hst with hst | hst
    · obtain ⟨j, hj, rfl⟩ := List.mem_map.mp hst
      exact Nat.lt_trans (List.mem_range.mp hj) h
    · obtain rfl := List.mem_singleton.mp hst
      exact h

theorem readString_inBounds_iff (array : StringArray) (b : Boot) :
    (∀ st ∈ (readString array b).stores, st.InBounds) ↔
      (∀ st ∈ b.stores, st.InBounds) ∧ RecordFits b.eeprom.image array := by
  have hptr : readStrPtr b.eeprom array.record = 0 ↔
      CyclicMemory.read b.eeprom.image array.record.toNat = 0 ∧
        CyclicMemory.read b.eeprom.image (array.record.toNat + 1) = 0 := by
    rw [readStrPtr, LittleEndian.word_eq_zero_iff, Eeprom.read_eq, Eeprom.read_eq]
    cases array <;> rfl
  have hlen : b.eeprom.read (array.record + 2) =
      CyclicMemory.read b.eeprom.image (array.record.toNat + 2) := by
    rw [Eeprom.read_eq]
    cases array <;> rfl
  have hsize : 0 < array.size := by cases array <;> decide
  simp only [readString, RecordFits, ← hptr, hlen]
  split
  case isTrue h =>
    simp only [List.forall_mem_append, copyFromEE_inBounds_iff, h.1, false_or]
  case isFalse h =>
    have hfits : readStrPtr b.eeprom array.record = 0 ∨
        (CyclicMemory.read b.eeprom.image (array.record.toNat + 2)).toNat < array.size := by
      by_cases hp : readStrPtr b.eeprom array.record = 0
      · exact Or.inl hp
      · have hz : CyclicMemory.read b.eeprom.image (array.record.toNat + 2) = 0 := by
          by_contra hz
          exact h ⟨hp, hz⟩
        rw [hz]
        exact Or.inr hsize
    simp only [hfits, and_true]

theorem powerUp_read_magic (cells : Image) :
    (Boot.powerUp cells).eeprom.read 0 = cells 0 := Eeprom.read_eq ..

theorem readEEprom_records {cells : Image} (h : cells 0 = magic) :
    (∀ st ∈ (readEEprom (.powerUp cells)).stores, st.InBounds) ↔
      RecordFits cells .manufacturer ∧ RecordFits cells .product ∧
        RecordFits cells .serialNumber := by
  simp only [readEEprom, powerUp_read_magic, h, if_true, readPolarity_frame,
    readString_inBounds_iff, readString_eeprom, (readVendorID_frame _).1, (readVendorID_frame _).2,
    (readProductID_frame _).1, (readProductID_frame _).2, and_assoc]
  simp [Boot.powerUp]

theorem readEEprom_no_magic {cells : Image} (h : cells 0 ≠ magic) :
    (readEEprom (.powerUp cells)).stores = [] := by
  simp only [readEEprom, powerUp_read_magic, h, if_false]
  rfl

/-- The stores at boot stay in their arrays exactly when the image has no magic byte or each of its
three string records fits. -/
theorem boot_in_bounds_iff (cells : Image) :
    (∀ st ∈ (readEEprom (.powerUp cells)).stores, st.InBounds) ↔
      (cells 0 = magic → ∀ array, RecordFits cells array) := by
  by_cases h : cells 0 = magic
  · rw [readEEprom_records h]
    constructor
    · intro hfits _ array
      cases array with
      | manufacturer => exact hfits.1
      | product => exact hfits.2.1
      | serialNumber => exact hfits.2.2
    · intro hfits
      exact ⟨hfits h _, hfits h _, hfits h _⟩
  · simp [readEEprom_no_magic h, h]

/-- A chip erased by the host, on which it has then written only the magic byte: every record
points to 0xFFFF and is 255 bytes long. -/
theorem erased_magic_overruns :
    ¬ ∀ st ∈ (readEEprom (.powerUp (CyclicMemory.write (fun _ => 0xFF) 0 magic))).stores,
      st.InBounds := by
  rw [readEEprom_records rfl]
  intro h
  rcases h with ⟨hfits, -⟩
  exact absurd hfits (by unfold RecordFits; decide)

end UsbSpdt
