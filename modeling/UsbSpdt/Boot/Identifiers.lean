import UsbSpdt.Boot.ReadEEprom

/-!
# The identifiers after boot

What `readEEprom` makes of the ids and of the string arrays, said in terms of the image.
-/

namespace UsbSpdt

open CyclicMemory

def shortProdID (b : Boot) : UInt8 := UInt8.ofNat (b.identity.productID.toNat % 256)

/-- The arrays after some stores. -/
def load (arrays : StringArray → Nat → UInt8) (stores : List Store) : StringArray → Nat → UInt8 :=
  stores.foldl (fun arrays st =>
    Function.update arrays st.array (Function.update (arrays st.array) st.offset st.byte)) arrays

/-- The stores that put a string and its terminator at the start of an array. -/
def placed (dest : StringArray) (bytes : List UInt8) : List Store :=
  (bytes.zipIdx.map fun x => ⟨dest, x.2, x.1⟩) ++ [⟨dest, bytes.length, 0⟩]

/-- An array that begins with a string and its terminator. -/
def overlay (bytes : List UInt8) (array : Nat → UInt8) (j : Nat) : UInt8 :=
  if j ≤ bytes.length then bytes.getD j 0 else array j

/-- What a record of the image makes the firmware copy. -/
def bootString (m : Image) (record : Nat) : Option (List UInt8) :=
  let strPtr := LittleEndian.word (read m record) (read m (record + 1))
  let strLen := read m (record + 2)
  if strPtr ≠ 0 ∧ strLen ≠ 0 then some (fetch m strPtr.toNat strLen.toNat) else none

/-- What becomes of an array when its string is replaced, or left alone. -/
def withString (string : Option (List UInt8)) (array : Nat → UInt8) : Nat → UInt8 :=
  string.elim array (overlay · array)

/-! ### Stores -/

theorem load_append (arrays : StringArray → Nat → UInt8) (xs ys : List Store) :
    load arrays (xs ++ ys) = load (load arrays xs) ys := List.foldl_append

theorem load_cons (arrays : StringArray → Nat → UInt8) (st : Store) (stores : List Store) :
    load arrays (st :: stores) = load (Function.update arrays st.array
      (Function.update (arrays st.array) st.offset st.byte)) stores := rfl

theorem load_zipIdx (array : Nat → UInt8) (arrays : StringArray → Nat → UInt8)
    (dest : StringArray) (bytes : List UInt8) (k : Nat) :
    load (Function.update arrays dest array) ((bytes.zipIdx k).map fun x => ⟨dest, x.2, x.1⟩) =
      Function.update arrays dest fun j =>
        if k ≤ j ∧ j < k + bytes.length then bytes.getD (j - k) 0 else array j := by
  induction bytes generalizing array k with
  | nil =>
    have hempty (j : Nat) : ¬ (k ≤ j ∧ j < k + ([] : List UInt8).length) := by
      simp only [List.length_nil]
      omega
    simp only [hempty, if_false]
    rfl
  | cons x bytes ih =>
    rw [List.zipIdx_cons, List.map_cons, load_cons]
    simp only [Function.update_idem, Function.update_self]
    rw [ih]
    congr 1
    funext j
    rw [List.length_cons]
    rcases Nat.lt_trichotomy j k with hlt | rfl | hgt
    · rw [if_neg (by omega), if_neg (by omega), Function.update_of_ne (by omega)]
    · rw [if_neg (by omega), if_pos (by omega), Function.update_self, Nat.sub_self]
      rfl
    · have hindex : j - k = j - (k + 1) + 1 := by omega
      rw [Function.update_of_ne (by omega), hindex, List.getD_cons_succ]
      by_cases hj : j < k + (bytes.length + 1)
      · rw [if_pos (by omega), if_pos (by omega)]
      · rw [if_neg (by omega), if_neg (by omega)]

theorem load_placed (arrays : StringArray → Nat → UInt8) (dest : StringArray)
    (bytes : List UInt8) :
    load arrays (placed dest bytes) =
      Function.update arrays dest (overlay bytes (arrays dest)) := by
  have hbytes := load_zipIdx (arrays dest) arrays dest bytes 0
  rw [Function.update_eq_self] at hbytes
  rw [placed, load_append, hbytes, load_cons]
  simp only [Function.update_idem, Function.update_self]
  change Function.update arrays dest _ = _
  congr 1
  funext j
  rw [overlay]
  by_cases hend : j = bytes.length
  · have hnul : bytes.getD bytes.length 0 = 0 := by simp
    rw [hend, Function.update_self, if_pos (Nat.le_refl _), hnul]
  · rw [Function.update_of_ne hend]
    by_cases hj : j < bytes.length
    · rw [if_pos (by omega), if_pos (by omega), Nat.sub_zero]
    · rw [if_neg (by omega), if_neg (by omega)]

/-! ### Copying -/

theorem copyFromEE_eq (e : Eeprom) (dest : StringArray) (addr : UInt16) (len : UInt8) :
    copyFromEE e dest addr len = placed dest (fetch e.image addr.toNat len.toNat) := by
  have hread (j : Nat) : e.read (addr + UInt16.ofNat j) = read e.image (addr.toNat + j) := by
    rw [Eeprom.read_eq]
    apply read_congr
    rw [UInt16.toNat_add, UInt16.toNat_ofNat']
    omega
  rw [copyFromEE, placed, fetch_length]
  congr 1
  apply List.ext_getElem
  · simp
  · intro j hj hj'
    simp only [List.getElem_map, List.getElem_range, List.getElem_zipIdx, fetch_getElem, hread,
      Nat.zero_add]

theorem readString_stores (array : StringArray) (b : Boot) :
    (readString array b).stores =
      b.stores ++ (bootString b.eeprom.image array.record.toNat).elim [] (placed array) := by
  have hptr : readStrPtr b.eeprom array.record =
      LittleEndian.word (read b.eeprom.image array.record.toNat)
        (read b.eeprom.image (array.record.toNat + 1)) := by
    rw [readStrPtr, Eeprom.read_eq, Eeprom.read_eq]
    cases array <;> rfl
  have hlen : b.eeprom.read (array.record + 2) =
      read b.eeprom.image (array.record.toNat + 2) := by
    rw [Eeprom.read_eq]
    cases array <;> rfl
  simp only [readString, bootString, hptr, hlen]
  split
  · simp only [copyFromEE_eq, Option.elim_some]
  · simp only [Option.elim_none, List.append_nil]

theorem readPolarity_identity (address : UInt16) (set : Int → Program Board Unit) (b : Boot) :
    (readPolarity address set b).identity = b.identity := by
  simp only [readPolarity]
  split <;> rfl

theorem readString_identity (array : StringArray) (b : Boot) :
    (readString array b).identity = b.identity := by
  simp only [readString]
  split <;> rfl

theorem readEEprom_stores {cells : Image} (h : cells 0 = magic) :
    (readEEprom (.powerUp cells)).stores =
      (bootString cells 5).elim [] (placed .manufacturer) ++
        (bootString cells 8).elim [] (placed .product) ++
        (bootString cells 0xb).elim [] (placed .serialNumber) := by
  simp only [readEEprom, powerUp_read_magic, h, if_true, readPolarity_frame, readString_stores,
    readString_eeprom, (readVendorID_frame _).1, (readVendorID_frame _).2,
    (readProductID_frame _).1, (readProductID_frame _).2]
  rfl

theorem load_withString (arrays : StringArray → Nat → UInt8) (dest : StringArray)
    (string : Option (List UInt8)) :
    load arrays (string.elim [] (placed dest)) =
      Function.update arrays dest (withString string (arrays dest)) := by
  cases string with
  | none => exact (Function.update_eq_self dest arrays).symm
  | some bytes => exact load_placed arrays dest bytes

/-! ### The boot -/

theorem placed_inBounds {dest : StringArray} {bytes : List UInt8} (h : bytes.length < dest.size) :
    ∀ st ∈ placed dest bytes, st.InBounds := by
  intro st hst
  rcases List.mem_append.mp hst with hst | hst
  · obtain ⟨⟨x, j⟩, hx, rfl⟩ := List.mem_map.mp hst
    have hj := List.snd_lt_of_mem_zipIdx hx
    exact Nat.lt_trans hj h
  · obtain rfl := List.mem_singleton.mp hst
    exact h

/-- Strings that leave room for their terminators stay in their arrays. -/
theorem readEEprom_inBounds {cells : Image} (h : cells 0 = magic)
    (hfit : ∀ (a : StringArray), ∀ bytes ∈ bootString cells a.record.toNat, bytes.length < a.size) :
    ∀ st ∈ (readEEprom (.powerUp cells)).stores, st.InBounds := by
  have hstring (a : StringArray) :
      ∀ st ∈ (bootString cells a.record.toNat).elim [] (placed a), st.InBounds := by
    intro st hst
    cases hb : bootString cells a.record.toNat with
    | none =>
      rw [hb] at hst
      cases hst
    | some bytes =>
      rw [hb] at hst
      exact placed_inBounds (hfit a bytes hb) st hst
  rw [readEEprom_stores h]
  simp only [List.forall_mem_append]
  exact ⟨⟨hstring .manufacturer, hstring .product⟩, hstring .serialNumber⟩

/-- Each array is that of its record, on top of what it held. -/
theorem load_readEEprom {cells : Image} (h : cells 0 = magic)
    (arrays : StringArray → Nat → UInt8) (a : StringArray) :
    load arrays (readEEprom (.powerUp cells)).stores a =
      withString (bootString cells a.record.toNat) (arrays a) := by
  rw [readEEprom_stores h, load_append, load_append, load_withString, load_withString,
    load_withString]
  cases a <;> rfl

theorem readStrPtr_powerUp (cells : Image) (address : UInt16) :
    readStrPtr (Boot.powerUp cells).eeprom address =
      LittleEndian.word (read cells address.toNat) (read cells (address + 1).toNat) := by
  rw [readStrPtr, Eeprom.read_eq, Eeprom.read_eq]
  rfl

/-- An id of zero leaves the compiled-in one. -/
def adopted (id compiledIn : UInt16) : UInt16 := if id ≠ 0 then id else compiledIn

theorem adopted_of_ne {id : UInt16} (h : id ≠ 0) (compiledIn : UInt16) :
    adopted id compiledIn = id := if_pos h

theorem readVendorID_identity (b : Boot) :
    (readVendorID b).identity =
      ⟨adopted (readStrPtr b.eeprom 1) b.identity.idVendor,
        adopted (readStrPtr b.eeprom 1) b.identity.vendorID, b.identity.idProduct,
        b.identity.productID⟩ := by
  simp only [readVendorID, adopted]
  split <;> rfl

theorem readProductID_identity (b : Boot) :
    (readProductID b).identity =
      ⟨b.identity.idVendor, b.identity.vendorID,
        adopted (readStrPtr b.eeprom 3) b.identity.idProduct,
        adopted (readStrPtr b.eeprom 3) b.identity.productID⟩ := by
  simp only [readProductID, adopted]
  split <;> rfl

theorem readEEprom_ids {cells : Image} (h : cells 0 = magic) :
    (readEEprom (.powerUp cells)).identity =
      ⟨adopted (LittleEndian.word (read cells 1) (read cells 2)) 0x4161,
        adopted (LittleEndian.word (read cells 1) (read cells 2)) 0x4161,
        adopted (LittleEndian.word (read cells 3) (read cells 4)) 0x00ff,
        adopted (LittleEndian.word (read cells 3) (read cells 4)) 0x00ff⟩ := by
  simp only [readEEprom, powerUp_read_magic, h, if_true, readPolarity_identity,
    readString_identity, readProductID_identity, readVendorID_identity, (readVendorID_frame _).1,
    readStrPtr_powerUp]
  rfl

theorem readEEprom_identity {cells : Image} {vid pid : UInt16} (h : cells 0 = magic)
    (hvid : LittleEndian.word (read cells 1) (read cells 2) = vid) (hvid0 : vid ≠ 0)
    (hpid : LittleEndian.word (read cells 3) (read cells 4) = pid) (hpid0 : pid ≠ 0) :
    (readEEprom (.powerUp cells)).identity = ⟨vid, vid, pid, pid⟩ := by
  rw [readEEprom_ids h, hvid, hpid, adopted_of_ne hvid0, adopted_of_ne hpid0]

/-- What becomes of the board when a polarity byte is read. -/
def polarized (setPulseHigh : Int → Program Board Unit) (polarity : UInt8) (b : Board) : Board :=
  if polarity = 0 ∨ polarity = 1 then ((setPulseHigh polarity.toNat).run b).2 else b

theorem readPolarity_board (address : UInt16) (set : Int → Program Board Unit) (b : Boot) :
    (readPolarity address set b).board = polarized set (b.eeprom.read address) b.board := by
  simp only [readPolarity, polarized]
  split <;> rfl

theorem readPolarity_eeprom (address : UInt16) (set : Int → Program Board Unit) (b : Boot) :
    (readPolarity address set b).eeprom = b.eeprom := by
  simp only [readPolarity]
  split <;> rfl

theorem readString_board (array : StringArray) (b : Boot) :
    (readString array b).board = b.board := by
  simp only [readString]
  split <;> rfl

theorem readIDs_board (b : Boot) : (readProductID (readVendorID b)).board = b.board := by
  simp only [readProductID, readVendorID]
  split <;> split <;> rfl

theorem readEEprom_board {cells : Image} (h : cells 0 = magic) :
    (readEEprom (.powerUp cells)).board = polarized s2SetPulseHigh (read cells 0xF)
      (polarized s1SetPulseHigh (read cells 0xE) .powerUp) := by
  simp only [readEEprom, powerUp_read_magic, h, if_true, readPolarity_board, readPolarity_eeprom,
    readString_eeprom, readString_board, readIDs_board, (readProductID_frame _).1,
    (readVendorID_frame _).1]
  rw [Eeprom.read_eq, Eeprom.read_eq]
  rfl

end UsbSpdt
