import UsbSpdt.Host.Readers

/-!
# An interrupted update of the strings

`writeEEStrings` rewrites the record of a string and then the string, byte by byte, over strings
that may still be in use. What the readers find when it is cut off after any of its writes.
-/

namespace UsbSpdt

open AttenSwitch CyclicMemory

/-- The strings in the order in which they are written. -/
inductive Slot where
  | mfg | prd | ser | extra
  deriving DecidableEq

namespace Slot

def record : Slot → Nat
  | .mfg => 5
  | .prd => 8
  | .ser => 0xb
  | .extra => 0x10

def index : Slot → Nat
  | .mfg => 0
  | .prd => 1
  | .ser => 2
  | .extra => 3

end Slot

def StringArray.toSlot : StringArray → Slot
  | .manufacturer => .mfg
  | .product => .prd
  | .serialNumber => .ser

def stringWrites (record addr : Nat) (string : List UInt8) : List (Nat × UInt8) :=
  writes record (stringRecord addr string) ++ writes addr string

namespace FittingStrings

def string (s : FittingStrings) : Slot → List UInt8
  | .mfg => s.mfg
  | .prd => s.prd
  | .ser => s.ser
  | .extra => s.extra

def addr (s : FittingStrings) : Slot → Nat
  | .mfg => 0x30
  | .prd => 0x30 + s.mfg.length
  | .ser => 0x30 + s.mfg.length + s.prd.length
  | .extra => 0x30 + s.mfg.length + s.prd.length + s.ser.length

def slotWrites (s : FittingStrings) (k : Slot) : List (Nat × UInt8) :=
  stringWrites k.record (s.addr k) (s.string k)

/-- The single-byte writes of `writeEEStrings`, in order. -/
def updateWrites (s : FittingStrings) : List (Nat × UInt8) :=
  s.slotWrites .mfg ++ (s.slotWrites .prd ++ (s.slotWrites .ser ++ s.slotWrites .extra))

/-- The writes before those of a string. -/
def before (s : FittingStrings) : Slot → List (Nat × UInt8)
  | .mfg => []
  | .prd => s.slotWrites .mfg
  | .ser => s.slotWrites .mfg ++ s.slotWrites .prd
  | .extra => s.slotWrites .mfg ++ s.slotWrites .prd ++ s.slotWrites .ser

def behind (s : FittingStrings) : Slot → List (Nat × UInt8)
  | .mfg => s.slotWrites .prd ++ (s.slotWrites .ser ++ s.slotWrites .extra)
  | .prd => s.slotWrites .ser ++ s.slotWrites .extra
  | .ser => s.slotWrites .extra
  | .extra => []

/-- How many writes come before those of a string. -/
def start (s : FittingStrings) (k : Slot) : Nat := (s.before k).length

theorem updateWrites_eq (s : FittingStrings) (k : Slot) :
    s.updateWrites = s.before k ++ (s.slotWrites k ++ s.behind k) := by
  cases k <;> simp only [updateWrites, before, behind, List.append_assoc, List.nil_append,
    List.append_nil]

end FittingStrings

/-! ### The session -/

variable (residue : List UInt8 → List UInt8)

abbrev PerformsWrites {α : Type} (ws : List (Nat × UInt8)) (d : Device) (m : Image)
    (p : Session α) (P : α → Device → Prop) : Prop :=
  Dialogue.Performs (Device.serve residue) Device.At (fun m w => write m w.1 w.2) ws d m p P

theorem performs_writeByte {α : Type} {d : Device} {m : Image} (h : d.At m) (addr : Nat)
    (x : UInt8) {ws : List (Nat × UInt8)} {f : Status × Packet → Session α}
    {P : α → Device → Prop}
    (hf : ∀ r t, t.At (write m addr x) → PerformsWrites residue ws t (write m addr x) (f r) P) :
    PerformsWrites residue ((addr, x) :: ws) d m
      (sendPacket (.make .writeee (packV addr ++ [x])) >>= f) P := by
  obtain ⟨r, t, hrun, hat⟩ := ensures_writeByte residue h addr x
  apply Dialogue.performs_ask h _ hrun (hf r t hat)
  split
  · exact Dialogue.over_die
  · exact Dialogue.over_done _

theorem performs_writeEE {d : Device} {m : Image} (h : d.At m) (addr : Nat) (val : List UInt8) :
    PerformsWrites residue (writes addr val) d m (writeEE addr val) fun _ _ => True := by
  induction val generalizing addr d m with
  | nil => exact Dialogue.performs_pure h trivial
  | cons x val ih =>
    apply performs_writeByte residue h
    intro _ t ht
    exact ih ht (addr + 1)

theorem performs_writeEEString {d : Device} {m : Image} (h : d.At m) (record addr : Nat)
    (string : List UInt8) :
    PerformsWrites residue (stringWrites record addr string) d m
      (writeEEString record addr string) fun a _ => a = addr + string.length := by
  by_cases hne : string.length ≠ 0
  · rw [writeEEString, if_pos hne, stringWrites, stringRecord, if_pos hne]
    apply Dialogue.performs_bind (performs_writeEE residue h record _)
    intro _ t _ ht
    rw [← List.append_nil (writes addr string)]
    apply Dialogue.performs_bind (performs_writeEE residue ht addr string)
    intro _ u _ hu
    exact Dialogue.performs_pure hu rfl
  · have hnil : string = [] := List.eq_nil_of_length_eq_zero (not_not.mp hne)
    subst hnil
    apply Dialogue.performs_bind (performs_writeEE residue h record _)
    intro _ t _ ht
    exact Dialogue.performs_pure ht rfl

theorem performs_writeEEStrings {d : Device} {m : Image} (h : d.At m) (s : FittingStrings) :
    PerformsWrites residue s.updateWrites d m (writeEEStrings s.mfg s.prd s.ser s.extra)
      fun _ _ => True := by
  apply Dialogue.performs_bind (performs_writeEEString residue h 0x5 0x30 s.mfg)
  rintro _ t rfl ht
  apply Dialogue.performs_bind (performs_writeEEString residue ht 0x8 _ s.prd)
  rintro _ t rfl ht
  apply Dialogue.performs_bind (performs_writeEEString residue ht 0xb _ s.ser)
  rintro _ t rfl ht
  rw [← List.append_nil (s.slotWrites .extra)]
  apply Dialogue.performs_bind (performs_writeEEString residue ht 0x10 _ s.extra)
  intro _ t _ ht
  exact Dialogue.performs_pure ht trivial

/-- Cut off after `n` writes, the update leaves what these make of the memory. -/
theorem cut_writeEEStrings {d : Device} {m : Image} (h : d.At m) (s : FittingStrings) (n : Nat) :
    (Dialogue.cut (Device.serve residue) n (writeEEStrings s.mfg s.prd s.ser s.extra) d).At
      (apply m (s.updateWrites.take n)) :=
  (performs_writeEEStrings residue h s).cut n

/-! ### Where the writes go -/

theorem mem_stringWrites {record addr : Nat} {string : List UInt8} {w : Nat × UInt8}
    (h : w ∈ stringWrites record addr string) :
    (record ≤ w.1 ∧ w.1 < record + 3) ∨ (addr ≤ w.1 ∧ w.1 < addr + string.length) := by
  rcases List.mem_append.mp h with h | h
  · have hw := mem_writes h
    rw [stringRecord_length] at hw
    exact Or.inl hw
  · exact Or.inr (mem_writes h)

theorem Slot.record_bounds (k : Slot) : 5 ≤ k.record ∧ k.record + 3 ≤ 0x13 := by
  cases k <;> decide

theorem Slot.record_apart {j k : Slot} (h : j ≠ k) :
    j.record + 3 ≤ k.record ∨ k.record + 3 ≤ j.record := by
  cases j <;> cases k <;> first | decide | exact absurd rfl h

/-- A write into another record, or into the strings between `lo` and `hi`. -/
def Beside (k : Slot) (lo hi : Nat) (w : Nat × UInt8) : Prop :=
  (w.1 < 0x13 ∧ (w.1 < k.record ∨ k.record + 3 ≤ w.1)) ∨ (lo ≤ w.1 ∧ w.1 < hi)

namespace FittingStrings

theorem addr_bounds (s : FittingStrings) (k : Slot) :
    0x30 ≤ s.addr k ∧ s.addr k + (s.string k).length < 512 := by
  have hfit := s.fit
  cases k <;> simp only [addr, string] <;> omega

theorem addr_le {s : FittingStrings} {j k : Slot} (h : j.index < k.index) :
    s.addr j + (s.string j).length ≤ s.addr k := by
  cases j <;> cases k <;>
    first | exact absurd h (by decide) | simp only [addr, string]; omega

theorem mem_slotWrites {s : FittingStrings} {k : Slot} {w : Nat × UInt8} (h : w ∈ s.slotWrites k) :
    (k.record ≤ w.1 ∧ w.1 < k.record + 3) ∨
      (s.addr k ≤ w.1 ∧ w.1 < s.addr k + (s.string k).length) := mem_stringWrites h

theorem mem_before {s : FittingStrings} {k : Slot} {w : Nat × UInt8} (h : w ∈ s.before k) :
    ∃ j, j.index < k.index ∧ w ∈ s.slotWrites j := by
  cases k with
  | mfg => cases h
  | prd => exact ⟨.mfg, by decide, h⟩
  | ser =>
    rcases List.mem_append.mp h with h | h
    · exact ⟨.mfg, by decide, h⟩
    · exact ⟨.prd, by decide, h⟩
  | extra =>
    rcases List.mem_append.mp h with h | h
    · rcases List.mem_append.mp h with h | h
      · exact ⟨.mfg, by decide, h⟩
      · exact ⟨.prd, by decide, h⟩
    · exact ⟨.ser, by decide, h⟩

theorem mem_behind {s : FittingStrings} {k : Slot} {w : Nat × UInt8} (h : w ∈ s.behind k) :
    ∃ j, k.index < j.index ∧ w ∈ s.slotWrites j := by
  cases k with
  | mfg =>
    rcases List.mem_append.mp h with h | h
    · exact ⟨.prd, by decide, h⟩
    · rcases List.mem_append.mp h with h | h
      · exact ⟨.ser, by decide, h⟩
      · exact ⟨.extra, by decide, h⟩
  | prd =>
    rcases List.mem_append.mp h with h | h
    · exact ⟨.ser, by decide, h⟩
    · exact ⟨.extra, by decide, h⟩
  | ser => exact ⟨.extra, by decide, h⟩
  | extra => cases h

/-- The writes of one string are beside another. -/
theorem mem_slotWrites_beside {s : FittingStrings} {j k : Slot} (hne : j ≠ k) {lo hi : Nat}
    (hlo : lo ≤ s.addr j) (hhi : s.addr j + (s.string j).length ≤ hi) {w : Nat × UInt8}
    (h : w ∈ s.slotWrites j) : Beside k lo hi w := by
  have hapart := Slot.record_apart hne
  have hrecord := j.record_bounds
  have hw := mem_slotWrites h
  rw [Beside]
  omega

theorem before_beside {s : FittingStrings} {k : Slot} {w : Nat × UInt8} (h : w ∈ s.before k) :
    Beside k 0x30 (s.addr k) w := by
  obtain ⟨j, hj, hw⟩ := mem_before h
  have hne : j ≠ k := fun he => Nat.ne_of_lt hj (congrArg Slot.index he)
  exact mem_slotWrites_beside hne (s.addr_bounds j).1 (addr_le hj) hw

theorem behind_beside {s : FittingStrings} {k : Slot} {w : Nat × UInt8} (h : w ∈ s.behind k) :
    Beside k (s.addr k + (s.string k).length) 512 w := by
  obtain ⟨j, hj, hw⟩ := mem_behind h
  have hne : j ≠ k := fun he => Nat.ne_of_gt hj (congrArg Slot.index he)
  exact mem_slotWrites_beside hne (addr_le hj) (Nat.le_of_lt (s.addr_bounds j).2) hw

theorem take_updateWrites (s : FittingStrings) (k : Slot) (j : Nat) :
    s.updateWrites.take (s.start k + 3 + j) = s.before k ++
      (writes k.record (stringRecord (s.addr k) (s.string k)) ++
        (writes (s.addr k) ((s.string k).take j) ++
          (s.behind k).take (j - (s.string k).length))) := by
  have hrecord : (writes k.record (stringRecord (s.addr k) (s.string k))).length = 3 := by
    rw [writes_length, stringRecord_length]
  rw [updateWrites_eq s k, slotWrites, stringWrites, List.append_assoc, Nat.add_assoc, start,
    List.take_length_add_append, ← hrecord, List.take_length_add_append, List.take_append,
    writes_take, writes_length]

theorem take_updateWrites_record (s : FittingStrings) (k : Slot) {i : Nat} (hi : i ≤ 3) :
    s.updateWrites.take (s.start k + i) = s.before k ++
      writes k.record ((stringRecord (s.addr k) (s.string k)).take i) := by
  have hrecord : (writes k.record (stringRecord (s.addr k) (s.string k))).length = 3 := by
    rw [writes_length, stringRecord_length]
  rw [updateWrites_eq s k, slotWrites, stringWrites, List.append_assoc, start,
    List.take_length_add_append, List.take_append_of_le_length (by omega), writes_take]

end FittingStrings

/-! ### What is found where -/

theorem fetch_record_beside (m : Image) {ws : List (Nat × UInt8)} {k : Slot} {lo hi : Nat}
    (hlo : 0x30 ≤ lo) (hhi : hi ≤ 512) (hws : ∀ w ∈ ws, Beside k lo hi w) :
    fetch (apply m ws) k.record 3 = fetch m k.record 3 := by
  apply fetch_apply_untouched
  intro w hw i hi'
  have hbeside := hws w hw
  have hrecord := k.record_bounds
  rw [Beside] at hbeside
  rw [Nat.mod_eq_of_lt (by omega), Nat.mod_eq_of_lt (by omega)]
  omega

theorem fetch_string_beside (m : Image) {ws : List (Nat × UInt8)} {k : Slot} {lo hi a len : Nat}
    (hhi : hi ≤ 512) (ha : 0x30 ≤ a) (hn : a + len ≤ 512) (hapart : a + len ≤ lo ∨ hi ≤ a)
    (hws : ∀ w ∈ ws, Beside k lo hi w) : fetch (apply m ws) a len = fetch m a len := by
  apply fetch_apply_untouched
  intro w hw i hi'
  have hbeside := hws w hw
  rw [Beside] at hbeside
  rw [Nat.mod_eq_of_lt (by omega), Nat.mod_eq_of_lt (by omega)]
  omega

namespace FittingStrings

/-- The first `j` bytes of a string, in front of what the memory held in the cells of the others. -/
def visible (s : FittingStrings) (m : Image) (k : Slot) (j : Nat) : List UInt8 :=
  (s.string k).take j ++ fetch m (s.addr k + j) ((s.string k).length - j)

theorem visible_complete {s : FittingStrings} {k : Slot} {j : Nat} (m : Image)
    (h : (s.string k).length ≤ j) : s.visible m k j = s.string k := by
  rw [visible, List.take_of_length_le h, Nat.sub_eq_zero_of_le h]
  exact List.append_nil _

/-- Once its record has been rewritten, a string is found there with as many of its bytes as have
been written. -/
theorem fetch_take_updateWrites (s : FittingStrings) (m : Image) (k : Slot) (j : Nat) :
    fetch (apply m (s.updateWrites.take (s.start k + 3 + j))) k.record 3 =
        stringRecord (s.addr k) (s.string k) ∧
      fetch (apply m (s.updateWrites.take (s.start k + 3 + j))) (s.addr k) (s.string k).length =
        s.visible m k j := by
  have hbounds := s.addr_bounds k
  have hrecord := k.record_bounds
  have hrlen := stringRecord_length (s.addr k) (s.string k)
  have htake : ((s.string k).take j).length = min j (s.string k).length := List.length_take
  have hbefore : ∀ w ∈ s.before k, Beside k 0x30 (s.addr k) w := fun w hw => before_beside hw
  have hbehind : ∀ w ∈ (s.behind k).take (j - (s.string k).length),
      Beside k (s.addr k + (s.string k).length) 512 w :=
    fun w hw => behind_beside (List.mem_of_mem_take hw)
  rw [take_updateWrites, apply_append, apply_append, apply_append, apply_writes, apply_writes]
  constructor
  · rw [fetch_record_beside _ (by omega) (Nat.le_refl 512) hbehind,
      fetch_store_disjoint _ (by omega) (by omega) (by omega)]
    have hback := fetch_store (apply m (s.before k)) k.record
      (stringRecord (s.addr k) (s.string k)) (by omega)
    rwa [hrlen] at hback
  · rw [fetch_string_beside _ (Nat.le_refl 512) hbounds.1 (by omega) (Or.inl (Nat.le_refl _))
      hbehind]
    have hsplit : (s.string k).length =
        ((s.string k).take j).length + ((s.string k).length - j) := by omega
    have hfetch := fetch_append (store (store (apply m (s.before k)) k.record
      (stringRecord (s.addr k) (s.string k))) (s.addr k) ((s.string k).take j)) (s.addr k)
      ((s.string k).take j).length ((s.string k).length - j)
    rw [← hsplit, fetch_store _ _ _ (by omega)] at hfetch
    rw [hfetch, visible]
    congr 1
    by_cases hj : j ≤ (s.string k).length
    · rw [htake, Nat.min_eq_left hj, fetch_store_disjoint _ (by omega) (by omega) (by omega),
        fetch_store_disjoint _ (by omega) (by omega) (by omega),
        fetch_string_beside m (by omega) (by omega) (by omega) (Or.inr (by omega)) hbefore]
    · rw [Nat.sub_eq_zero_of_le (by omega)]
      rfl

end FittingStrings

/-! ### What the readers find -/

/-- What a reader makes of a pointer and a length that copies the strings it accepts. -/
def found (accepts : Nat → Nat → Bool) (m : Image) (record : Nat × Nat) : Option (List UInt8) :=
  if accepts record.1 record.2 then some (fetch m record.1 record.2) else none

/-- What `readEEprom` asks of a pointer and a length. -/
def bootAccepts (strPtr strLen : Nat) : Bool := strPtr ≠ 0 && strLen ≠ 0

/-- A reader that refuses the null record and accepts every string behind the memory map. -/
structure ReadsStrings (accepts : Nat → Nat → Bool) : Prop where
  null : accepts 0 0 = false
  inside : ∀ addr len, 0x20 ≤ addr → len ≠ 0 → addr + len < 512 → accepts addr len = true

theorem readsStrings_host : ReadsStrings validStr where
  null := rfl
  inside addr len haddr hlen hend := (validStr_iff addr len).mpr ⟨haddr, hlen, hend⟩

theorem readsStrings_boot : ReadsStrings bootAccepts where
  null := rfl
  inside addr len haddr hlen _ := by
    have hne : addr ≠ 0 := by omega
    simp [bootAccepts, hne, hlen]

theorem nonempty_fetchString (m : Image) (record : Nat) :
    nonempty (fetchString m record) = found validStr m (unpackVC (fetch m record 3)) := by
  rw [fetchString, found]
  split
  case isTrue hv =>
    have hlen := ((validStr_iff _ _).mp hv).2.1
    refine if_neg fun hnil => hlen ?_
    rw [← fetch_length m (unpackVC (fetch m record 3)).1 (unpackVC (fetch m record 3)).2, hnil]
    rfl
  case isFalse => rfl

theorem bootString_found (m : Image) (record : Nat) :
    bootString m record = found bootAccepts m (unpackVC (fetch m record 3)) := by
  simp only [bootString_eq, found, bootAccepts, Bool.and_eq_true, decide_eq_true_eq]

/-- None of the writes lands on the string that the record points to. -/
def Spared (m : Image) (k : Slot) (ws : List (Nat × UInt8)) : Prop :=
  ∀ w ∈ ws, ∀ i < (unpackVC (fetch m k.record 3)).2,
    w.1 % 512 ≠ ((unpackVC (fetch m k.record 3)).1 + i) % 512

/-- What a reader that found `old` in a memory `m` finds after the first `n` writes of an update:
the new string when all its writes are done, as much of it as there is when its record is; before,
what lies where its record points to, which while the record is being written is neither the old
one nor the new one; and the old string while neither its record nor its bytes have been reached. -/
structure Interrupted (accepts : Nat → Nat → Bool) (s : FittingStrings) (m : Image) (n : Nat)
    (k : Slot) (old now : Option (List UInt8)) : Prop where
  complete : s.start k + 3 + (s.string k).length ≤ n → now = nonempty (s.string k)
  begun : ∀ j, n = s.start k + 3 + j → now = nonempty (s.visible m k j)
  torn : ∀ i < 3, n = s.start k + i → now = found accepts (apply m (s.updateWrites.take n))
    (unpackVC ((stringRecord (s.addr k) (s.string k)).take i ++ (fetch m k.record 3).drop i))
  before : n ≤ s.start k → now = found accepts (apply m (s.updateWrites.take n))
    (unpackVC (fetch m k.record 3))
  spared : n ≤ s.start k → Spared m k (s.updateWrites.take n) → now = old

namespace FittingStrings

theorem string_le (s : FittingStrings) (k : Slot) : (s.string k).length ≤ 255 := by
  cases k with
  | mfg => exact s.mfg_le
  | prd => exact s.prd_le
  | ser => exact s.ser_le
  | extra => exact s.extra_le

/-- Before its own writes begin, the record of a string is the old one. -/
theorem fetch_record_before (s : FittingStrings) (m : Image) {k : Slot} {n : Nat}
    (hn : n ≤ s.start k) :
    fetch (apply m (s.updateWrites.take n)) k.record 3 = fetch m k.record 3 := by
  have hbounds := s.addr_bounds k
  have hbefore : ∀ w ∈ s.updateWrites.take n, Beside k 0x30 (s.addr k) w := by
    intro w hw
    rw [s.updateWrites_eq k, List.take_append_of_le_length hn] at hw
    exact before_beside (List.mem_of_mem_take hw)
  exact fetch_record_beside m (Nat.le_refl _) (by omega) hbefore

/-- After some of its writes, a record begins with as many new bytes and ends with old ones. -/
theorem fetch_record_torn (s : FittingStrings) (m : Image) (k : Slot) {i : Nat} (hi : i ≤ 3) :
    fetch (apply m (s.updateWrites.take (s.start k + i))) k.record 3 =
      (stringRecord (s.addr k) (s.string k)).take i ++ (fetch m k.record 3).drop i := by
  have hrecord := k.record_bounds
  have hlen : ((stringRecord (s.addr k) (s.string k)).take i).length = i := by
    rw [List.length_take, stringRecord_length]
    omega
  have hbefore := s.fetch_record_before m (Nat.le_refl (s.start k))
  rw [updateWrites_eq s k, start, List.take_left' rfl] at hbefore
  rw [take_updateWrites_record s k hi, apply_append, apply_writes,
    fetch_store_front _ (by omega) (by omega), hbefore, hlen]

end FittingStrings

/-- What a reader makes of a string that is there with some of its bytes. -/
theorem ReadsStrings.found_record {accepts : Nat → Nat → Bool} (h : ReadsStrings accepts)
    {m : Image} {record addr : Nat} {string bytes : List UInt8}
    (hrecord : fetch m record 3 = stringRecord addr string)
    (hbytes : fetch m addr string.length = bytes) (h255 : string.length ≤ 255) (h20 : 0x20 ≤ addr)
    (hn : addr + string.length < 512) :
    found accepts m (unpackVC (fetch m record 3)) = nonempty bytes := by
  have hlen : bytes.length = string.length := by rw [← hbytes, fetch_length]
  rw [hrecord, stringRecord]
  by_cases hne : string.length ≠ 0
  · have hnil : bytes ≠ [] := by
      intro he
      rw [he] at hlen
      exact hne hlen.symm
    rw [if_pos hne, unpackVC_record (by omega) (by omega), found, if_pos (h.inside _ _ h20 hne hn),
      hbytes, nonempty, if_neg hnil]
  · have hnil : bytes = [] := List.eq_nil_of_length_eq_zero (hlen.trans (not_not.mp hne))
    rw [if_neg hne, unpackVC_record (by decide) (by decide), found, h.null, hnil]
    rfl

/-- Every such reader is interrupted in the same way. -/
theorem ReadsStrings.interrupted {accepts : Nat → Nat → Bool} (h : ReadsStrings accepts)
    (s : FittingStrings) (m : Image) (n : Nat) (k : Slot) :
    Interrupted accepts s m n k (found accepts m (unpackVC (fetch m k.record 3)))
      (found accepts (apply m (s.updateWrites.take n))
        (unpackVC (fetch (apply m (s.updateWrites.take n)) k.record 3))) := by
  have hbegun (j : Nat) (hj : n = s.start k + 3 + j) :
      found accepts (apply m (s.updateWrites.take n))
        (unpackVC (fetch (apply m (s.updateWrites.take n)) k.record 3)) =
        nonempty (s.visible m k j) := by
    have hbounds := s.addr_bounds k
    obtain ⟨hrecord, hbytes⟩ := s.fetch_take_updateWrites m k j
    rw [← hj] at hrecord hbytes
    exact h.found_record hrecord hbytes (s.string_le k) (by omega) hbounds.2
  constructor
  case complete =>
    intro hn
    rw [hbegun (n - s.start k - 3) (by omega), FittingStrings.visible_complete m (by omega)]
  case begun => exact hbegun
  case torn =>
    rintro i hi rfl
    rw [s.fetch_record_torn m k (Nat.le_of_lt hi)]
  case before =>
    intro hn
    rw [s.fetch_record_before m hn]
  case spared =>
    intro hn hspared
    rw [s.fetch_record_before m hn, found, found, fetch_apply_untouched m _ _ _ hspared]

theorem unpackVC_torn {xs ys : List UInt8} {i : Nat} (hxs : xs.length = 3) (hi : i < 3) :
    (unpackVC (xs.take i ++ ys.drop i)).2 = (unpackVC ys).2 := by
  have htake : (xs.take i).length = i := by
    rw [List.length_take]
    omega
  have hlast : (xs.take i ++ ys.drop i)[2]? = ys[2]? := by
    rw [List.getElem?_append_right (by omega), htake, List.getElem?_drop,
      Nat.add_sub_cancel' (by omega)]
  simp only [unpackVC, List.getD_eq_getElem?_getD, hlast]

theorem unpackVC_stringRecord {addr : Nat} {string : List UInt8} (haddr : addr < 65536)
    (h255 : string.length ≤ 255) : (unpackVC (stringRecord addr string)).2 = string.length := by
  rw [stringRecord]
  by_cases hne : string.length ≠ 0
  · rw [if_pos hne, unpackVC_record haddr (by omega)]
  · rw [if_neg hne, unpackVC_record (by decide) (by decide), not_not.mp hne]

/-- A length that fits is left as it is, or replaced by one that fits. -/
theorem lengthsFit_take {s : FittingStrings} {m : Image} (hm : LengthsFit m) (hs : s.FitArrays)
    (n : Nat) : LengthsFit (apply m (s.updateWrites.take n)) := by
  intro a
  have hold := hm a
  have hnew := hs a
  have hbounds := s.addr_bounds a.toSlot
  have hslot : a.record.toNat = a.toSlot.record := by cases a <;> rfl
  have hstring : s.forArray a = s.string a.toSlot := by cases a <;> rfl
  rw [recordAt, hslot] at hold ⊢
  rw [hstring] at hnew
  rcases Nat.lt_or_ge n (s.start a.toSlot + 3) with hlt | hge
  · rcases Nat.le_total n (s.start a.toSlot) with hle | hle
    · rwa [s.fetch_record_before m hle]
    · obtain ⟨i, rfl⟩ := Nat.exists_eq_add_of_le hle
      rwa [s.fetch_record_torn m a.toSlot (by omega),
        unpackVC_torn (stringRecord_length _ _) (by omega)]
  · obtain ⟨j, rfl⟩ := Nat.exists_eq_add_of_le hge
    rwa [(s.fetch_take_updateWrites m a.toSlot j).1,
      unpackVC_stringRecord (by omega) (s.string_le a.toSlot)]

theorem apply_take_magic (s : FittingStrings) (m : Image) (n : Nat) :
    apply m (s.updateWrites.take n) 0 = m 0 := by
  apply read_apply_untouched m _ 0
  intro w hw
  have hwrite := List.mem_of_mem_take hw
  rw [s.updateWrites_eq .mfg] at hwrite
  have hrange : 5 ≤ w.1 ∧ w.1 < 512 := by
    have hbounds := s.addr_bounds .mfg
    rcases List.mem_append.mp (List.mem_append.mp hwrite |>.resolve_left nofun) with h | h
    · have hw := FittingStrings.mem_slotWrites h
      have hrecord : Slot.record .mfg = 5 := rfl
      omega
    · obtain ⟨j, hj, hw⟩ := FittingStrings.mem_behind h
      have hrecord := j.record_bounds
      have hbounds := s.addr_bounds j
      have hw := FittingStrings.mem_slotWrites hw
      omega
  rw [Nat.mod_eq_of_lt hrange.2]
  omega

/-- The device whose update has been cut off after `n` writes. -/
def Device.cutUpdate (d : Device) (s : FittingStrings) (n : Nat) : Device :=
  Dialogue.cut (Device.serve residue) n (writeEEStrings s.mfg s.prd s.ser s.extra) d

/-- What the host finds of each string after any number of the writes of an update, beside what it
finds without it; and what the next boot finds, when the old identifiers and the new ones fit its
arrays. -/
theorem interrupted_update {d : Device} (hidle : d.inEp = none) (hmagic : d.image 0 = magic)
    (s : FittingStrings) (n : Nat) :
    (∃ old now u v, readEEStrings.run (Device.serve residue) d = some (old, u) ∧
      readEEStrings.run (Device.serve residue) (d.cutUpdate residue s n) = some (now, v) ∧
      ∀ k : Slot, Interrupted validStr s d.image n k (nonempty (old.getD k.index []))
        (nonempty (now.getD k.index []))) ∧
    (LengthsFit d.image → s.FitArrays → ∀ a : StringArray, ∃ old now,
      (readEEprom (.powerUp d.image)).replacement a = some old ∧
      (readEEprom (.powerUp (d.cutUpdate residue s n).image)).replacement a = some now ∧
      Interrupted bootAccepts s d.image n a.toSlot old now) := by
  have hcut := cut_writeEEStrings residue ⟨hidle, rfl⟩ s n
  constructor
  · obtain ⟨old, u, hold, rfl, -⟩ := ensures_readEEStrings residue ⟨hidle, rfl⟩
    obtain ⟨now, v, hnow, rfl, -⟩ := ensures_readEEStrings residue hcut
    refine ⟨_, _, u, v, hold, hnow, ?_⟩
    intro k
    have hfound := readsStrings_host.interrupted s d.image n k
    rw [← nonempty_fetchString, ← nonempty_fetchString] at hfound
    cases k <;> exact hfound
  · intro hlengths hfit a
    have himage : (d.cutUpdate residue s n).image = apply d.image (s.updateWrites.take n) :=
      hcut.image
    have hcutmagic := (apply_take_magic s d.image n).trans hmagic
    have hfound := readsStrings_boot.interrupted s d.image n a.toSlot
    rw [← bootString_found, ← bootString_found] at hfound
    rw [himage]
    refine ⟨_, _, readEEprom_replacement hmagic hlengths a,
      readEEprom_replacement hcutmagic (lengthsFit_take hlengths hfit n) a, ?_⟩
    cases a <;> exact hfound

/-- The manufacturer string AB, to be replaced by CD. -/
def oldStrings : Image := storeStrings [65, 66] [] [] [] (store (fun _ => 0) 0 [magic])

def newStrings : FittingStrings :=
  ⟨[67, 68], [], [], [], by decide, by decide, by decide, by decide, by decide⟩

theorem lengthsFit_oldStrings : LengthsFit oldStrings := by
  intro a
  cases a <;> decide

theorem fitArrays_newStrings : newStrings.FitArrays := by
  intro a
  cases a <;> decide

/-- With all five writes done, the host and the firmware find CD. -/
theorem interrupted_update_complete :
    (∃ now v, readEEStrings.run (Device.serve fun _ => [])
        ((Device.powerUp oldStrings (fun _ => 0) fun _ _ => 0).cutUpdate (fun _ => [])
          newStrings 5) =
          some (now, v) ∧
      nonempty (now.getD 0 []) = some [67, 68]) ∧
    (readEEprom (.powerUp ((Device.powerUp oldStrings (fun _ => 0) fun _ _ => 0).cutUpdate
      (fun _ => []) newStrings 5).image)).replacement .manufacturer = some (some [67, 68]) := by
  have h := interrupted_update (fun _ => [])
    (d := .powerUp oldStrings (fun _ => 0) fun _ _ => 0) rfl (by decide) newStrings 5
  obtain ⟨old, now, u, v, -, hnow, hhost⟩ := h.1
  obtain ⟨_, booted, -, hbooted, hboot⟩ :=
    h.2 lengthsFit_oldStrings fitArrays_newStrings .manufacturer
  refine ⟨⟨now, v, hnow, (hhost .mfg).complete (by decide)⟩, ?_⟩
  rw [hbooted, hboot.complete (by decide)]
  rfl

/-- After the record and one byte, CB is read. -/
theorem update_half_visible :
    ∃ u, readEEStrings.run (Device.serve fun _ => [])
        (.powerUp oldStrings (fun _ => 0) fun _ _ => 0) = some ([[65, 66], [], [], []], u) ∧
      ¬ ∃ now v, readEEStrings.run (Device.serve fun _ => [])
          ((Device.powerUp oldStrings (fun _ => 0) fun _ _ => 0).cutUpdate (fun _ => [])
            newStrings 4) = some (now, v) ∧
        ∀ k : Slot, now.getD k.index [] = [[65, 66], [], [], []].getD k.index [] ∨
          now.getD k.index [] = newStrings.string k := by
  obtain ⟨old, u, hold, holds, -⟩ := ensures_readEEStrings (fun _ => [])
    (d := .powerUp oldStrings (fun _ => 0) fun _ _ => 0) ⟨rfl, rfl⟩
  have hstrings : old = [[65, 66], [], [], []] := by
    rw [holds]
    decide
  refine ⟨u, by rw [hold, hstrings], ?_⟩
  intro h
  rcases h with ⟨now, v, hrun, hvisible⟩
  have hcut := cut_writeEEStrings (fun _ => [])
    (d := .powerUp oldStrings (fun _ => 0) fun _ _ => 0) ⟨rfl, rfl⟩ newStrings 4
  have hnow := ((ensures_readEEStrings (fun _ => []) hcut).unique hrun).1
  have hmfg : now.getD 0 [] = [67, 66] := by
    rw [hnow]
    decide
  have hhalf := hvisible .mfg
  rw [show Slot.index .mfg = 0 from rfl, hmfg] at hhalf
  exact absurd hhalf (by decide)

end UsbSpdt
