import UsbSpdt.Library.Bits
import UsbSpdt.Library.BumpAllocator

/-!
# The heap

`_sbrk_r` and `_sbrk` of `syscalls.c`. Both move the same end of the heap, which the first call of
either sets to the address that the linker script gives. The end is rounded up behind a block, but
the block itself begins at the end as it was, so only the first base may be unaligned.
-/

namespace UsbSpdt

/-- The two symbols of the linker script. -/
structure HeapArea where
  heapStart : UInt32
  heapEnd : UInt32
  ordered : heapStart ≤ heapEnd
  inRam : heapEnd < 0x20020000

namespace HeapArea

variable (area : HeapArea)

/-- The body of `_sbrk_r` and of `_sbrk`: what is returned, and `heap_ptr` behind the call. -/
def moveEnd (heapPtr : UInt32) (nbytes : Int32) : UInt32 × UInt32 :=
  let heapPtr := if heapPtr = 0 then area.heapStart else heapPtr
  let base := heapPtr
  let newHeapPtr := (heapPtr + nbytes.toUInt32 + 7) &&& ~~~7
  if newHeapPtr > area.heapEnd then (0xffffffff, heapPtr) else (base, newHeapPtr)

def sbrkR (heapPtr : UInt32) (nbytes : Int32) : UInt32 × UInt32 := area.moveEnd heapPtr nbytes

def sbrk (heapPtr : UInt32) (nbytes : Int32) : UInt32 × UInt32 := area.moveEnd heapPtr nbytes

inductive Entry where
  | sbrkR
  | sbrk

/-- A call of one of the two that asks for memory. -/
structure Request where
  entry : Entry
  nbytes : Int32
  nonneg : 0 ≤ nbytes

def Request.size (r : Request) : Nat := r.nbytes.toNatClampNeg

def call (heapPtr : UInt32) (r : Request) : UInt32 × UInt32 :=
  match r.entry with
  | .sbrkR => area.sbrkR heapPtr r.nbytes
  | .sbrk => area.sbrk heapPtr r.nbytes

/-- A call with the block that it hands out; `(void *) -1` stands for none. -/
def serve (heapPtr : UInt32) (r : Request) : Option BumpAllocator.Block × UInt32 :=
  let (returned, heapPtr) := area.call heapPtr r
  (if returned = 0xffffffff then none else some ⟨returned.toNat, r.size⟩, heapPtr)

/-- The blocks of the successful calls, in order. -/
def blocks (requests : List Request) : List BumpAllocator.Block :=
  (Service.run area.serve 0 requests).1.reduceOption

def heapPtrAfter (requests : List Request) : UInt32 := (Service.run area.serve 0 requests).2

/-- The end of the heap as the next call finds it. -/
def endPtr (heapPtr : UInt32) : UInt32 := if heapPtr = 0 then area.heapStart else heapPtr

/-- Rounding to the 8-byte boundary. -/
def align8 (n : Nat) : Nat := (n + 7) / 8 * 8

theorem le_align8 (n : Nat) : n ≤ align8 n := by
  rw [align8]
  omega

theorem align8_toNat {x : UInt32} (h : x.toNat + 7 < 4294967296) :
    ((x + 7) &&& ~~~7).toNat = align8 x.toNat := by
  have hmask : (~~~7 : UInt32).toNat = (2 ^ 29 - 1) <<< 3 := by decide
  have hsum : (x + 7).toNat = x.toNat + 7 := by
    rw [UInt32.toNat_add]
    exact Nat.mod_eq_of_lt h
  rw [UInt32.toNat_and, hmask, Bits.and_upper (x + 7).toNat_lt, hsum, Nat.shiftRight_eq_div_pow,
    Nat.shiftLeft_eq]
  rfl

theorem endPtr_endPtr (heapPtr : UInt32) :
    area.endPtr (area.endPtr heapPtr) = area.endPtr heapPtr := by
  by_cases h : heapPtr = 0
  · rw [endPtr, endPtr, if_pos h]
    exact ite_self _
  · rw [endPtr, endPtr, if_neg h, if_neg h]

/-- An end behind the present one is the end that the next call finds. -/
theorem endPtr_of_le {heapPtr newPtr : UInt32} (h : area.endPtr heapPtr ≤ newPtr) :
    area.endPtr newPtr = newPtr := by
  by_cases hnew : newPtr = 0
  · subst hnew
    have hzero : area.endPtr heapPtr = 0 := UInt32.le_antisymm h (UInt32.zero_le)
    rw [← hzero, endPtr_endPtr]
  · rw [endPtr, if_neg hnew]

/-- No sum leaves its 32 bits. -/
theorem newHeapPtr_toNat {e : UInt32} (he : e ≤ area.heapEnd) {nbytes : Int32} (hn : 0 ≤ nbytes) :
    ((e + nbytes.toUInt32 + 7) &&& ~~~7).toNat = align8 (e.toNat + nbytes.toNatClampNeg) := by
  have hram : area.heapEnd.toNat < 0x20020000 := UInt32.lt_iff_toNat_lt.mp area.inRam
  have hend := UInt32.le_iff_toNat_le.mp he
  have hlt := nbytes.toNatClampNeg_lt
  have hsum : (e + nbytes.toUInt32).toNat = e.toNat + nbytes.toNatClampNeg := by
    rw [UInt32.toNat_add, Int32.toNat_toUInt32_of_le hn]
    omega
  rw [align8_toNat (by omega), hsum]

theorem serve_eq (heapPtr : UInt32) (r : Request) : area.serve heapPtr r =
    if (area.endPtr heapPtr + r.nbytes.toUInt32 + 7) &&& ~~~7 > area.heapEnd then
      (none, area.endPtr heapPtr)
    else (if area.endPtr heapPtr = 0xffffffff then none
        else some ⟨(area.endPtr heapPtr).toNat, r.size⟩,
      (area.endPtr heapPtr + r.nbytes.toUInt32 + 7) &&& ~~~7) := by
  have hcall : area.call heapPtr r = area.moveEnd heapPtr r.nbytes := by
    rw [call]
    cases r.entry with
    | sbrkR => rfl
    | sbrk => rfl
  rw [serve, hcall, moveEnd, ← endPtr]
  dsimp only
  split
  case isTrue => rfl
  case isFalse => rfl

/-- The calls are requests to a bump allocator from `__heap_start` to `__heap_end`. -/
theorem serve_request {heapPtr : UInt32} (h : area.endPtr heapPtr ≤ area.heapEnd) (r : Request) :
    ((area.serve heapPtr r).1, (area.endPtr (area.serve heapPtr r).2).toNat) =
      BumpAllocator.request align8 area.heapEnd.toNat (area.endPtr heapPtr).toNat r.size := by
  have hnew := area.newHeapPtr_toNat h r.nonneg
  have hram : area.heapEnd.toNat < 0x20020000 := UInt32.lt_iff_toNat_lt.mp area.inRam
  have hend := UInt32.le_iff_toNat_le.mp h
  rw [serve_eq, BumpAllocator.request]
  by_cases hfit : align8 ((area.endPtr heapPtr).toNat + r.size) ≤ area.heapEnd.toNat
  · have hgranted : ¬ (area.endPtr heapPtr + r.nbytes.toUInt32 + 7) &&& ~~~7 > area.heapEnd := by
      rw [gt_iff_lt, UInt32.lt_iff_toNat_lt, hnew]
      exact Nat.not_lt.mpr hfit
    have hbase : area.endPtr heapPtr ≠ 0xffffffff := by
      intro heq
      rw [heq] at hend
      exact absurd (Nat.lt_of_le_of_lt hend hram) (by decide)
    have hmoved : area.endPtr heapPtr ≤ (area.endPtr heapPtr + r.nbytes.toUInt32 + 7) &&& ~~~7 := by
      rw [UInt32.le_iff_toNat_le, hnew]
      exact Nat.le_trans (Nat.le_add_right _ _) (le_align8 _)
    rw [if_neg hgranted, if_neg hbase, if_pos hfit, area.endPtr_of_le hmoved, hnew]
    rfl
  · have hrefused : (area.endPtr heapPtr + r.nbytes.toUInt32 + 7) &&& ~~~7 > area.heapEnd := by
      rw [gt_iff_lt, UInt32.lt_iff_toNat_lt, hnew]
      exact Nat.not_le.mp hfit
    rw [if_pos hrefused, if_neg hfit, endPtr_endPtr]

/-- The heap ends at `e`, within its area. -/
def EndsAt (heapPtr : UInt32) (e : Nat) : Prop :=
  (area.endPtr heapPtr).toNat = e ∧ area.endPtr heapPtr ≤ area.heapEnd

theorem serve_simulates (heapPtr : UInt32) (e : Nat) (r : Request) (h : area.EndsAt heapPtr e) :
    (area.serve heapPtr r).1 =
        (BumpAllocator.request align8 area.heapEnd.toNat e r.size).1 ∧
      area.EndsAt (area.serve heapPtr r).2
        (BumpAllocator.request align8 area.heapEnd.toNat e r.size).2 := by
  obtain ⟨rfl, hle⟩ := h
  have hserve := area.serve_request hle r
  have hnext : (area.endPtr (area.serve heapPtr r).2).toNat = _ := congrArg Prod.snd hserve
  refine ⟨congrArg Prod.fst hserve, hnext, ?_⟩
  rw [UInt32.le_iff_toNat_le, hnext]
  exact BumpAllocator.request_le _ _ (UInt32.le_iff_toNat_le.mp hle) r.size

theorem run_request (requests : List Request) :
    area.blocks requests = BumpAllocator.blocks align8 area.heapEnd.toNat area.heapStart.toNat
        (requests.map Request.size) ∧
      area.endPtr (area.heapPtrAfter requests) ≤ area.heapEnd := by
  have hstart : area.EndsAt 0 area.heapStart.toNat := ⟨rfl, area.ordered⟩
  obtain ⟨hresults, -, hend⟩ := Service.run_simulates area.serve_simulates hstart requests
  refine ⟨?_, hend⟩
  rw [blocks, hresults, Service.run_map, BumpAllocator.blocks]

theorem call_snd (heapPtr : UInt32) (r : Request) :
    (area.serve heapPtr r).2 = (area.call heapPtr r).2 := rfl

theorem serve_fst (heapPtr : UInt32) (r : Request) :
    (area.serve heapPtr r).1 = none ↔ (area.call heapPtr r).1 = 0xffffffff := by
  rw [serve]
  dsimp only
  split
  case isTrue h => exact iff_of_true rfl h
  case isFalse h => exact iff_of_false nofun h

/-- In any mix of calls of the two functions, the blocks handed out are apart and within the area,
and every base behind the first is aligned. A call fails when its block does not fit, and then the
end stays where it is. -/
theorem sbrk_blocks (requests : List Request) :
    (area.blocks requests).Pairwise (fun b c => Disjoint b.cells c.cells) ∧
      (∀ b ∈ area.blocks requests,
        area.heapStart.toNat ≤ b.base ∧ b.base + b.size ≤ area.heapEnd.toNat) ∧
      (∀ b ∈ (area.blocks requests).tail, 8 ∣ b.base) ∧
      ∀ r : Request,
        ((area.call (area.heapPtrAfter requests) r).1 = 0xffffffff ↔ area.heapEnd.toNat <
          align8 ((area.endPtr (area.heapPtrAfter requests)).toNat + r.size)) ∧
        ((area.call (area.heapPtrAfter requests) r).1 = 0xffffffff →
          area.endPtr (area.call (area.heapPtrAfter requests) r).2 =
            area.endPtr (area.heapPtrAfter requests)) := by
  obtain ⟨hblocks, hend⟩ := area.run_request requests
  rw [hblocks]
  refine ⟨BumpAllocator.blocks_disjoint le_align8 _ _,
    fun b hb => BumpAllocator.blocks_within le_align8 hb, ?_, ?_⟩
  · intro b hb
    obtain ⟨n, hn⟩ := BumpAllocator.base_rounded_of_tail _ _ hb
    rw [hn, align8]
    exact Nat.dvd_mul_left ..
  · intro r
    have hserve := area.serve_request hend r
    rw [BumpAllocator.request] at hserve
    rw [← serve_fst, ← call_snd]
    by_cases hfit : align8 ((area.endPtr (area.heapPtrAfter requests)).toNat + r.size) ≤
        area.heapEnd.toNat
    · rw [if_pos hfit] at hserve
      have hsome := congrArg Prod.fst hserve
      have hgranted : (area.serve (area.heapPtrAfter requests) r).1 ≠ none := by
        intro hnone
        rw [hnone] at hsome
        cases hsome
      exact ⟨iff_of_false hgranted (Nat.not_lt.mpr hfit), fun hnone => absurd hnone hgranted⟩
    · rw [if_neg hfit] at hserve
      exact ⟨iff_of_true (congrArg Prod.fst hserve) (Nat.not_le.mp hfit),
        fun _ => UInt32.toNat_inj.mp (congrArg Prod.snd hserve)⟩

/-- A heap that does not begin on a boundary. -/
def oddHeap : HeapArea := ⟨0x20001003, 0x20001100, by decide, by decide⟩

/-- The second block begins on one, and a call for a whole page before it fails. -/
theorem sbrk_odd :
    (oddHeap.blocks [⟨.sbrkR, 5, by decide⟩, ⟨.sbrk, 4096, by decide⟩, ⟨.sbrk, 3, by decide⟩]).map
        BumpAllocator.Block.base = [0x20001003, 0x20001008] ∧
      oddHeap.endPtr (oddHeap.call (oddHeap.heapPtrAfter [⟨.sbrkR, 5, by decide⟩])
        ⟨.sbrk, 4096, by decide⟩).2 = oddHeap.endPtr (oddHeap.heapPtrAfter
          [⟨.sbrkR, 5, by decide⟩]) :=
  ⟨by decide, ((oddHeap.sbrk_blocks [⟨.sbrkR, 5, by decide⟩]).2.2.2 ⟨.sbrk, 4096, by decide⟩).2
    (by decide)⟩

end HeapArea

end UsbSpdt
