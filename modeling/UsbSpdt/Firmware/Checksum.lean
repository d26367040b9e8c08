import UsbSpdt.Firmware.Packet
import UsbSpdt.Library.Fletcher

/-!
# The checksum of a reply

`writePacket` clears the checksum field and puts the two sums of `FLETCH` there. They run over the
bytes from the version to two before the end of the packet, so the last two bytes do not count.
-/

namespace UsbSpdt

namespace FletcherChecksum

def values (sums : FletcherChecksum) : Nat × Nat := (sums.checksum1.toNat, sums.checksum2.toNat)

structure Reduced (sums : FletcherChecksum) : Prop where
  checksum1 : sums.checksum1.toNat ≤ 254
  checksum2 : sums.checksum2.toNat ≤ 254

/-- The two additions of `FLETCH` do not wrap. -/
structure AddsExactly (sums : FletcherChecksum) (byte : UInt8) : Prop where
  checksum1 : (sums.checksum1 + byte.toUInt16).toNat = sums.checksum1.toNat + byte.toNat
  checksum2 : (sums.checksum2 + (fletch sums byte).checksum1).toNat =
    sums.checksum2.toNat + (fletch sums byte).checksum1.toNat

end FletcherChecksum

theorem reduce_toNat {c : UInt16} (h : c.toNat < 510) :
    (if c > 254 then c - 255 else c).toNat = c.toNat % 255 := by
  have h254 : (254 : UInt16).toNat = 254 := rfl
  have h255 : (255 : UInt16).toNat = 255 := rfl
  split
  case isTrue hc =>
    rw [gt_iff_lt, UInt16.lt_iff_toNat_lt, h254] at hc
    rw [UInt16.toNat_sub, h255]
    omega
  case isFalse hc =>
    rw [gt_iff_lt, UInt16.lt_iff_toNat_lt, h254] at hc
    omega

theorem FletcherChecksum.Reduced.addsExactly {sums : FletcherChecksum} (h : sums.Reduced)
    (byte : UInt8) : sums.AddsExactly byte := by
  have hbyte := byte.toNat_lt
  have h1 := h.checksum1
  have h2 := h.checksum2
  have hc1 : (sums.checksum1 + byte.toUInt16).toNat = sums.checksum1.toNat + byte.toNat := by
    rw [UInt16.toNat_add, UInt8.toNat_toUInt16]
    omega
  have hfirst : (fletch sums byte).checksum1.toNat = (sums.checksum1 + byte.toUInt16).toNat % 255 :=
    reduce_toNat (by omega)
  refine ⟨hc1, ?_⟩
  rw [UInt16.toNat_add]
  omega

/-- `FLETCH` is a step of the checksum modulo 255: no sum leaves its 16 bits. -/
theorem FletcherChecksum.Reduced.fletch_values {sums : FletcherChecksum} (h : sums.Reduced)
    (byte : UInt8) : (fletch sums byte).values = Fletcher.step 255 sums.values byte.toNat := by
  obtain ⟨hc1, hc2⟩ := h.addsExactly byte
  have hbyte := byte.toNat_lt
  have h1 := h.checksum1
  have h2 := h.checksum2
  have hfirst : (fletch sums byte).checksum1.toNat = (sums.checksum1.toNat + byte.toNat) % 255 := by
    rw [← hc1]
    exact reduce_toNat (by omega)
  rw [hfirst] at hc2
  have hsecond : (fletch sums byte).checksum2.toNat =
      (sums.checksum2.toNat + (sums.checksum1.toNat + byte.toNat) % 255) % 255 := by
    rw [← hc2]
    exact reduce_toNat (show (sums.checksum2 + (fletch sums byte).checksum1).toNat < 510 by omega)
  exact Prod.ext hfirst hsecond

theorem FletcherChecksum.reduced_of_values {sums : FletcherChecksum} {s : Nat × Nat}
    (h : sums.values = s) (h1 : s.1 < 255) (h2 : s.2 < 255) : sums.Reduced := by
  subst h
  exact ⟨Nat.le_of_lt_succ h1, Nat.le_of_lt_succ h2⟩

theorem foldl_fletch_values (bytes : List UInt8) {sums : FletcherChecksum} (h : sums.Reduced) :
    (bytes.foldl fletch sums).values =
      (bytes.map UInt8.toNat).foldl (Fletcher.step 255) sums.values := by
  induction bytes generalizing sums with
  | nil => rfl
  | cons b bytes ih =>
    have hstep := h.fletch_values b
    have hnext : (fletch sums b).Reduced :=
      FletcherChecksum.reduced_of_values hstep (Nat.mod_lt _ (by decide)) (Nat.mod_lt _ (by decide))
    rw [List.foldl_cons, List.map_cons, List.foldl_cons, ← hstep]
    exact ih hnext

theorem fletch_sums (bytes : List UInt8) :
    (bytes.foldl fletch ⟨0, 0⟩).values = Fletcher.sums 255 (bytes.map UInt8.toNat) :=
  foldl_fletch_values bytes ⟨by decide, by decide⟩

theorem fletch_reduced (bytes : List UInt8) : (bytes.foldl fletch ⟨0, 0⟩).Reduced := by
  obtain ⟨h1, h2⟩ := Fletcher.sums_lt (m := 255) (by decide) (bytes.map UInt8.toNat)
  exact FletcherChecksum.reduced_of_values (fletch_sums bytes) h1 h2

theorem weighted_bytes (bytes : List UInt8) : Fletcher.weighted (bytes.map UInt8.toNat) =
    ∑ i : Fin bytes.length, (bytes.length - i) * bytes[i].toNat := by
  rw [Fletcher.weighted_eq_sum]
  refine Fintype.sum_equiv (finCongr (List.length_map UInt8.toNat)) _ _ fun i => ?_
  simp

/-- `FLETCH` never wraps, and the two sums have a closed form. So two neighbours that change places
are seen, unless they are congruent. -/
theorem fletch_closed_form (bytes : List UInt8) :
    (∀ done rest, bytes = done ++ rest → (done.foldl fletch ⟨0, 0⟩).Reduced) ∧
      (∀ done byte rest, bytes = done ++ byte :: rest →
        (done.foldl fletch ⟨0, 0⟩).AddsExactly byte) ∧
      (bytes.foldl fletch ⟨0, 0⟩).values = ((bytes.map UInt8.toNat).sum % 255,
        (∑ i : Fin bytes.length, (bytes.length - i) * bytes[i].toNat) % 255) ∧
      ∀ before x y after, bytes = before ++ x :: y :: after → x.toNat % 255 ≠ y.toNat % 255 →
        (before ++ y :: x :: after).foldl fletch ⟨0, 0⟩ ≠ bytes.foldl fletch ⟨0, 0⟩ := by
  refine ⟨fun done _ _ => fletch_reduced done,
    fun done byte _ _ => (fletch_reduced done).addsExactly byte, ?_, ?_⟩
  · rw [fletch_sums, Fletcher.sums_eq, weighted_bytes]
  · rintro before x y after rfl hxy heq
    have hsums := congrArg (Prod.snd ∘ FletcherChecksum.values) heq
    simp only [Function.comp_apply, fletch_sums, List.map_append, List.map_cons,
      Fletcher.snd_swap_eq_iff] at hsums
    exact hxy hsums

theorem fletch_swapped : [2, 1].foldl fletch ⟨0, 0⟩ ≠ [1, 2].foldl fletch ⟨0, 0⟩ :=
  (fletch_closed_form [1, 2]).2.2.2 [] 1 2 [] rfl (by decide)

/-- The bytes that the checksum runs over. -/
def Buffer.summed (buff : Buffer) : List Nat :=
  (buff.slice 1 (buff.length.toNat - 2)).map UInt8.toNat

theorem Buffer.summed_getElem (buff : Buffer) {i : Nat} (hi : i < buff.summed.length) :
    buff.summed[i] = (buff (1 + i)).toNat := by
  simp [Buffer.summed, Buffer.slice]

theorem packetChecksum_toNat (buff : Buffer) :
    (packetChecksum buff).toNat =
      256 * (Fletcher.sums 255 buff.summed).2 + (Fletcher.sums 255 buff.summed).1 := by
  have hsums : ((buff.slice 1 (buff.length.toNat - 2)).foldl fletch ⟨0, 0⟩).values =
      Fletcher.sums 255 buff.summed := fletch_sums _
  obtain ⟨hlt1, hlt2⟩ := Fletcher.sums_lt (m := 255) (by decide) buff.summed
  have h256 : (256 : UInt16).toNat = 256 := rfl
  rw [← hsums] at hlt1 hlt2 ⊢
  simp only [FletcherChecksum.values] at hlt1 hlt2 ⊢
  simp only [packetChecksum, UInt16.toNat_add, UInt16.toNat_mul, h256]
  omega

theorem packetChecksum_eq_of_sums {b c : Buffer} (h : packetChecksum b = packetChecksum c) :
    Fletcher.sums 255 b.summed = Fletcher.sums 255 c.summed := by
  have hb := packetChecksum_toNat b
  have hc := packetChecksum_toNat c
  have hb1 := Fletcher.sums_lt (m := 255) (by decide) b.summed
  have hc1 := Fletcher.sums_lt (m := 255) (by decide) c.summed
  rw [h] at hb
  apply Prod.ext
  · omega
  · omega

/-! ### One changed byte -/

namespace Buffer

def checksum (b : Buffer) : UInt16 := LittleEndian.word (b 5) (b 6)

/-- What `writePacket` computes for the checksum field. -/
def recomputed (b : Buffer) : UInt16 := packetChecksum (b.setChecksum 0)

theorem slice_setByte (b : Buffer) (i n : Nat) (v : UInt8) :
    (b.setByte (1 + i) v).slice 1 n = (b.slice 1 n).set i v := by
  apply List.ext_getElem?
  intro k
  rw [slice_getElem?, List.getElem?_set, slice_getElem?, slice_length, setByte_apply]
  by_cases hk : i = k
  · subst hk
    simp
  · simp [hk, Ne.symm hk]

end Buffer

theorem sealPacket_checksum (buff : Buffer) : (sealPacket buff).checksum = buff.recomputed := by
  simp [Buffer.checksum, sealPacket, Buffer.recomputed, Buffer.setChecksum_apply]

/-- A change of one transmitted byte outside the length and the checksum, by more than a multiple
of 255. -/
structure ByteChange (buff : Buffer) where
  index : Nat
  value : UInt8
  transmitted : 1 ≤ index ∧ index ≤ buff.length.toNat
  outside : index ∉ [2, 3, 5, 6]
  visible : value.toNat % 255 ≠ (buff index).toNat % 255

namespace ByteChange

/-- The packet that was sent, with the change. -/
def received {buff : Buffer} (change : ByteChange buff) : Buffer :=
  (sealPacket buff).setByte change.index change.value

/-- With the field cleared, what was received is the packet before it was sealed, changed. -/
theorem received_cleared {buff : Buffer} (change : ByteChange buff) :
    change.received.setChecksum 0 = (buff.setChecksum 0).setByte change.index change.value := by
  have houtside := change.outside
  simp only [List.mem_cons, List.not_mem_nil, or_false, not_or] at houtside
  obtain ⟨-, -, h5, h6⟩ := houtside
  funext j
  simp only [received, sealPacket, Buffer.setChecksum_apply, Buffer.setByte_apply]
  by_cases hj6 : j = 6
  · simp [hj6, Ne.symm h6]
  · by_cases hj5 : j = 5
    · simp [hj5, Ne.symm h5]
    · simp [hj5, hj6]

theorem received_length {buff : Buffer} (change : ByteChange buff) :
    change.received.length = buff.length := by
  have houtside := change.outside
  simp only [List.mem_cons, List.not_mem_nil, or_false, not_or] at houtside
  obtain ⟨h2, h3, -, -⟩ := houtside
  have hlength : change.received.length = (sealPacket buff).length := by
    simp [Buffer.length, received, Buffer.setByte_apply, Ne.symm h2, Ne.symm h3]
  rw [hlength, sealPacket_length]

/-- The bytes that the recomputed checksum runs over are those of the packet, with the change if it
is among them. -/
theorem received_summed {buff : Buffer} (change : ByteChange buff) :
    (change.received.setChecksum 0).summed =
      (buff.setChecksum 0).summed.set (change.index - 1) change.value.toNat := by
  have hlength : (change.received.setChecksum 0).length = (buff.setChecksum 0).length := by
    rw [setChecksum_length, setChecksum_length, received_length]
  have hindex : change.index = 1 + (change.index - 1) := by
    have := change.transmitted.1
    omega
  rw [Buffer.summed, hlength, received_cleared]
  conv_lhs => rw [hindex]
  rw [Buffer.slice_setByte, List.map_set, Buffer.summed]

theorem summed_index {buff : Buffer} (change : ByteChange buff)
    (hi : change.index - 1 < (buff.setChecksum 0).summed.length) :
    (buff.setChecksum 0).summed[change.index - 1] = (buff change.index).toNat := by
  have houtside := change.outside
  simp only [List.mem_cons, List.not_mem_nil, or_false, not_or] at houtside
  obtain ⟨-, -, h5, h6⟩ := houtside
  have hindex : 1 + (change.index - 1) = change.index := by
    have := change.transmitted.1
    omega
  rw [Buffer.summed_getElem, hindex, Buffer.setChecksum_apply, if_neg h6, if_neg h5]

end ByteChange

/-- Recomputing the checksum of a packet with one changed byte gives another value than the one
sent exactly when the byte is not one of the last two. -/
theorem checksum_sees_change_iff {buff : Buffer} (change : ByteChange buff) :
    change.received.recomputed ≠ (sealPacket buff).checksum ↔
      change.index + 2 ≤ buff.length.toNat := by
  have htransmitted := change.transmitted
  have hlen : (buff.setChecksum 0).summed.length = buff.length.toNat - 2 := by
    rw [Buffer.summed, List.length_map, Buffer.slice_length, setChecksum_length]
  rw [sealPacket_checksum]
  constructor
  · intro hne
    by_contra hlast
    apply hne
    have hsame : (change.received.setChecksum 0).summed = (buff.setChecksum 0).summed := by
      rw [change.received_summed, List.set_eq_of_length_le (by omega)]
    apply UInt16.toNat_inj.mp
    rw [Buffer.recomputed, Buffer.recomputed, packetChecksum_toNat, packetChecksum_toNat, hsame]
  · intro hcovered heq
    have hi : change.index - 1 < (buff.setChecksum 0).summed.length := by omega
    have hsums := congrArg Prod.fst (packetChecksum_eq_of_sums heq)
    rw [change.received_summed, Fletcher.fst_set_eq_iff 255 _ hi, change.summed_index hi] at hsums
    exact change.visible hsums

/-- The answer to a read of address 0x10 that holds 0x41. -/
def readeeReply : Buffer := fun i => [0, 1, 9, 0, 13, 0, 0, 0x10, 0, 0x41].getD i 0

/-- The byte that was read is the last of its packet, and any other passes for it. -/
theorem readee_data_unprotected : ∃ change : ByteChange readeeReply,
    change.index = 9 ∧ change.value = 0x42 ∧ 6 ≤ readeeReply.length.toNat ∧
      readeeReply.length.toNat ≤ 64 ∧
      change.received.recomputed = (sealPacket readeeReply).checksum :=
  ⟨⟨9, 0x42, by decide, by decide, by decide⟩, rfl, rfl, by decide, by decide, by decide⟩

end UsbSpdt
