import Mathlib.Data.List.Infix
import UsbSpdt.Console.Output

/-!
# The ring buffer by itself

`enq` and `sendPacket` in any order and for any results of the endpoint. The three counters move
separately, but they never leave the front of the array: a slice that is offered needs no wrapping,
and it holds the bytes that were put in last.
-/

namespace UsbSpdt

namespace RingBuffer

/-- `sendPacket` where `usbd_ep_write_packet` returns `written`. -/
def sendPacket (usbConfigured : Bool) (written : Int) (r : RingBuffer) : Int × RingBuffer :=
  if usbConfigured then (written, if written ≠ 0 then r.reset else r) else (0, r)

inductive Call where
  | enq (bytes : List UInt8)
  | sendPacket (usbConfigured : Bool) (written : Int)

def after (r : RingBuffer) : Call → RingBuffer
  | .enq bytes => r.enq bytes
  | .sendPacket usbConfigured written => (r.sendPacket usbConfigured written).2

/-- The bytes that the calls have put in, in order. -/
def enqueued (calls : List Call) : List UInt8 :=
  calls.flatMap fun
    | .enq bytes => bytes
    | .sendPacket _ _ => []

/-- How many bytes the calls have put in since a packet went out last. -/
def sinceSent (calls : List Call) : Nat :=
  calls.foldl (fun n call => match call with
    | .enq bytes => n + bytes.length
    | .sendPacket usbConfigured written => if usbConfigured ∧ written ≠ 0 then 0 else n) 0

/-- The buffer after the bytes of `history`: what is pending was put in last. -/
structure Holds (history : List UInt8) (r : RingBuffer) : Prop where
  fronted : r.Fronted
  last : r.pending <:+ history

theorem pending_of_size_zero {r : RingBuffer} (h : r.size = 0) : r.pending = [] := by
  rw [pending, h, List.take_zero]

theorem Holds.enqByte {history : List UInt8} {r : RingBuffer} (h : r.Holds history) (b : UInt8) :
    (r.enqByte b).Holds (history ++ [b]) := by
  refine ⟨h.fronted.enqByte b, ?_⟩
  by_cases hfit : r.size + 1 < bufferSize
  · obtain ⟨older, rfl⟩ := h.last
    rw [enqByte_pending h.fronted b hfit, List.append_assoc]
    exact List.suffix_append older _
  · -- The byte that fills the buffer is counted as none at all.
    have hsize : r.size + 1 = bufferSize := by
      have := h.fronted.size
      omega
    have hnone : (r.enqByte b).pending = [] := by
      apply pending_of_size_zero
      rw [RingBuffer.enqByte, hsize, Nat.mod_self]
    rw [hnone]
    exact List.nil_suffix

theorem Holds.enq {history : List UInt8} {r : RingBuffer} (h : r.Holds history)
    (bytes : List UInt8) : (r.enq bytes).Holds (history ++ bytes) := by
  induction bytes generalizing history r with
  | nil =>
    rw [List.append_nil]
    exact h
  | cons b bytes ih =>
    have hrest := ih (h.enqByte b)
    rw [List.append_assoc, List.singleton_append] at hrest
    exact hrest

theorem Holds.sendPacket {history : List UInt8} {r : RingBuffer} (h : r.Holds history)
    (usbConfigured : Bool) (written : Int) :
    (r.sendPacket usbConfigured written).2.Holds history := by
  cases usbConfigured with
  | false => exact h
  | true =>
    change (if written ≠ 0 then r.reset else r).Holds history
    split
    case isTrue =>
      refine ⟨r.reset_fronted, ?_⟩
      rw [pending_of_size_zero rfl]
      exact List.nil_suffix
    case isFalse => exact h

theorem holds_after (calls : List Call) : (calls.foldl after empty).Holds (enqueued calls) := by
  induction calls using List.reverseRecOn with
  | nil => exact ⟨empty_fronted, List.nil_suffix⟩
  | append_singleton calls call ih =>
    rw [List.foldl_append, enqueued, List.flatMap_append]
    cases call with
    | enq bytes =>
      rw [List.flatMap_singleton]
      exact ih.enq bytes
    | sendPacket usbConfigured written =>
      rw [List.flatMap_singleton, List.append_nil]
      exact ih.sendPacket usbConfigured written

theorem size_after (calls : List Call) :
    (calls.foldl after empty).size = sinceSent calls % bufferSize := by
  induction calls using List.reverseRecOn with
  | nil => rfl
  | append_singleton calls call ih =>
    rw [List.foldl_append, sinceSent, List.foldl_append, ← sinceSent]
    cases call with
    | enq bytes =>
      have hsize := enq_size (holds_after calls).fronted bytes
      rw [ih, Nat.mod_add_mod] at hsize
      exact hsize
    | sendPacket usbConfigured written =>
      change ((calls.foldl after empty).sendPacket usbConfigured written).2.size =
        (if usbConfigured = true ∧ written ≠ 0 then 0 else sinceSent calls) % bufferSize
      cases usbConfigured with
      | false => exact ih
      | true =>
        by_cases hwritten : written = 0
        · simpa [RingBuffer.sendPacket, hwritten] using ih
        · simp [RingBuffer.sendPacket, hwritten, reset]

/-- After any calls the slice `[rPtr, rPtr + size)` lies in the array and ends at `wPtr`, and it
holds the last `size` bytes put in; `size` counts the bytes since the last packet, modulo the size
of the array. -/
theorem ring_representation (calls : List Call) :
    (calls.foldl after empty).rPtr + (calls.foldl after empty).size ≤ bufferSize ∧
      (calls.foldl after empty).wPtr =
        ((calls.foldl after empty).rPtr + (calls.foldl after empty).size) % bufferSize ∧
      (calls.foldl after empty).pending.length = (calls.foldl after empty).size ∧
      (calls.foldl after empty).pending <:+ enqueued calls ∧
      (calls.foldl after empty).size = sinceSent calls % bufferSize := by
  have h := holds_after calls
  have hsize := h.fronted.size
  refine ⟨?_, ?_, h.fronted.pending_length, h.last, size_after calls⟩
  · rw [h.fronted.rPtr, Nat.zero_add]
    exact Nat.le_of_lt hsize
  · rw [h.fronted.wPtr, h.fronted.rPtr, Nat.zero_add, Nat.mod_eq_of_lt hsize]

end RingBuffer

/-! ### The same under the answers of the USB stack -/

def EpAnswer.usbConfigured : EpAnswer → Bool
  | .unconfigured => false
  | .busy | .accepts => true

/-- What `usbd_ep_write_packet` returns for a packet of `size` bytes. -/
def EpAnswer.written (size : Nat) : EpAnswer → Int
  | .unconfigured | .busy => 0
  | .accepts => size

theorem Console.sendPacket_ring (ep : Nat → EpAnswer) (c : Console) :
    (((c.sendPacket ep).1 : Int), (c.sendPacket ep).2.ring) =
      c.ring.sendPacket (ep c.attempts).usbConfigured ((ep c.attempts).written c.ring.size) := by
  unfold Console.sendPacket
  cases ep c.attempts with
  | unconfigured => rfl
  | busy => rfl
  | accepts => simp [RingBuffer.sendPacket, EpAnswer.usbConfigured, EpAnswer.written]

end UsbSpdt
