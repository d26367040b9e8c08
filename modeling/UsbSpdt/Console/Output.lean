import UsbSpdt.Library.Events

/-!
# Console output

The ring buffer of `syscalls.c` between `_write` and the USB endpoint 0x82. `enq` counts the
pending bytes modulo the buffer size, so the byte that fills the buffer makes it look empty.
-/

namespace UsbSpdt

def bufferSize : Nat := 64

structure RingBuffer where
  buffer : Vector UInt8 bufferSize
  rPtr : Nat
  wPtr : Nat
  size : Nat

namespace RingBuffer

def empty : RingBuffer := ⟨Vector.replicate bufferSize 0, 0, 0, 0⟩

/-- The bytes that `sendPacket` offers to the endpoint. -/
def pending (r : RingBuffer) : List UInt8 := (r.buffer.toList.drop r.rPtr).take r.size

def enqByte (r : RingBuffer) (b : UInt8) : RingBuffer where
  buffer := r.buffer.setIfInBounds r.wPtr b
  rPtr := r.rPtr
  wPtr := (r.wPtr + 1) % bufferSize
  size := (r.size + 1) % bufferSize

def enq (r : RingBuffer) (bytes : List UInt8) : RingBuffer := bytes.foldl enqByte r

def reset (r : RingBuffer) : RingBuffer := { r with rPtr := 0, wPtr := 0, size := 0 }

/-- What `enq` and `sendPacket` keep: the pending bytes start at the front of the buffer. -/
structure Fronted (r : RingBuffer) : Prop where
  rPtr : r.rPtr = 0
  wPtr : r.wPtr = r.size
  size : r.size < bufferSize

theorem empty_fronted : empty.Fronted := ⟨rfl, rfl, by decide⟩

theorem reset_fronted (r : RingBuffer) : r.reset.Fronted := ⟨rfl, rfl, by simp [reset, bufferSize]⟩

theorem Fronted.enqByte {r : RingBuffer} (h : r.Fronted) (b : UInt8) : (r.enqByte b).Fronted where
  rPtr := h.rPtr
  wPtr := by simp only [RingBuffer.enqByte, h.wPtr]
  size := Nat.mod_lt _ (by decide)

theorem Fronted.enq {r : RingBuffer} (h : r.Fronted) (bytes : List UInt8) :
    (r.enq bytes).Fronted := by
  induction bytes generalizing r with
  | nil => exact h
  | cons b bytes ih => exact ih (h.enqByte b)

theorem Fronted.pending_length {r : RingBuffer} (h : r.Fronted) : r.pending.length = r.size := by
  have := h.size
  simp only [pending, h.rPtr, List.drop_zero, List.length_take, Vector.length_toList]
  omega

theorem enq_size {r : RingBuffer} (h : r.Fronted) (bytes : List UInt8) :
    (r.enq bytes).size = (r.size + bytes.length) % bufferSize := by
  induction bytes generalizing r with
  | nil => exact (Nat.mod_eq_of_lt h.size).symm
  | cons b bytes ih =>
    change ((r.enqByte b).enq bytes).size = _
    rw [ih (h.enqByte b)]
    simp only [enqByte, bufferSize, List.length_cons]
    omega

theorem enqByte_pending {r : RingBuffer} (h : r.Fronted) (b : UInt8)
    (hfit : r.size + 1 < bufferSize) : (r.enqByte b).pending = r.pending ++ [b] := by
  have hs : (r.size + 1) % bufferSize = r.size + 1 := Nat.mod_eq_of_lt hfit
  have hlen : r.size < r.buffer.toList.length := by simpa using h.size
  simp only [pending, enqByte, h.rPtr, h.wPtr, hs, List.drop_zero, Vector.toList_setIfInBounds]
  rw [List.take_succ_eq_append_getElem (by simpa using h.size), List.take_set_of_le (Nat.le_refl _)]
  simp

theorem enq_pending {r : RingBuffer} (h : r.Fronted) (bytes : List UInt8)
    (hfit : r.size + bytes.length < bufferSize) : (r.enq bytes).pending = r.pending ++ bytes := by
  induction bytes generalizing r with
  | nil => exact (List.append_nil _).symm
  | cons b bytes ih =>
    have hb : r.size + 1 < bufferSize := by simp only [List.length_cons] at hfit; omega
    have hsize : (r.enqByte b).size = r.size + 1 := Nat.mod_eq_of_lt hb
    change ((r.enqByte b).enq bytes).pending = _
    rw [ih (h.enqByte b) (by rw [hsize]; simp only [List.length_cons] at hfit; omega),
      enqByte_pending h b hb, List.append_assoc]
    rfl

end RingBuffer

/-- What the USB stack answers to one attempt to send. -/
inductive EpAnswer where
  | unconfigured
  | busy
  | accepts

structure Console where
  ring : RingBuffer
  accepted : List UInt8
  attempts : Nat

namespace Console

def start : Console := ⟨.empty, [], 0⟩

/-- `sendPacket`, with the answers of the endpoint in the order of the attempts. An accepted
packet of length 0 returns 0 like a refusal. -/
def sendPacket (ep : Nat → EpAnswer) (c : Console) : Nat × Console :=
  match ep c.attempts with
  | .unconfigured | .busy => (0, { c with attempts := c.attempts + 1 })
  | .accepts =>
    (c.ring.size,
      { ring := if c.ring.size ≠ 0 then c.ring.reset else c.ring
        accepted := c.accepted ++ c.ring.pending
        attempts := c.attempts + 1 })

/-- `while (ringBuffer.size==BUFFER_SIZE)`, for at most `fuel` rounds. -/
def waitNotFull (ep : Nat → EpAnswer) : Nat → Console → Option Console
  | 0, c => if c.ring.size = bufferSize then none else some c
  | fuel + 1, c =>
    if c.ring.size = bufferSize then waitNotFull ep fuel (c.sendPacket ep).2 else some c

def put (ep : Nat → EpAnswer) (fuel : Nat) (c : Console) (b : UInt8) : Option Console :=
  waitNotFull ep fuel { c with ring := c.ring.enq [b] }

def newline : UInt8 := 10

def carriageReturn : UInt8 := 13

def writeByte (ep : Nat → EpAnswer) (fuel : Nat) (c : Console) (b : UInt8) : Option Console := do
  let c ← if b = newline then c.put ep fuel carriageReturn else some c
  c.put ep fuel b

/-- `_write(file, ptr, len)` with the bytes at `ptr`; `none` when a wait outlasts its fuel. -/
def write (ep : Nat → EpAnswer) (fuel : Nat) (file : Int) (bytes : List UInt8) (c : Console) :
    Option (Int × Console) :=
  if file = 0 then do
    let c ← waitNotFull ep fuel c
    let c ← bytes.foldlM (writeByte ep fuel) c
    some (bytes.length, (c.sendPacket ep).2)
  else some (0, c)

def onlcr (bytes : List UInt8) : List UInt8 :=
  bytes.flatMap fun b => if b = newline then [carriageReturn, b] else [b]

end Console

end UsbSpdt
