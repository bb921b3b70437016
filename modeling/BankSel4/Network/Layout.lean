import BankSel4.Network.Pbuf

/-!
# The rings in memory

Both virtqueues and the buffers in one memory of bytes.  `vring_init` is libvirtio's and not part of
the repository: it is a parameter, and `StandardLayout` is what the driver relies on.  A `Field` is
a piece of a ring with its place in it; `load` and `store` access one and note the access, and
`copyTo` copies a packet and notes the copy, so that a step of the driver or the device comes with
the list of what it accesses.

The variables of the driver are kept beside the memory, but have their places in it (`Placement`).
The device writes elements and packets of its choice.
-/

namespace BankSel4.Network

/-- The little-endian bytes of a number. -/
def leBytes : Nat → Nat → Str
  | 0, _ => []
  | width + 1, value => UInt8.ofNat (value % 256) :: leBytes width (value / 256)

/-- The little-endian number at an address. -/
def readLe (mem : Memory) (addr : Nat) : Nat → Nat
  | 0 => 0
  | width + 1 => (mem addr).toNat + 256 * readLe mem (addr + 1) width

/-- The pointers of a `struct vring`. -/
structure VringAddr where
  desc : Nat
  avail : Nat
  used : Nat
  deriving DecidableEq, Repr

/-- The next multiple of `align`. -/
def alignUp (align n : Nat) : Nat := (n + align - 1) / align * align

/-- The layout that the driver relies on: `16 * num` bytes of descriptors, the avail ring with its
`used_event`, and the used ring at the next multiple of the alignment.  `vringInit num p align` is
what `vring_init` stores for the memory at `p`. -/
def StandardLayout (vringInit : Nat → Nat → Nat → VringAddr) : Prop :=
  ∀ num p align, 0 < align →
    vringInit num p align = ⟨p, p + 16 * num, alignUp align (p + 16 * num + 4 + 2 * num + 2)⟩

/-- The fields of a ring that driver or device use, and `next`. -/
inductive Field where
  | descAddr (i : Nat)
  | descLen (i : Nat)
  | descFlags (i : Nat)
  | descNext (i : Nat)
  | availIdx
  | availRing (i : Nat)
  | usedIdx
  | usedId (i : Nat)
  | usedLen (i : Nat)
  deriving DecidableEq, Repr

namespace Field

/-- The address of a field. -/
def addr (vr : VringAddr) : Field → Nat
  | descAddr i => vr.desc + 16 * i
  | descLen i => vr.desc + 16 * i + 8
  | descFlags i => vr.desc + 16 * i + 12
  | descNext i => vr.desc + 16 * i + 14
  | availIdx => vr.avail + 2
  | availRing i => vr.avail + 4 + 2 * i
  | usedIdx => vr.used + 2
  | usedId i => vr.used + 4 + 8 * i
  | usedLen i => vr.used + 4 + 8 * i + 4

/-- The number of bytes of a field. -/
def width : Field → Nat
  | descAddr _ => 8
  | descLen _ | usedId _ | usedLen _ => 4
  | descFlags _ | descNext _ | availIdx | availRing _ | usedIdx => 2

/-- The field is one of a ring of 256 slots. -/
def Valid : Field → Prop
  | descAddr i | descLen i | descFlags i | descNext i | availRing i | usedId i | usedLen i =>
    i < ringSize
  | availIdx | usedIdx => True

/-- The field is in the used ring. -/
def Used : Field → Prop
  | usedIdx | usedId _ | usedLen _ => True
  | _ => False

end Field

inductive Queue where
  | rx
  | tx
  deriving DecidableEq, Repr

namespace Queue

/-- The other queue. -/
def other : Queue → Queue
  | rx => tx
  | tx => rx

end Queue

/-- An access to a field. -/
structure Access where
  queue : Queue
  field : Field
  write : Bool
  deriving DecidableEq, Repr

/-- A copy of the bytes of a packet, for an operation on a queue: where it went, and its length. -/
structure Copy where
  queue : Queue
  addr : Nat
  len : Nat
  deriving DecidableEq, Repr

/-- Where the linker has placed the static objects of the driver. -/
structure Placement where
  rxRingMem : Nat
  txRingMem : Nat
  rxBuffer : Nat
  txBuffer : Nat
  /-- The addresses and sizes of `last_rx_idx`, `tx_idx`, `rx_ring`, `tx_ring` and `regs`. -/
  vars : List (Nat × Nat)
  deriving DecidableEq, Repr

/-- The size of `rx_ring_mem` and `tx_ring_mem`. -/
def ringMemSize : Nat := 8192

/-- The size of `rx_buffer` and `tx_buffer`. -/
def buffersSize : Nat := ringSize * bufferSize

/-- Two objects, each an address and a size, have no byte in common. -/
def NoOverlap (x y : Nat × Nat) : Prop := x.1 + x.2 ≤ y.1 ∨ y.1 + y.2 ≤ x.1

instance : DecidableRel NoOverlap := fun _ _ => inferInstanceAs (Decidable (_ ∨ _))

namespace Placement

/-- The array of a queue. -/
def ringMem (p : Placement) : Queue → Nat
  | .rx => p.rxRingMem
  | .tx => p.txRingMem

/-- The buffers of a queue. -/
def buffer (p : Placement) : Queue → Nat
  | .rx => p.rxBuffer
  | .tx => p.txBuffer

/-- The static objects. -/
def objects (p : Placement) : List (Nat × Nat) :=
  [(p.rxRingMem, ringMemSize), (p.txRingMem, ringMemSize), (p.rxBuffer, buffersSize),
    (p.txBuffer, buffersSize)] ++ p.vars

/-- The arrays are aligned, and the objects are disjoint. -/
structure Proper (p : Placement) : Prop where
  ringMem_aligned : ∀ q, 4096 ∣ p.ringMem q
  buffer_aligned : ∀ q, 4096 ∣ p.buffer q
  disjoint : p.objects.Pairwise NoOverlap

end Placement

structure MemState where
  mem : Memory
  /-- `regs` is not `NULL`. -/
  regs : Bool
  /-- `rx_ring` and `tx_ring`, once `vring_init` has set them. -/
  rings : Option (VringAddr × VringAddr)
  lastRxIdx : UInt16
  txIdx : UInt16
  /-- `hardware_irq_handle` is in its loop. -/
  inLoop : Bool
  /-- The accesses of the last step to the rings. -/
  accesses : List Access
  /-- The copies of the last step. -/
  copies : List Copy

namespace MemState

/-- Before `virtio_init_hardware`, with anything in memory. -/
def start (mem : Memory) : MemState := ⟨mem, false, none, 0, 0, false, [], []⟩

/-- Nothing is noted yet. -/
def clear (s : MemState) : MemState := { s with accesses := [], copies := [] }

/-- The pointers of a queue. -/
def ring (s : MemState) (q : Queue) : VringAddr :=
  match s.rings, q with
  | none, _ => ⟨0, 0, 0⟩
  | some r, .rx => r.1
  | some r, .tx => r.2

/-- What a field holds. -/
def value (s : MemState) (q : Queue) (f : Field) : Nat := readLe s.mem (f.addr (s.ring q)) f.width

/-- Note an access. -/
def note (s : MemState) (x : Access) : MemState := { s with accesses := s.accesses ++ [x] }

/-- Read a field. -/
def load (s : MemState) (q : Queue) (f : Field) : Nat × MemState :=
  (s.value q f, s.note ⟨q, f, false⟩)

/-- Write a field. -/
def store (s : MemState) (q : Queue) (f : Field) (v : Nat) : MemState :=
  { s.note ⟨q, f, true⟩ with mem := overlay s.mem (f.addr (s.ring q)) (leBytes f.width v) }

/-- `memcpy` of `data` to an address. -/
def copyTo (s : MemState) (q : Queue) (addr : Nat) (data : Str) : MemState :=
  { s with mem := overlay s.mem addr data, copies := s.copies ++ [⟨q, addr, data.length⟩] }

/-- The two arrays at `vring_init`. -/
def initRings (s : MemState) (vringInit : Nat → Nat → Nat → VringAddr) (p : Placement) : MemState :=
  { s with
    rings := some (vringInit ringSize p.rxRingMem 4096, vringInit ringSize p.txRingMem 4096) }

/-- The pre-fill of one slot of the RX ring. -/
def fillSlot (p : Placement) (s : MemState) (i : Nat) : MemState :=
  (((s.store .rx (.descAddr i) (p.rxBuffer + bufferSize * i)).store
    .rx (.descLen i) bufferSize).store .rx (.descFlags i) vringDescFWrite.toNat).store
    .rx (.availRing i) i

/-- `virtio_init_hardware`. -/
def virtioInitHardware (vringInit : Nat → Nat → Nat → VringAddr) (p : Placement)
    (magic : Option UInt32) (s : MemState) : MemState :=
  match magic with
  | none => s
  | some value =>
    let s := { s with regs := true }
    if value ≠ virtioMagicValue then s
    else ((List.range ringSize).foldl (fillSlot p) (s.initRings vringInit p)).store .rx .availIdx
      ringSize

/-- `avail->ring[avail->idx % RING_SIZE] = id; avail->idx++;` -/
def pushAvail (s : MemState) (q : Queue) (id : Nat) : MemState :=
  let (idx, s) := s.load q .availIdx
  let s := s.store q (.availRing (idx % ringSize)) id
  let (idx, s) := s.load q .availIdx
  s.store q .availIdx (idx + 1)

/-- The body of `low_level_output` and `netif_output`; `frame` is the `p->len` bytes at
`p->payload`. -/
def output (p : Placement) (s : MemState) (frame : Str) : MemState :=
  let descIdx := slot s.txIdx
  let s := s.copyTo .tx (p.txBuffer + bufferSize * descIdx) frame
  let s := s.store .tx (.descAddr descIdx) (p.txBuffer + bufferSize * descIdx)
  let s := s.store .tx (.descLen descIdx) frame.length
  let s := s.store .tx (.descFlags descIdx) 0
  -- `flags` is 0: the device reads the buffer, and there is no next descriptor
  let s := s.pushAvail .tx descIdx
  { s with txIdx := s.txIdx + 1 }

/-- `memcpy(p->payload, rx_buffer[id], len)`, unless `pbuf_alloc` has returned `NULL`. -/
def copyPacket (p : Placement) (s : MemState) (payload : Option Nat) (id len : Nat) : MemState :=
  match payload with
  | none => s
  | some addr => s.copyTo .rx addr (bytesAt s.mem (p.rxBuffer + bufferSize * id) len)

/-- The test of the loop of `hardware_irq_handle` and, if it succeeds, the body.  `payload` is
`p->payload` of what `pbuf_alloc` returns, if that is not `NULL`. -/
def irqIteration (p : Placement) (s : MemState) (payload : Option Nat) : MemState :=
  let (usedIdx, s) := s.load .rx .usedIdx
  if s.lastRxIdx.toNat ≠ usedIdx then
    let idx := slot s.lastRxIdx
    let (len, s) := s.load .rx (.usedLen idx)
    let (id, s) := s.load .rx (.usedId idx)
    let s := s.copyPacket p payload id len
    -- of the 32 bits of `id` the avail ring keeps 16
    let s := s.pushAvail .rx id
    { s with lastRxIdx := s.lastRxIdx + 1 }
  else { s with inLoop := false }

/-- The device writes a used element and `used->idx`. -/
def deviceWrite (s : MemState) (q : Queue) (i : Nat) (e : VringUsedElem) (idx : UInt16) :
    MemState :=
  ((s.store q (.usedId i) e.id.toNat).store q (.usedLen i) e.len.toNat).store
    q .usedIdx idx.toNat

end MemState

inductive MemAction where
  /-- `virtio_init_hardware`, with what `regs->MagicValue` reads. -/
  | virtioInitHardware (magic : Option UInt32)
  | lowLevelOutput (frame : Str)
  | netifOutput (frame : Str)
  /-- `hardware_irq_handle` starts, and reads `isr`. -/
  | hardwareIrqHandle (isr : UInt32)
  /-- The handler is at the test of its loop, with what `pbuf_alloc` will return. -/
  | irqIteration (payload : Option Nat)
  /-- The device writes the slot `i` of a used ring. -/
  | deviceWrite (q : Queue) (i : Nat) (e : VringUsedElem) (idx : UInt16)
  /-- The device writes a packet to `rx_buffer[i]`. -/
  | deviceFill (i : Nat) (data : Str)
  deriving DecidableEq, Repr

namespace MemState

/-- A step of the driver or the device.  Before `vring_init` there are no rings to access. -/
def step (vringInit : Nat → Nat → Nat → VringAddr) (p : Placement) (s : MemState) :
    MemAction → Option MemState
  | .virtioInitHardware magic =>
    some (virtioInitHardware vringInit p magic s.clear)
  | .lowLevelOutput frame | .netifOutput frame =>
    -- `p->len` is a `uint16_t`
    if s.rings.isSome ∧ frame.length < 2 ^ 16 then some (output p s.clear frame) else none
  | .hardwareIrqHandle isr =>
    if s.inLoop then none
    else some { s.clear with inLoop := s.regs && decide (isr &&& 1 ≠ 0) }
  | .irqIteration payload =>
    if s.rings.isSome ∧ s.inLoop then some (irqIteration p s.clear payload) else none
  | .deviceWrite q i e idx =>
    if s.rings.isSome ∧ i < ringSize then some (deviceWrite s.clear q i e idx) else none
  | .deviceFill i data =>
    if s.rings.isSome ∧ i < ringSize ∧ data.length ≤ bufferSize then
      some (s.clear.copyTo .rx (p.rxBuffer + bufferSize * i) data)
    else none

end MemState

end BankSel4.Network
