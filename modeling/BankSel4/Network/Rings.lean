import BankSel4.Network.Layout

/-!
# The rings apart

What a queue is meant to be: a `Vring` of its own with the index of the driver, `last_rx_idx` or
`tx_idx`, on which the driver and the device operate (`RingState.next`).  `Vring.ofFields` is the
ring that the fields in memory spell, and `actionOf` the operation that a step of `MemState` is on a
queue.
-/

namespace BankSel4.Network

/-- The ring that fields spell; the address of a buffer is its offset from `base`. -/
def Vring.ofFields (base : Nat) (val : Field → Nat) : Vring where
  desc i :=
    if i < ringSize then ⟨val (.descAddr i) - base, UInt32.ofNat (val (.descLen i)),
      UInt16.ofNat (val (.descFlags i))⟩
    else ⟨0, 0, 0⟩
  availRing i := if i < ringSize then UInt16.ofNat (val (.availRing i)) else 0
  availIdx := UInt16.ofNat (val .availIdx)
  usedRing i :=
    if i < ringSize then ⟨UInt32.ofNat (val (.usedId i)), UInt32.ofNat (val (.usedLen i))⟩
    else ⟨0, 0⟩
  usedIdx := UInt16.ofNat (val .usedIdx)

/-- A queue on its own. -/
structure RingState where
  vring : Vring
  /-- `last_rx_idx` or `tx_idx`. -/
  idx : UInt16

inductive RingAction where
  /-- The pre-fill of `virtio_init_hardware`. -/
  | prefill
  /-- `low_level_output` or `netif_output`, of `len` bytes. -/
  | output (len : Nat)
  /-- The test of the loop of `hardware_irq_handle`, and its body. -/
  | irqIteration
  /-- The device writes the slot `i` of the used ring, and `used->idx`. -/
  | deviceWrite (i : Nat) (e : VringUsedElem) (idx : UInt16)
  deriving DecidableEq, Repr

namespace RingState

/-- An operation on a queue. -/
def next (s : RingState) : RingAction → RingState
  | .prefill => ⟨prefill s.vring, s.idx⟩
  | .output len =>
    let d : VringDesc := ⟨bufferSize * slot s.idx, UInt32.ofNat len, 0⟩
    ⟨((s.vring.setDesc (slot s.idx) d).putAvail (UInt16.ofNat (slot s.idx))).bumpAvail, s.idx + 1⟩
  | .irqIteration =>
    if s.idx ≠ s.vring.usedIdx then
      ⟨(s.vring.putAvail (s.vring.usedRing (slot s.idx)).id.toUInt16).bumpAvail, s.idx + 1⟩
    else s
  | .deviceWrite i e idx =>
    ⟨{ s.vring with usedRing := Function.update s.vring.usedRing i e, usedIdx := idx }, s.idx⟩

/-- The queue after an operation, or none. -/
def after (s : RingState) : Option RingAction → RingState
  | none => s
  | some b => s.next b

end RingState

/-- The operation on the queue `q` that a step is, if it is one. -/
def actionOf (q : Queue) : MemAction → Option RingAction
  | .virtioInitHardware magic =>
    if magic = some virtioMagicValue ∧ q = .rx then some .prefill else none
  | .lowLevelOutput frame | .netifOutput frame =>
    if q = .tx then some (.output frame.length) else none
  | .hardwareIrqHandle _ => none
  | .deviceFill .. => none
  | .irqIteration _ => if q = .rx then some .irqIteration else none
  | .deviceWrite q' i e idx => if q' = q then some (.deviceWrite i e idx) else none

end BankSel4.Network
