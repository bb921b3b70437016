import BankSel4.Algorithm.Run
import BankSel4.Bytes.Memory
import BankSel4.Network.Vring

/-!
# The transmit path

`low_level_output` and `netif_output` have the same body, which runs in steps between which the
device may act; `TxPhase` is where a call stands.  A frame is what the call copies: the `p->len`
bytes at `p->payload`.

The device numbers the entries that it takes.  It finds a new one when `avail->idx` differs from its
own index, which has 16 bits as well; it reads the descriptor and the buffer of an entry that it has
taken at any time before it completes it, and completes the entries in any order.
-/

namespace BankSel4.Network

/-- Where a call of `low_level_output` or `netif_output` stands, with `desc_idx` and the frame. -/
inductive TxPhase where
  /-- No call is running. -/
  | idle
  /-- Before the descriptor is set up. -/
  | describe (descIdx : UInt16) (frame : Str)
  /-- Before the entry of the avail ring is written. -/
  | enqueue (descIdx : UInt16) (frame : Str)
  /-- Before `avail->idx++`. -/
  | publish (frame : Str)
  /-- Before `regs->QueueNotify = 1`, `tx_idx++` and the return. -/
  | finish (frame : Str)
  deriving DecidableEq, Repr

/-- What the device knows of the transmit queue. -/
structure TxDevice where
  /-- The number of entries taken. -/
  taken : Nat
  /-- The entries taken and not completed: their numbers and descriptors. -/
  held : List (Nat × UInt16)

structure TxState where
  txRing : Vring
  txBuffer : Mem (ringSize * bufferSize)
  txIdx : UInt16
  phase : TxPhase
  device : TxDevice

/-- What `virtio_init_hardware` leaves of the transmit queue. -/
def txStart : TxState := ⟨Vring.zero, Mem.zero, 0, .idle, ⟨0, []⟩⟩

inductive TxAction where
  | lowLevelOutput (frame : Str)
  | netifOutput (frame : Str)
  /-- The call that is running goes on. -/
  | run
  /-- The device takes the next available entry. -/
  | take
  /-- The device reads the descriptor and the buffer of the entry with the number `k`. -/
  | read (k : Nat)
  /-- The device completes the entry with the number `k`. -/
  | complete (k : Nat)
  deriving DecidableEq, Repr

inductive TxEvent where
  /-- A call starts. -/
  | called (frame : Str)
  /-- A call returns `ERR_OK`. -/
  | ok (frame : Str)
  /-- The device has read a frame from the entry with the number `k`. -/
  | read (k : Nat) (frame : Str)
  /-- The device has completed the entry with the number `k`. -/
  | completed (k : Nat)
  deriving DecidableEq, Repr

namespace TxState

/-- The device's index of the avail entry to take next. -/
def next (s : TxState) : UInt16 := UInt16.ofNat s.device.taken

/-- The body of `low_level_output` and `netif_output`, up to the copy of the payload to
`tx_buffer[desc_idx]`.  `p->len` is a `uint16_t`. -/
def output (s : TxState) (frame : Str) : Option (TxState × Option TxEvent) :=
  if s.phase = .idle ∧ frame.length < 2 ^ 16 then
    let descIdx := UInt16.ofNat (slot s.txIdx)
    (s.txBuffer.perform ⟨bufferSize * descIdx.toNat, frame⟩).toOption.map fun txBuffer =>
      ({ s with txBuffer := txBuffer, phase := .describe descIdx frame }, some (.called frame))
  else none

def lowLevelOutput (s : TxState) (frame : Str) : Option (TxState × Option TxEvent) := s.output frame

def netifOutput (s : TxState) (frame : Str) : Option (TxState × Option TxEvent) := s.output frame

/-- The call that is running goes on to its next phase. -/
def run (s : TxState) : Option (TxState × Option TxEvent) :=
  match s.phase with
  | .idle => none
  | .describe descIdx frame =>
    let d : VringDesc := ⟨bufferSize * descIdx.toNat, UInt32.ofNat frame.length, 0⟩
    some ({ s with
      txRing := s.txRing.setDesc descIdx.toNat d, phase := .enqueue descIdx frame }, none)
  | .enqueue descIdx frame =>
    some ({ s with txRing := s.txRing.putAvail descIdx, phase := .publish frame }, none)
  | .publish frame =>
    some ({ s with txRing := s.txRing.bumpAvail, phase := .finish frame }, none)
  | .finish frame =>
    some ({ s with txIdx := s.txIdx + 1, phase := .idle }, some (.ok frame))

/-- The bytes of a descriptor's buffer. -/
def readBuffer (s : TxState) (id : UInt16) : Str :=
  let d := s.txRing.desc id.toNat
  (List.range d.len.toNat).map fun i => s.txBuffer.byte (d.addr + i)

/-- A step of a call or of the device. -/
def step (s : TxState) : TxAction → Option (TxState × Option TxEvent)
  | .lowLevelOutput frame => s.lowLevelOutput frame
  | .netifOutput frame => s.netifOutput frame
  | .run => s.run
  | .take =>
    if s.next ≠ s.txRing.availIdx then
      some ({ s with device := ⟨s.device.taken + 1,
        s.device.held ++ [(s.device.taken, s.txRing.availRing (slot s.next))]⟩ }, none)
    else none
  | .read k => (s.device.held.lookup k).map fun id => (s, some (.read k (s.readBuffer id)))
  | .complete k => (s.device.held.lookup k).map fun id =>
      ({ s with
        txRing := s.txRing.complete ⟨id.toUInt32, 0⟩
        device := { s.device with held := s.device.held.filter (·.1 ≠ k) } },
      some (.completed k))

/-- A state of a run and the log of the run. -/
abbrev Logged := TxState × List (TxAction × Option TxEvent)

/-- The frames of the calls, in order. -/
def calls (log : List (TxAction × Option TxEvent)) : List Str :=
  log.filterMap fun x => match x.2 with
    | some (.called frame) => some frame
    | _ => none

/-- The frames whose calls have returned `ERR_OK`, in order. -/
def returned (log : List (TxAction × Option TxEvent)) : List Str :=
  log.filterMap fun x => match x.2 with
    | some (.ok frame) => some frame
    | _ => none

/-- What the device has read: the number of an entry and a frame. -/
def reads (log : List (TxAction × Option TxEvent)) : List (Nat × Str) :=
  log.filterMap fun x => match x.2 with
    | some (.read k frame) => some (k, frame)
    | _ => none

/-- The numbers of the entries that the device has completed. -/
def completed (log : List (TxAction × Option TxEvent)) : List Nat :=
  log.filterMap fun x => match x.2 with
    | some (.completed k) => some k
    | _ => none

end TxState

end BankSel4.Network
