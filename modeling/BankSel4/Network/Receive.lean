import BankSel4.Algorithm.Run
import BankSel4.Network.Vring

/-!
# The receive path

`hardware_irq_handle` runs in steps between which the device and other threads may act, and its
`Phase` is where it stands, with the local variables that are still needed.  A step of the receive
path (`RxState.step`) is one of the handler (`RxState.run`) or one of the device, which takes the
next available descriptor, completes one that it holds, or raises an interrupt for another reason.

The bytes of the packets are left out: `Delivery` says what becomes of a packet in `pbuf_alloc` and
`netif.input`, which are lwIP's.
-/

namespace BankSel4.Network

/-- The variables of the driver for the receive queue. -/
structure Driver where
  /-- `regs` is not `NULL`. -/
  regs : Bool
  rxRing : Vring
  lastRxIdx : UInt16
  dataAvailable : Bool

/-- Static storage, before `virtio_init_hardware`. -/
def Driver.zero : Driver := ⟨false, Vring.zero, 0, false⟩

/-- `VIRTIO_MAGIC_VALUE`. -/
def virtioMagicValue : UInt32 := 0x74726976

/-- The buffer `i` is made available, in the slot `i`. -/
def fillSlot (vr : Vring) (i : Nat) : Vring :=
  { vr.setDesc i ⟨bufferSize * i, UInt32.ofNat bufferSize, vringDescFWrite⟩ with
    availRing := Function.update vr.availRing i (UInt16.ofNat i) }

@[simp] theorem availRing_fillSlot (vr : Vring) (i : Nat) :
    (fillSlot vr i).availRing = Function.update vr.availRing i (UInt16.ofNat i) := rfl

/-- The RX ring is pre-filled with empty buffers. -/
def prefill (vr : Vring) : Vring :=
  { (List.range ringSize).foldl fillSlot vr with availIdx := UInt16.ofNat ringSize }

/-- `virtio_init_hardware`, of the receive queue.  `magic` is what `regs->MagicValue` reads, if
`virtio_mmio` is not `NULL`. -/
def virtioInitHardware (magic : Option UInt32) (d : Driver) : Driver :=
  match magic with
  | none => d
  | some value =>
    if value ≠ virtioMagicValue then { d with regs := true }
    else { d with regs := true, rxRing := prefill d.rxRing }

/-- What becomes of a received packet. -/
inductive Delivery where
  /-- `pbuf_alloc` returns `NULL`. -/
  | noPbuf
  /-- `netif.input` returns an error. -/
  | inputFailed
  /-- `netif.input` returns `ERR_OK`. -/
  | accepted
  deriving DecidableEq, Repr

/-- Where `hardware_irq_handle` stands. -/
inductive Phase where
  /-- It is not running. -/
  | idle
  /-- Before the test of the loop. -/
  | test (isr : UInt32) (numProcessed : UInt16)
  /-- Before `len` and `id` are read from the used element. -/
  | element (isr : UInt32) (numProcessed : UInt16)
  /-- Before `pbuf_alloc`. -/
  | received (isr : UInt32) (numProcessed : UInt16) (e : VringUsedElem)
  /-- The packet is given to lwIP: before `data_available = true`. -/
  | signal (isr : UInt32) (numProcessed : UInt16) (id : UInt32)
  /-- Before the entry of the avail ring is written. -/
  | refill (isr : UInt32) (numProcessed : UInt16) (id : UInt32)
  /-- Before `avail->idx++`. -/
  | offer (isr : UInt32) (numProcessed : UInt16) (id : UInt32)
  /-- Before `num_processed++` and `last_rx_idx++`. -/
  | count (isr : UInt32) (numProcessed : UInt16)
  /-- After the loop. -/
  | notify (isr : UInt32) (numProcessed : UInt16)
  /-- Before `regs->InterruptACK = isr`. -/
  | ack (isr : UInt32)
  /-- Before `hardware_irq_acknowledge`. -/
  | irqAcknowledge
  deriving DecidableEq, Repr

/-- The device: the registers and what it knows of the receive queue. -/
structure Device where
  /-- `regs->InterruptStatus`. -/
  interruptStatus : UInt32
  /-- The index of the avail entry to take next. -/
  next : UInt16
  /-- The descriptors taken and not completed. -/
  held : List UInt16

structure RxState where
  driver : Driver
  phase : Phase
  device : Device

/-- What `virtio_init_hardware` leaves. -/
def rxStart : RxState :=
  ⟨virtioInitHardware (some virtioMagicValue) Driver.zero, .idle, ⟨0, 0, []⟩⟩

theorem driver_rxStart : rxStart.driver = ⟨true, prefill Vring.zero, 0, false⟩ := by
  rw [rxStart, virtioInitHardware, if_neg (not_not.mpr rfl)]
  rfl

inductive RxAction where
  /-- The handler goes on; `result` is what becomes of the packet, if it is at one. -/
  | run (result : Delivery)
  /-- The device takes the next available descriptor. -/
  | take
  /-- The device has written `len` bytes of the buffer `id`. -/
  | complete (id : UInt16) (len : UInt32)
  /-- The device raises an interrupt for another reason. -/
  | raise (bits : UInt32)
  deriving DecidableEq, Repr

inductive RxEvent where
  /-- The handler has given the packet to lwIP, or dropped it. -/
  | processed (e : VringUsedElem) (result : Delivery)
  /-- The handler has set `data_available`. -/
  | signalled
  /-- `regs->QueueNotify = 0`. -/
  | notified
  /-- The device has taken a descriptor. -/
  | taken (id : UInt16)
  /-- The device has completed a descriptor. -/
  | completed (e : VringUsedElem)
  deriving DecidableEq, Repr

namespace RxState

/-- `hardware_irq_handle` goes on to its next phase. -/
def run (s : RxState) (result : Delivery) : RxState × Option RxEvent :=
  match s.phase with
  | .idle =>
    if ¬ s.driver.regs then ({ s with phase := .irqAcknowledge }, none)
    else if s.device.interruptStatus &&& 1 ≠ 0 then
      ({ s with phase := .test s.device.interruptStatus 0 }, none)
    else ({ s with phase := .irqAcknowledge }, none)
  | .test isr n =>
    if s.driver.lastRxIdx ≠ s.driver.rxRing.usedIdx then ({ s with phase := .element isr n }, none)
    else ({ s with phase := .notify isr n }, none)
  | .element isr n =>
    ({ s with phase := .received isr n (s.driver.rxRing.usedRing (slot s.driver.lastRxIdx)) }, none)
  | .received isr n e =>
    -- the buffer goes back to the device also when the packet is dropped
    ({ s with phase := if result = .noPbuf then .refill isr n e.id else .signal isr n e.id },
      some (.processed e result))
  | .signal isr n id =>
    ({ s with
        driver := { s.driver with dataAvailable := true }
        phase := .refill isr n id }, some .signalled)
  | .refill isr n id =>
    ({ s with
        driver := { s.driver with rxRing := s.driver.rxRing.putAvail id.toUInt16 }
        phase := .offer isr n id }, none)
  | .offer isr n _ =>
    ({ s with
        driver := { s.driver with rxRing := s.driver.rxRing.bumpAvail }
        phase := .count isr n }, none)
  | .count isr n =>
    ({ s with
        driver := { s.driver with lastRxIdx := s.driver.lastRxIdx + 1 }
        phase := .test isr (n + 1) }, none)
  | .notify isr n =>
    -- the device is notified only if a buffer was given back
    ({ s with phase := .ack isr }, if n > 0 then some .notified else none)
  | .ack isr =>
    ({ s with
        device := { s.device with interruptStatus := s.device.interruptStatus &&& ~~~isr }
        phase := .irqAcknowledge }, none)
  | .irqAcknowledge => ({ s with phase := .idle }, none)

/-- The device takes the next entry of the avail ring. -/
def take (s : RxState) : RxState :=
  { s with device := { s.device with
      next := s.device.next + 1
      held := s.device.held ++ [s.driver.rxRing.availRing (slot s.device.next)] } }

/-- The device completes the descriptor `id`, and raises the interrupt of the used ring. -/
def complete (s : RxState) (id : UInt16) (len : UInt32) : RxState :=
  { s with
    driver := { s.driver with rxRing := s.driver.rxRing.complete ⟨id.toUInt32, len⟩ }
    device := { s.device with
      interruptStatus := s.device.interruptStatus ||| 1
      held := s.device.held.erase id } }

/-- The device raises the interrupts `bits`. -/
def raise (s : RxState) (bits : UInt32) : RxState :=
  { s with device := { s.device with interruptStatus := s.device.interruptStatus ||| bits } }

/-- A step of the handler or of the device. -/
def step (s : RxState) : RxAction → Option (RxState × Option RxEvent)
  | .run result => some (s.run result)
  | .take =>
    if s.device.next ≠ s.driver.rxRing.availIdx then
      some (s.take, some (.taken (s.driver.rxRing.availRing (slot s.device.next))))
    else none
  | .complete id len =>
    if id ∈ s.device.held then
      some (s.complete id len, some (.completed ⟨id.toUInt32, len⟩))
    else none
  | .raise bits => some (s.raise bits, none)

theorem step_take_eq_some {s : RxState} {r : RxState × Option RxEvent} :
    s.step .take = some r ↔ s.device.next ≠ s.driver.rxRing.availIdx ∧
      r = (s.take, some (.taken (s.driver.rxRing.availRing (slot s.device.next)))) := by
  simp [step, eq_comm]

theorem step_complete_eq_some {s : RxState} {id : UInt16} {len : UInt32}
    {r : RxState × Option RxEvent} :
    s.step (.complete id len) = some r ↔ id ∈ s.device.held ∧
      r = (s.complete id len, some (.completed ⟨id.toUInt32, len⟩)) := by
  simp [step, eq_comm]

/-- A state of a run and the log of the run. -/
abbrev Logged := RxState × List (RxAction × Option RxEvent)

/-- The cases of a step. -/
theorem step_cases {q q' : Logged} {a : RxAction} (hs : withLog step q a = some q') :
    (∃ result, a = .run result ∧ q'.1 = (q.1.run result).1) ∨
      (a = .take ∧ q.1.device.next ≠ q.1.driver.rxRing.availIdx ∧ q'.1 = q.1.take) ∨
      (∃ id len, a = .complete id len ∧ id ∈ q.1.device.held ∧ q'.1 = q.1.complete id len) ∨
      (∃ bits, a = .raise bits ∧ q'.1 = q.1.raise bits) := by
  obtain ⟨ev, hstep, -⟩ := withLog_eq_some.mp hs
  cases a with
  | run result => exact Or.inl ⟨result, rfl, (congrArg Prod.fst (Option.some.inj hstep)).symm⟩
  | take =>
    obtain ⟨hne, hr⟩ := step_take_eq_some.mp hstep
    exact Or.inr (Or.inl ⟨rfl, hne, congrArg Prod.fst hr⟩)
  | complete id len =>
    obtain ⟨hid, hr⟩ := step_complete_eq_some.mp hstep
    exact Or.inr (Or.inr (Or.inl ⟨id, len, rfl, hid, congrArg Prod.fst hr⟩))
  | raise bits =>
    exact Or.inr (Or.inr (Or.inr ⟨bits, rfl, (congrArg Prod.fst (Option.some.inj hstep)).symm⟩))

/-- The device's completions, in order. -/
def completions (log : List (RxAction × Option RxEvent)) : List VringUsedElem :=
  log.filterMap fun x => match x.2 with
    | some (.completed e) => some e
    | _ => none

/-- The elements that the handler has processed, in order. -/
def processed (log : List (RxAction × Option RxEvent)) : List VringUsedElem :=
  log.filterMap fun x => match x.2 with
    | some (.processed e _) => some e
    | _ => none

end RxState

end BankSel4.Network
