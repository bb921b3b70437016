import BankSel4.Network.Pbuf
import Mathlib.Data.List.DropRight

/-!
# Packets on their way in

The receive path with the bytes: the device writes to the buffers that it holds, and the handler
copies what is in them for lwIP.  `net_wait_for_data` runs beside the two, in the thread of its
interface, and shares `data_available` with the handler.
-/

namespace BankSel4.Network

/-- Where `net_wait_for_data` stands. -/
inductive WaitPc where
  /-- It is not running. -/
  | idle
  /-- Before the test of `data_available`. -/
  | polling
  /-- Before `data_available = false`. -/
  | released
  deriving DecidableEq, Repr

structure PacketState where
  rx : RxState
  rxBuffer : RxBuffer
  waiter : WaitPc

inductive PacketAction where
  /-- A step of the handler or of the device on the queue. -/
  | rx (a : RxAction)
  /-- The device writes to the buffer `id`, from the offset `off` on. -/
  | write (id : UInt16) (off : Nat) (data : Str)
  /-- `net_wait_for_data` is called. -/
  | wait
  /-- Its loop tests the flag. -/
  | poll
  /-- The flag is reset, and the call returns. -/
  | reset
  deriving DecidableEq, Repr

inductive PacketEvent where
  /-- The device has completed a buffer with these bytes. -/
  | filled (frame : Str)
  /-- The handler has copied these bytes to a packet, and given it to lwIP. -/
  | copied (frame : Str)
  /-- There was no packet to copy to. -/
  | dropped
  /-- The handler has set `data_available`. -/
  | signalled
  /-- `net_wait_for_data` has returned. -/
  | returned
  deriving DecidableEq, Repr

namespace PacketState

/-- What a step on the queue means for the bytes.  The `memcpy` of the handler may fault. -/
def eventOf (rxBuffer : RxBuffer) : Option RxEvent → Option (Option PacketEvent)
  | some (.completed e) => some (some (.filled (frameAt rxBuffer e)))
  | some (.processed e result) =>
    if result = .noPbuf then some (some .dropped)
    else
      (rxBuffer.memcpyFrom (bufferSize * e.id.toNat : Nat) e.len.toNat).toOption.map fun frame =>
        some (.copied frame)
  | some .signalled => some (some .signalled)
  | _ => some none

/-- A step of the handler, of the device or of `net_wait_for_data`. -/
def step (s : PacketState) : PacketAction → Option (PacketState × Option PacketEvent)
  | .rx a =>
    (s.rx.step a).bind fun r =>
      (eventOf s.rxBuffer r.2).map fun event => ({ s with rx := r.1 }, event)
  | .write id off data =>
    -- the device keeps to the buffers that it holds
    if id ∈ s.rx.device.held ∧ off + data.length ≤ bufferSize then
      some ({ s with rxBuffer := s.rxBuffer.store (bufferSize * id.toNat + off) data }, none)
    else none
  | .wait => if s.waiter = .idle then some ({ s with waiter := .polling }, none) else none
  | .poll =>
    if s.waiter = .polling then
      some ({ s with waiter := if s.rx.driver.dataAvailable then .released else .polling }, none)
    else none
  | .reset =>
    if s.waiter = .released then
      some ({ s with
        rx := { s.rx with driver := { s.rx.driver with dataAvailable := false } }
        waiter := .idle }, some .returned)
    else none

/-- A state of a run and the log of the run. -/
abbrev Logged := PacketState × List (PacketAction × Option PacketEvent)

/-- The bytes that the device has completed, in order. -/
def filled (log : List (PacketAction × Option PacketEvent)) : List Str :=
  log.filterMap fun x => match x.2 with
    | some (.filled frame) => some frame
    | _ => none

/-- What became of the completed buffers, in order: the bytes copied, or nothing. -/
def outcomes (log : List (PacketAction × Option PacketEvent)) : List (Option Str) :=
  log.filterMap fun x => match x.2 with
    | some (.copied frame) => some (some frame)
    | some .dropped => some none
    | _ => none

/-- How often `net_wait_for_data` has returned. -/
def returns (log : List (PacketAction × Option PacketEvent)) : Nat :=
  log.countP fun x => x.2 = some .returned

/-- How often the handler has set `data_available`. -/
def signals (log : List (PacketAction × Option PacketEvent)) : Nat :=
  log.countP fun x => x.2 = some .signalled

/-- How many packets the handler has given to lwIP. -/
def packets (log : List (PacketAction × Option PacketEvent)) : Nat :=
  log.countP fun x => match x.2 with
    | some (.copied _) => true
    | _ => false

/-- The part of the log since `net_wait_for_data` has last returned. -/
def sinceReturned (log : List (PacketAction × Option PacketEvent)) :
    List (PacketAction × Option PacketEvent) :=
  log.rtakeWhile fun x => x.2 ≠ some .returned

end PacketState

end BankSel4.Network
