import BankSel4.Gateway.Parse

/-!
# The bridge between the client and the gateway

The loops of `client.c` and `gateway.c`, which share the dataport `net_buffer` and the notification
`data_ready`.  A copy of a string into or out of the dataport is one step, and the notification is a
flag that `data_ready_emit` sets and `data_ready_wait` waits for and clears.  The two loops take
their steps in any order: the delay loop of the client is no step.

Beside its string, the slot keeps where the string comes from (`Origin`), and whether it is a
request that the gateway has yet to read.
-/

namespace BankSel4.Bridge

open Gateway

/-- Where a string comes from. -/
inductive Origin where
  /-- What is in the dataport at the start. -/
  | start
  /-- The `n`-th write of the client. -/
  | request (n : Nat)
  /-- The gateway, as the reply to a string that came from `o`. -/
  | reply (o : Origin)
  deriving DecidableEq, Repr

/-- `net_buffer`. -/
structure Slot where
  text : Str
  origin : Origin
  /-- A request that the gateway has not read. -/
  unread : Bool
  deriving DecidableEq, Repr

/-- Where the client is in its loop. -/
inductive ClientPc where
  /-- It writes the next request. -/
  | input
  /-- It has written the request, and signals. -/
  | written
  /-- It waits, and reads the response. -/
  | waiting
  deriving DecidableEq, Repr

/-- Where the gateway is in its loop. -/
inductive GatewayPc where
  /-- In `data_ready_wait`. -/
  | waiting
  /-- Behind it. -/
  | woken
  /-- It has copied a string of the origin to `local_buf`. -/
  | loaded (buf : Str) (origin : Origin)
  /-- It has the reply to that string. -/
  | answered (reply : Str) (origin : Origin)
  deriving DecidableEq, Repr

/-- The state of the two loops. -/
structure State where
  slot : Slot
  dataReady : Bool
  client : ClientPc
  gateway : GatewayPc
  /-- The number of requests written. -/
  writes : Nat
  deriving DecidableEq, Repr

/-- The state at the start: the dataport is empty. -/
def State.init : State := ⟨⟨[], .start, false⟩, false, .input, .waiting, 0⟩

/-- `mock_data`, the request that the client writes. -/
def mockData : Str := bytes "tx 1001 Alice Bob TRANSFER 100"

/-- A step of one of the loops. -/
inductive Action where
  /-- `memcpy(net_buffer, input_buffer, strlen(input_buffer) + 1)` -/
  | clientWrite (request : Str)
  /-- `data_ready_emit()` -/
  | clientEmit
  /-- The client prints `net_buffer`. -/
  | clientRead
  /-- `data_ready_wait()` -/
  | gatewayWait
  /-- `strncpy(local_buf, request, 511)`, from what was in `local_buf` before. -/
  | gatewayRead (prev : Mem 512)
  /-- The parsing of the request, and the call it leads to, which returns the result. -/
  | gatewayDispatch (result : Int32)
  /-- `memcpy(net_buffer, reply, strlen(reply) + 1)` -/
  | gatewayWrite

section Loops

variable (overflow : Int → Int32)

/-- The parsing, the call if there is one, and the reply; none where it faults. -/
def dispatch (buf : Str) (result : Int32) : Option (Str × Option Call) :=
  match parse overflow buf with
  -- `strtok` has run off `local_buf`
  | .error _ => none
  | .ok (.refused reply) => some (reply, none)
  | .ok (.call c) => (replyTo c result).toOption.map fun reply => (reply, some c)

/-- One step and the call that the gateway makes in it; none where the loop is not there, has to
wait, or faults.  The client writes strings that fit its `input_buffer`. -/
def step (s : State) : Action → Option (State × Option Call)
  | .clientWrite request =>
    if s.client = .input ∧ NoNul request ∧ request.length < 512 then
      some ({ s with
        slot := ⟨request, .request s.writes, true⟩
        client := .written
        writes := s.writes + 1 }, none)
    else none
  | .clientEmit =>
    if s.client = .written then some ({ s with dataReady := true, client := .waiting }, none)
    else none
  | .clientRead =>
    if s.client = .waiting then some ({ s with client := .input }, none) else none
  | .gatewayWait =>
    if s.gateway = .waiting ∧ s.dataReady = true then
      some ({ s with dataReady := false, gateway := .woken }, none)
    else none
  | .gatewayRead prev =>
    if s.gateway = .woken then
      some ({ s with
        slot := ⟨s.slot.text, s.slot.origin, false⟩
        gateway := .loaded (localBuf prev s.slot.text) s.slot.origin }, none)
    else none
  | .gatewayDispatch result =>
    match s.gateway with
    | .loaded buf origin =>
      (dispatch overflow buf result).map fun r => ({ s with gateway := .answered r.1 origin }, r.2)
    | _ => none
  | .gatewayWrite =>
    match s.gateway with
    | .answered reply origin =>
      some ({ s with slot := ⟨reply, .reply origin, false⟩, gateway := .waiting }, none)
    | _ => none

/-- The state after a step. -/
def next (s : State) (a : Action) : Option State := (step overflow s a).map Prod.fst

end Loops

end BankSel4.Bridge
