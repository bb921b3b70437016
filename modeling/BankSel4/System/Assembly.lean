import BankSel4.Bridge.Protocol
import BankSel4.System.Calls

/-!
# The assembly at work

The loops of the client and the gateway, with the two servers behind the gateway: `client_data_conn`
and `notify_conn` of `banking_system.camkes`, and `gateway_to_auth` and `gateway_to_bank`.  What the
gateway makes of a request (`answer`) is one step, since the servers serve one call at a time and
the gateway waits for the result.  The client of `client.c` makes no calls of its own.

The events of a run are what passes between the components: the requests that the client writes, the
responses that it reads, and the calls with their results.
-/

namespace BankSel4.System

open Sql Gateway

/-- The two loops, and the servers that the gateway calls. -/
structure Assembly where
  bridge : Bridge.State
  servers : State

/-- The assembly at the start, with the database that the Ledger has opened. -/
def Assembly.start (db : Option Db) : Assembly := ⟨Bridge.State.init, ⟨Auth.State.init, db⟩⟩

/-- `read_input(input_buffer, sizeof(input_buffer))`: the C string that it leaves in the array. -/
def readInput : Str := (strncpy 511 Bridge.mockData ++ [0]).takeWhile (· != 0)

/-- A call of the gateway, over its connection. -/
def rpcOf (fails : Nat → Nat → Bool) : Gateway.Call → Rpc
  | .auth op => .auth .gateway op
  | .bank c => .bank .gateway fails c

/-- The returned value. -/
def Reply.rc : Reply → Int32
  | .auth r => r.rc
  | .bank r => r.rc

/-- What the gateway makes of a request. -/
structure Answer where
  servers : State
  reply : Str
  /-- The call and its result, if there is one. -/
  call : Option (Gateway.Call × Reply)

/-- A step of one of the loops; statement `j` of the `i`-th text of a call fails for lack of storage
when `fails i j` is set. -/
inductive Action where
  | clientWrite (request : Str)
  | clientEmit
  | clientRead
  | gatewayWait
  | gatewayRead (prev : Mem 512)
  | gatewayDispatch (fails : Nat → Nat → Bool)
  | gatewayWrite

inductive Event where
  /-- The client has written a request. -/
  | requested (request : Str)
  /-- The client has read a response. -/
  | responded (response : Str)
  /-- A server has served a call. -/
  | called (c : Gateway.Call) (reply : Reply)
  deriving DecidableEq, Repr

section Assembly

variable (overflow : Int → Int32) (eng : Engine)

/-- The parsing of `local_buf`, the call if there is one, and the reply; none where it faults. -/
def answer (fails : Nat → Nat → Bool) (servers : State) (buf : Str) : Option Answer :=
  match parse overflow buf with
  | .error _ => none
  | .ok (.refused reply) => some ⟨servers, reply, none⟩
  | .ok (.call c) =>
    (step eng servers (rpcOf fails c)).bind fun r =>
      (replyTo c r.2.rc).toOption.map fun reply => ⟨r.1, reply, some (c, r.2)⟩

namespace Assembly

/-- A step of a loop that leaves the servers alone. -/
def loopStep (s : Assembly) (a : Bridge.Action) (e : Option Event) :
    Option (Assembly × Option Event) :=
  (Bridge.step overflow s.bridge a).map fun r => (⟨r.1, s.servers⟩, e)

/-- One step. -/
def step (s : Assembly) : Action → Option (Assembly × Option Event)
  | .clientWrite request => s.loopStep overflow (.clientWrite request) (some (.requested request))
  | .clientEmit => s.loopStep overflow .clientEmit none
  -- the client prints what is in the dataport
  | .clientRead => s.loopStep overflow .clientRead (some (.responded s.bridge.slot.text))
  | .gatewayWait => s.loopStep overflow .gatewayWait none
  | .gatewayRead prev => s.loopStep overflow (.gatewayRead prev) none
  | .gatewayDispatch fails =>
    match s.bridge.gateway with
    | .loaded buf origin =>
      (answer overflow eng fails s.servers buf).map fun r =>
        (⟨{ s.bridge with gateway := .answered r.reply origin }, r.servers⟩,
          r.call.map fun x => .called x.1 x.2)
    | _ => none
  | .gatewayWrite => s.loopStep overflow .gatewayWrite none

/-- A state of a run and the log of the run. -/
abbrev Logged := Assembly × List (Action × Option Event)

/-- The requests that the client has written. -/
def requests (log : List (Action × Option Event)) : List Str :=
  log.filterMap fun x => match x.2 with
    | some (.requested request) => some request
    | _ => none

/-- The calls that the servers have served, with their results. -/
def served (log : List (Action × Option Event)) : List (Gateway.Call × Reply) :=
  log.filterMap fun x => match x.2 with
    | some (.called c reply) => some (c, reply)
    | _ => none

end Assembly

end Assembly

end BankSel4.System
