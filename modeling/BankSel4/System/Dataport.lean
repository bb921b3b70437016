import BankSel4.System.Assembly

/-!
# The dataport in bytes

The assembly with `net_buffer` as a page of bytes, of which the two loops access one at a time, in
any order among themselves.  A `memcpy` stores its bytes in any order; `strncpy` and `printf` read
theirs from the front, up to the terminator.  An access behind the page is a fault.

A copy that is going on is a `Copy` or the bytes read so far.  The events are those of the assembly;
a request is written with the last byte of it, and a response is read with its terminator.
-/

namespace BankSel4.System

open Sql Gateway

/-- The size of a `Buf`, the type of `net_buffer`. -/
def bufSize : Nat := 4096

/-- `memcpy(net_buffer, text, strlen(text) + 1)` going on: the indices of the bytes to come. -/
structure Copy where
  text : Str
  todo : List Nat
  deriving DecidableEq, Repr

namespace Copy

/-- A copy at its start. -/
def start (text : Str) : Copy := ⟨text, List.range (text.length + 1)⟩

/-- The byte `i` is stored. -/
def store (c : Copy) (m : Mem bufSize) (i : Nat) : Option (Mem bufSize × Copy) :=
  if i ∈ c.todo ∧ i < bufSize then
    some (m.store i [(c.text ++ [0]).getD i 0], ⟨c.text, c.todo.erase i⟩)
  else none

end Copy

/-- The byte at `i`. -/
def loadByte (m : Mem bufSize) (i : Nat) : Option UInt8 := if h : i < bufSize then m ⟨i, h⟩ else none

namespace Dataport

/-- Where the client is in its loop. -/
inductive ClientPc where
  | input
  | storing (c : Copy)
  | written
  | waiting
  /-- It prints the response, and has read some bytes of it. -/
  | printing (read : Str)
  deriving DecidableEq, Repr

/-- Where the gateway is in its loop. -/
inductive GatewayPc where
  | waiting
  | woken
  /-- It copies the request to `local_buf`, and has read some bytes of it. -/
  | copying (prev : Mem 512) (read : Str)
  | loaded (buf : Str)
  | answered (reply : Str)
  | storing (c : Copy)

end Dataport

structure Dataport where
  netBuffer : Mem bufSize
  dataReady : Bool
  client : Dataport.ClientPc
  gateway : Dataport.GatewayPc
  servers : State

namespace Dataport

/-- The start: the page is zero. -/
def start (db : Option Db) : Dataport := ⟨Mem.zero, false, .input, .waiting, ⟨Auth.State.init, db⟩⟩

/-- A step of one of the loops. -/
inductive Action where
  /-- The `memcpy` of the request starts. -/
  | clientWrite (request : Str)
  | clientStore (i : Nat)
  | clientEmit
  /-- The `printf` of the response starts. -/
  | clientRead
  | clientLoad
  | gatewayWait
  /-- The `strncpy` of the request starts. -/
  | gatewayRead (prev : Mem 512)
  | gatewayLoad
  | gatewayDispatch (fails : Nat → Nat → Bool)
  /-- The `memcpy` of the reply starts. -/
  | gatewayWrite
  | gatewayStore (i : Nat)

section Loops

variable (overflow : Int → Int32) (eng : Engine)

/-- One step. -/
def step (s : Dataport) : Action → Option (Dataport × Option Event)
  | .clientWrite request =>
    if s.client = .input ∧ NoNul request ∧ request.length < 512 then
      some ({ s with client := .storing (Copy.start request) }, none)
    else none
  | .clientStore i =>
    match s.client with
    | .storing c => (c.store s.netBuffer i).map fun r =>
      if r.2.todo = [] then
        ({ s with netBuffer := r.1, client := .written }, some (.requested c.text))
      else ({ s with netBuffer := r.1, client := .storing r.2 }, none)
    | _ => none
  | .clientEmit =>
    if s.client = .written then some ({ s with dataReady := true, client := .waiting }, none)
    else none
  | .clientRead =>
    if s.client = .waiting then some ({ s with client := .printing [] }, none) else none
  | .clientLoad =>
    match s.client with
    | .printing read => (loadByte s.netBuffer read.length).map fun b =>
      if b = 0 then ({ s with client := .input }, some (.responded read))
      else ({ s with client := .printing (read ++ [b]) }, none)
    | _ => none
  | .gatewayWait =>
    match s.gateway with
    | .waiting =>
      if s.dataReady = true then some ({ s with dataReady := false, gateway := .woken }, none)
      else none
    | _ => none
  | .gatewayRead prev =>
    match s.gateway with
    | .woken => some ({ s with gateway := .copying prev [] }, none)
    | _ => none
  | .gatewayLoad =>
    match s.gateway with
    | .copying prev read => (loadByte s.netBuffer read.length).map fun b =>
      -- `strncpy` stops behind a terminator, or when it has 511 bytes
      if b = 0 then ({ s with gateway := .loaded (localBuf prev read) }, none)
      else if read.length + 1 = 511 then
        ({ s with gateway := .loaded (localBuf prev (read ++ [b])) }, none)
      else ({ s with gateway := .copying prev (read ++ [b]) }, none)
    | _ => none
  | .gatewayDispatch fails =>
    match s.gateway with
    | .loaded buf => (answer overflow eng fails s.servers buf).map fun r =>
      ({ s with gateway := .answered r.reply, servers := r.servers },
        r.call.map fun x => .called x.1 x.2)
    | _ => none
  | .gatewayWrite =>
    match s.gateway with
    | .answered reply => some ({ s with gateway := .storing (Copy.start reply) }, none)
    | _ => none
  | .gatewayStore i =>
    match s.gateway with
    | .storing c => (c.store s.netBuffer i).map fun r =>
      if r.2.todo = [] then ({ s with netBuffer := r.1, gateway := .waiting }, none)
      else ({ s with netBuffer := r.1, gateway := .storing r.2 }, none)
    | _ => none

end Loops

/-- A state of a run and the log of the run. -/
abbrev Logged := Dataport × List (Action × Option Event)

end Dataport

end BankSel4.System
