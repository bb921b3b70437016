import BankSel4.Auth.Users
import BankSel4.Ledger.Bank

/-!
# Calls of the assembly

`banking_system.camkes` connects both the client and the gateway to the AuthServer and to the
Ledger: `auth_conn`, `bank_conn`, `gateway_to_auth` and `gateway_to_bank`.  The two servers have no
connection to each other.  Each serves one call at a time, so a run of the system is a list of
calls, in any order, by any of the two callers.
-/

namespace BankSel4.System

open Sql

/-- A component with connections to the AuthServer and the Ledger. -/
inductive Caller where
  | client
  | gateway
  deriving DecidableEq, Repr

/-- A call over one of the four connections.  Statement `j` of the `i`-th text of a call of the Bank
interface fails for lack of storage when `fails i j` is set. -/
inductive Rpc where
  | auth (caller : Caller) (op : Auth.Op)
  | bank (caller : Caller) (fails : Nat → Nat → Bool) (c : Ledger.Call)

/-- The reply to a call. -/
inductive Reply where
  | auth (r : Auth.Reply)
  | bank (r : Ledger.Reply)
  deriving DecidableEq, Repr

/-- The static variables of the two servers. -/
structure State where
  auth : Auth.State
  /-- The database of the Ledger, which is `NULL` before `pre_init`. -/
  db : Option Db

/-- One call, without a successor where it faults. -/
def step (eng : Engine) (s : State) : Rpc → Option (State × Reply)
  | .auth _ op => (Auth.step s.auth op).map fun r => (⟨r.1, s.db⟩, .auth r.2)
  | .bank _ fails c =>
    let out := Ledger.bankExecuteTransaction eng fails s.db c
    out.ret.toOption.map fun rc => (⟨s.auth, out.db⟩, .bank ⟨rc, out.log⟩)

end BankSel4.System
