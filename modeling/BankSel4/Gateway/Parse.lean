import BankSel4.Auth.Users
import BankSel4.Bytes.CString
import BankSel4.Ledger.Bank

/-!
# The APIGateway component

One round of the loop in `gateway.c`, between the copy of the request into `local_buf` and the copy
of the reply back: `parse` cuts the request into words and finds the call it leads to, or the reply
that refuses it; `replyTo` is the reply for the result of the call.  `runOnce` is the whole of it,
with the calls made.  What `atoi` returns for numbers out of range is an argument, `overflow`, and
so are the results of the calls, `rpc`.
-/

namespace BankSel4.Gateway

/-- A call of the gateway. -/
inductive Call where
  | auth (op : Auth.Op)
  | bank (c : Ledger.Call)
  deriving DecidableEq, Repr

/-- What a request leads to. -/
inductive Parsed where
  /-- No call, and the reply. -/
  | refused (reply : Str)
  | call (c : Call)
  deriving DecidableEq, Repr

/-- `local_buf` after `strncpy(local_buf, request, 511)`, from what was in it before. -/
def localBuf (prev : Mem 512) (request : Str) : Str :=
  (prev.store 0 (strncpy 511 request)).toList

/-- `snprintf(reply, sizeof(reply), ..)` of an error. -/
def refuse (fmt : Str) (args : List Arg) : Except Fault Parsed :=
  (snprintf 512 fmt args).map .refused

/-- The branches for `login` and `register`: two words more. -/
def parseCredentials (op : Str → Str → Auth.Op) (usage : Str) (p : Str) : Except Fault Parsed := do
  -- `strtok` is called for all words before the first is tested
  let (user, p) ← strtok p
  let (pin, _) ← strtok p
  match user, pin with
  | some user, some pin => .ok (.call (.auth (op user pin)))
  | _, _ => refuse usage []

/-- The branch for `login`. -/
def parseLogin : Str → Except Fault Parsed :=
  parseCredentials .login (bytes "ERROR: Usage: login <user> <pin>")

/-- The branch for `register`. -/
def parseRegister : Str → Except Fault Parsed :=
  parseCredentials .registerUser (bytes "ERROR: Usage: register <user> <pin>")

section Parse

variable (overflow : Int → Int32)

/-- The branch for `tx`: five words more. -/
def parseTx (p : Str) : Except Fault Parsed := do
  let (token, p) ← strtok p
  let (src, p) ← strtok p
  let (dest, p) ← strtok p
  let (type, p) ← strtok p
  let (amt, _) ← strtok p
  match token, src, dest, type, amt with
  | some token, some src, some dest, some type, some amt =>
    .ok (.call (.bank ⟨atoi overflow token, src, dest, type, atoi overflow amt⟩))
  | _, _, _, _, _ => refuse (bytes "ERROR: Usage: tx <token> <src> <dest> <type> <amt>") []

/-- The parsing of `local_buf`. -/
def parse (buf : Str) : Except Fault Parsed := do
  let (cmd, p) ← strtok buf
  match cmd with
  | none => refuse (bytes "ERROR: Empty command") []
  | some cmd =>
    if cmd = bytes "login" then parseLogin p
    else if cmd = bytes "register" then parseRegister p
    else if cmd = bytes "tx" then parseTx overflow p
    else refuse (bytes "ERROR: Unknown command: %s") [.str cmd]

end Parse

/-- The reply for the result of a call. -/
def replyTo (c : Call) (result : Int32) : Except Fault Str :=
  match c with
  | .auth (.login ..) => snprintf 512 (bytes "LOGIN_RESULT: %d") [.int result.toInt]
  | .auth (.registerUser ..) => snprintf 512 (bytes "REGISTER_RESULT: %d") [.int result.toInt]
  | .bank _ => snprintf 512 (bytes "TX_RESULT: %d") [.int result.toInt]

/-- One round of the loop, from what was in `local_buf` before: the calls made, and the reply. -/
def runOnce (overflow : Int → Int32) (rpc : Call → Int32) (prev : Mem 512) (request : Str) :
    Except Fault (List Call × Str) := do
  match ← parse overflow (localBuf prev request) with
  | .refused reply => .ok ([], reply)
  | .call c => do
    let reply ← replyTo c (rpc c)
    .ok ([c], reply)

end BankSel4.Gateway
