import BankSel4.Sql.Engine

/-!
# The Ledger component

`ledger.c`: `preInit` opens the database and creates the schema, `bankExecuteTransaction` serves a
call of the Bank interface.  Both hand SQL texts to the engine; a call keeps a log of the texts it
executes and whether the result was `SQLITE_OK`, whether or not the source looks at it.
-/

namespace BankSel4.Ledger

open Sql

/-- The names of tables and columns in the texts. -/
def names : List Name :=
  ["accounts", "transactions", "user", "username", "balance", "id", "type", "src", "dest", "amount",
    "status"].map bytes

/-! ### The texts -/

/-- The schema. -/
def schemaText : Str := bytes
  "CREATE TABLE IF NOT EXISTS accounts (username TEXT PRIMARY KEY, balance INTEGER);" ++ bytes
  "CREATE TABLE IF NOT EXISTS transactions (id INTEGER PRIMARY KEY AUTOINCREMENT, type TEXT, src TEXT, dest TEXT, amount INTEGER, status TEXT);"

/-- The record of a blocked call. -/
def blockedFormat : Str := bytes
  "INSERT INTO transactions (src, dest, type, amount, status) VALUES ('%s', '%s', '%s', %d, 'BLOCKED_INVALID_CAPABILITY');"

/-- The creation of the accounts. -/
def createFormat : Str := bytes
  "INSERT OR IGNORE INTO accounts (user, balance) VALUES ('%s', 0);" ++ bytes
  "INSERT OR IGNORE INTO accounts (user, balance) VALUES ('%s', 0);"

/-- The update of a transfer. -/
def transferFormat : Str := bytes
  "UPDATE accounts SET balance = balance - %d WHERE user = '%s';" ++ bytes
  "UPDATE accounts SET balance = balance + %d WHERE user = '%s';"

/-- The update of a deposit. -/
def depositFormat : Str := bytes "UPDATE accounts SET balance = balance + %d WHERE user = '%s';"

/-- The update of a withdrawal. -/
def withdrawalFormat : Str := bytes "UPDATE accounts SET balance = balance - %d WHERE user = '%s';"

/-- The record of an approved call. -/
def approvedFormat : Str := bytes
  "INSERT INTO transactions (src, dest, type, amount, status) VALUES ('%s', '%s', '%s', %d, 'APPROVED');"

/-- The dump of the latest record. -/
def dumpLogText : Str := bytes
  "SELECT id, type, src, dest, amount, status FROM transactions ORDER BY id DESC LIMIT 1;"

/-- The dump of the accounts. -/
def dumpAccountsText : Str := bytes "SELECT user, balance FROM accounts;"

/-! ### Calls in progress -/

/-- A text handed to `sqlite3_exec`, and whether the result was `SQLITE_OK`. -/
structure Exec where
  text : Str
  ok : Bool
  deriving DecidableEq, Repr

/-- The state of a call: the database, and the texts executed so far. -/
structure Session where
  db : Db
  log : List Exec

/-- A computation of a call, which may fault. -/
def CallM (α : Type) : Type := Session → Except Fault α × Session

instance : Monad CallM where
  pure a := fun s => (.ok a, s)
  bind x f := fun s =>
    match x s with
    | (.ok a, s') => f a s'
    | (.error e, s') => (.error e, s')

/-- The arguments of `bank_execute_transaction`. -/
structure Call where
  token : Int32
  src : Str
  dest : Str
  txType : Str
  amount : Int32
  deriving DecidableEq, Repr

section Bank

variable (eng : Engine) (fails : Nat → Nat → Bool)

/-- `sqlite3_exec(db, text, ..)`; statement `j` of the `i`-th text of the call fails for lack of
storage when `fails i j` is set. -/
def exec (text : Str) : CallM Bool := fun s =>
  let r := sqlExec names eng (fails s.log.length) s.db text
  (.ok r.2, ⟨r.1, s.log ++ [⟨text, r.2⟩]⟩)

/-- `sprintf(sql, ..)`, with `char sql[512]`. -/
def sprintfSql (fmt : Str) (args : List Arg) : CallM Str := fun s => (sprintf 512 fmt args, s)

/-- What `sql` holds when the business logic is executed: the update for the type, or what was in it
before when the type is not known. -/
def updateText (c : Call) (sql : Str) : CallM Str :=
  if c.txType = bytes "TRANSFER" then
    sprintfSql transferFormat [.int c.amount.toInt, .str c.src, .int c.amount.toInt, .str c.dest]
  else if c.txType = bytes "DEPOSIT" then
    sprintfSql depositFormat [.int c.amount.toInt, .str c.dest]
  else if c.txType = bytes "WITHDRAWAL" then
    sprintfSql withdrawalFormat [.int c.amount.toInt, .str c.src]
  -- an unknown type: the creation of the accounts is executed again
  else pure sql

/-- From the label `dump_live_contents` on. -/
def dumpLiveContents (c : Call) : CallM Int32 := do
  let _ ← exec eng fails dumpLogText
  let _ ← exec eng fails dumpAccountsText
  pure (if c.token ≥ 1000 then 0 else -1)

/-- `bank_execute_transaction`, behind the safety guard. -/
def executeTransaction (c : Call) : CallM Int32 :=
  if c.token < 1000 then do
    let sql ← sprintfSql blockedFormat
      [.str c.src, .str c.dest, .str c.txType, .int c.amount.toInt]
    -- the result of the record is not looked at
    let _ ← exec eng fails sql
    dumpLiveContents eng fails c
  else do
    let sql ← sprintfSql createFormat [.str c.src, .str c.dest]
    let _ ← exec eng fails sql
    -- nor is that of the creation
    let sql ← updateText c sql
    let rc ← exec eng fails sql
    if rc then do
      let sql ← sprintfSql approvedFormat
        [.str c.src, .str c.dest, .str c.txType, .int c.amount.toInt]
      let _ ← exec eng fails sql
      dumpLiveContents eng fails c
    else pure (-1)

/-- What a call leaves: the static `db`, which is `NULL` before `pre_init`, the texts executed, and
the returned value. -/
structure Outcome where
  db : Option Db
  log : List Exec
  ret : Except Fault Int32

/-- `bank_execute_transaction`. -/
def bankExecuteTransaction (db : Option Db) (c : Call) : Outcome :=
  match db with
  | none => ⟨none, [], .ok (-1)⟩
  | some db =>
    let r := executeTransaction eng fails c ⟨db, []⟩
    ⟨some r.2.db, r.2.log, r.1⟩

/-- `pre_init`, with the result of opening the database; it does not return if that failed. -/
def preInit (opened : Option Db) : Option (Option Db) :=
  opened.map fun db => some (sqlExec names eng (fails 0) db schemaText).1

end Bank

/-! ### The component as a step function -/

/-- No statement fails for lack of storage. -/
def noFails : Nat → Nat → Bool := fun _ _ => false

/-- The reply to a call: the returned value and the texts executed. -/
structure Reply where
  rc : Int32
  log : List Exec
  deriving DecidableEq, Repr

/-- One call with storage at hand, without a successor where it faults. -/
def step (eng : Engine) (db : Option Db) (c : Call) : Option (Option Db × Reply) :=
  let out := bankExecuteTransaction eng noFails db c
  out.ret.toOption.map fun rc => (out.db, ⟨rc, out.log⟩)

/-- The static `db` after a call. -/
def next (eng : Engine) (db : Option Db) (c : Call) : Option (Option Db) :=
  (step eng db c).map Prod.fst

end BankSel4.Ledger
