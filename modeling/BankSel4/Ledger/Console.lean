import BankSel4.Ledger.Bank

/-!
# What the Ledger prints

`bank_execute_transaction` once more, with its console: `Console.executeTransaction` prints where
`executeTransaction` only executes.  The dump hands two queries to the engine, whose rows go to
`logViewerCallback`; no other text has a callback.  There is storage for every statement.
-/

namespace BankSel4.Ledger

open Sql

/-! ### Rows -/

/-- The part of the rows that the fragment does not cover. -/
structure Viewer where
  /-- The text of a real number or a blob. -/
  code : Str → Str
  /-- What is printed for a text that is no query of the fragment. -/
  other : Db → Str → Str

/-- `argv[i]` for a value: `NULL` for a null, and else a C string. -/
def Viewer.columnText (v : Viewer) : Value → Option Str
  | .null => none
  | .int i => some (decimal i)
  | .text s => some (s.takeWhile (· != 0))
  | .other code => some (v.code code)

/-- The order of the integers, with a null below them. -/
def keyLt : Option Int → Option Int → Bool
  | none, some _ => true
  | some i, some j => i < j
  | _, none => false

/-- The row with the largest integer in the column `c`. -/
def latest (c : Name) (rows : List Row) : Option Row :=
  rows.foldl (fun max r => match max with
    | none => some r
    | some max => some (if keyLt (max.int? c) (r.int? c) then r else max)) none

/-- The rows of a query; `none` outside the fragment, which orders by ids only. -/
def selectRows (db : Db) (cols : List Name) (table : Name) (order : Option Name) :
    Option (List Row) :=
  -- a query that fails has no rows
  if execSelect db cols table order then
    (db.tables table).bind fun t =>
      match order with
      | none => some t.rows
      | some c => if t.key = .rowid c then some (latest c t.rows).toList else none
  else some []

/-- `log_viewer_callback`: the line for a row. -/
def logViewerCallback (azColName : List Str) (argv : List (Option Str)) : Str :=
  let argc := argv.length
  bytes "[Ledger] Transaction Log Entry -> " ++
    (List.range argc).flatMap (fun i =>
      azColName.getD i [] ++ bytes ": " ++ (argv.getD i none).getD (bytes "NULL") ++
        -- a separator, but not after the last column
        if i < argc - 1 then bytes " | " else []) ++
    bytes "\n"

/-- The line for the columns `cols` of a row. -/
def Viewer.rowLine (v : Viewer) (cols : List Name) (r : Row) : Str :=
  logViewerCallback cols (cols.map fun c => v.columnText (r c))

/-- What `sqlite3_exec(db, text, log_viewer_callback, ..)` prints. -/
def Viewer.rowsText (v : Viewer) (db : Db) (text : Str) : Str :=
  match db.extra, ((splitTokens Token.isSemi (tokens text)).filter (!·.isEmpty)).mapM
    (parseStmt names) with
  | [], some [.select cols table order] =>
    match selectRows db cols table order with
    | some rows => rows.flatMap (v.rowLine cols)
    | none => v.other db text
  | _, _ => v.other db text

/-! ### Printing -/

/-- `write`: the characters go to the console one by one. -/
def write (console data : Str) : Str := data.foldl (fun console c => console ++ [c]) console

/-- The line of a call without authority. -/
def alertText : Str :=
  bytes "[Ledger] SECURITY ALERT: Unauthorized Token. Intercepting action.\n"

/-- The line above the latest record. -/
def recordHeader : Str := bytes "\n[SQLite Engine] >>> DUMPING LATEST LOG AUDIT RECORD <<<\n"

/-- The line above the accounts. -/
def accountsHeader : Str :=
  bytes "[SQLite Engine] >>> DUMPING CURRENT STATE ACCOUNT MATRICES <<<\n"

/-- The line below them. -/
def ruler : Str := bytes "=================================================================\n"

/-- The line of a call without a database. -/
def noDbText : Str :=
  bytes "[Ledger] ERR: Cannot execute transaction. Database is not initialized.\n"

/-- The state of a call that prints. -/
@[ext] structure Printing where
  session : Session
  console : Str

/-- A computation of a call that prints. -/
def PrintM (α : Type) : Type := Printing → Except Fault α × Printing

instance : Monad PrintM where
  pure a := fun p => (.ok a, p)
  bind x f := fun p =>
    match x p with
    | (.ok a, p') => f a p'
    | (.error e, p') => (.error e, p')

/-- A computation that prints nothing. -/
def CallM.silent {α : Type} (x : CallM α) : PrintM α := fun p =>
  let r := x p.session
  (r.1, ⟨r.2, p.console⟩)

/-- `printf`, of a text without directives. -/
def printf (text : Str) : PrintM Unit := fun p => (.ok (), ⟨p.session, write p.console text⟩)

namespace Console

section Bank

variable (eng : Engine) (v : Viewer)

/-- `sqlite3_exec`, with no callback. -/
def exec (text : Str) : PrintM Bool := (Ledger.exec eng noFails text).silent

/-- `sqlite3_exec`, with `log_viewer_callback`. -/
def execView (text : Str) : PrintM Bool := fun p =>
  exec eng text ⟨p.session, write p.console (v.rowsText p.session.db text)⟩

/-- From the label `dump_live_contents` on. -/
def dumpLiveContents (c : Call) : PrintM Int32 := do
  printf recordHeader
  let _ ← execView eng v dumpLogText
  printf accountsHeader
  let _ ← execView eng v dumpAccountsText
  printf ruler
  pure (if c.token ≥ 1000 then 0 else -1)

/-- `bank_execute_transaction`, behind the safety guard. -/
def executeTransaction (c : Call) : PrintM Int32 :=
  if c.token < 1000 then do
    printf alertText
    let sql ← (sprintfSql blockedFormat
      [.str c.src, .str c.dest, .str c.txType, .int c.amount.toInt]).silent
    let _ ← exec eng sql
    dumpLiveContents eng v c
  else do
    let sql ← (sprintfSql createFormat [.str c.src, .str c.dest]).silent
    let _ ← exec eng sql
    let sql ← (updateText c sql).silent
    let rc ← exec eng sql
    if rc then do
      let sql ← (sprintfSql approvedFormat
        [.str c.src, .str c.dest, .str c.txType, .int c.amount.toInt]).silent
      let _ ← exec eng sql
      dumpLiveContents eng v c
    else pure (-1)

/-- `bank_execute_transaction`, from the console `out`: the outcome, and the console behind it. -/
def bankExecuteTransaction (db : Option Db) (out : Str) (c : Call) : Outcome × Str :=
  match db with
  | none => (⟨none, [], .ok (-1)⟩, write out noDbText)
  | some db =>
    let r := executeTransaction eng v c ⟨⟨db, []⟩, out⟩
    (⟨some r.2.session.db, r.2.session.log, r.1⟩, r.2.console)

/-- The static `db` and the console after a call, without a successor where it faults. -/
def next (s : Option Db × Str) (c : Call) : Option (Option Db × Str) :=
  let r := bankExecuteTransaction eng v s.1 s.2 c
  r.1.ret.toOption.map fun _ => (r.1.db, r.2)

end Bank

end Console

end BankSel4.Ledger
