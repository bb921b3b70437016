import BankSel4.Sql.Syntax
import Mathlib.Logic.Function.Basic

/-!
# The SQL engine

`sqlExec` is `sqlite3_exec`: it runs the statements of a text in order and stops at the first one
that fails, which has no effect.  The statements of the fragment are defined here.  At the first
statement that they do not cover, and from the start when the database holds more than plain tables
(`Db.extra`), the rest of the text is left to the `Engine`, as is arithmetic that leaves the 64-bit
integers.  Which statements fail for lack of storage is an argument.
-/

namespace BankSel4.Sql

/-- A value in a table. -/
inductive Value where
  | null
  | int (i : Int)
  | text (s : Str)
  /-- A real number or a blob, encoded. -/
  | other (code : Str)
  deriving DecidableEq, Repr

/-- A row: the value of each column. -/
abbrev Row := Name → Value

/-- A table. -/
structure Table where
  cols : List (Name × ColType)
  key : Key
  rows : List Row
  /-- The largest id ever given, in `sqlite_sequence`. -/
  seq : Int

/-- A database. -/
structure Db where
  tables : Name → Option Table
  /-- What else the file and the connection hold (views, triggers, indices, an open transaction,
  settings), encoded; empty when there is nothing else. -/
  extra : Str

/-- The database of an empty file. -/
def Db.empty : Db := ⟨fun _ => none, []⟩

/-- The database with the table `t` at its name. -/
def Db.setTable (db : Db) (name : Name) (t : Table) : Db :=
  ⟨Function.update db.tables name (some t), db.extra⟩

/-- The part of SQLite that the fragment does not cover. -/
structure Engine where
  /-- The effect of a text from its `k`-th statement on, given which statements fail for lack of
  storage, and whether all of them succeed. -/
  other : (Nat → Bool) → Db → Str → Nat → Db × Bool
  /-- What is stored for the sum or the difference of a value and an integer, where it is not an
  integer of 64 bits. -/
  arith : Sign → Value → Int → Value

/-- A signed integer of 64 bits. -/
def fitsInt64 (i : Int) : Bool := -2 ^ 63 ≤ i && i < 2 ^ 63

/-- The sum or the difference. -/
def Sign.apply : Sign → Int → Int → Int
  | .plus, m, n => m + n
  | .minus, m, n => m - n

/-- The sum or the difference of a value and an integer. -/
def Engine.combine (eng : Engine) (sign : Sign) (v : Value) (n : Int) : Value :=
  match v with
  | .int m => if fitsInt64 (sign.apply m n) then .int (sign.apply m n) else eng.arith sign v n
  | _ => eng.arith sign v n

/-! ### Statements -/

/-- The value of a literal. -/
def Literal.value : Literal → Value
  | .text s => .text s
  | .int i => .int i

/-- The literal is stored in a column of the type as it is. -/
def Literal.fits : Literal → ColType → Bool
  | .text _, .text => true
  | .int i, .integer => fitsInt64 i
  | _, _ => false

/-- The row with the given values, and nulls elsewhere. -/
def rowOf (vals : List (Name × Literal)) : Row := fun c =>
  match vals.lookup c with
  | some l => l.value
  | none => .null

/-- The integer in the column `c`, if there is one. -/
def Row.int? (r : Row) (c : Name) : Option Int :=
  match r c with
  | .int i => some i
  | _ => none

/-- The largest id in the column `c`, or given before. -/
def Table.lastId (t : Table) (c : Name) : Int :=
  (t.rows.filterMap fun r => r.int? c).foldr max t.seq

/-- The id of the next row, while there is one. -/
def Table.nextId (t : Table) (c : Name) : Option Int :=
  if t.lastId c < 2 ^ 63 - 1 then some (t.lastId c + 1) else none

/-- Some row has the value in the column `c`. -/
def Table.hasValue (t : Table) (c : Name) (v : Value) : Bool := t.rows.any fun r => r c == v

/-- The table with the row added, unless that fails.  A row with a key that is there already is
dropped by `INSERT OR IGNORE`, and else an error. -/
def Table.insertRow (t : Table) (orIgnore : Bool) (r : Row) : Option Table :=
  match t.key with
  | .none => some { t with rows := t.rows ++ [r] }
  | .text c =>
    if r c != .null && t.hasValue c (r c) then if orIgnore then some t else none
    else some { t with rows := t.rows ++ [r] }
  | .rowid c => (t.nextId c).map fun i =>
    { t with rows := t.rows ++ [Function.update r c (.int i)], seq := i }

/-- The values can be stored as they are, and none is given for an id. -/
def Table.admits (t : Table) (cols : List Name) (vals : List Literal) : Bool :=
  decide cols.Nodup && cols.length == vals.length &&
    (cols.zip vals).all fun p => t.key != .rowid p.1 &&
      match t.cols.lookup p.1 with
      | some type => p.2.fits type
      | none => false

/-- `INSERT`; `none` outside the fragment. -/
def execInsert (db : Db) (orIgnore : Bool) (table : Name) (cols : List Name)
    (vals : List Literal) : Option (Db × Bool) :=
  match db.tables table with
  | none => some (db, false)
  | some t =>
    if cols.all (fun c => (t.cols.lookup c).isSome) then
      if t.admits cols vals then
        match t.insertRow orIgnore (rowOf (cols.zip vals)) with
        | some t' => some (db.setTable table t', true)
        | none => some (db, false)
      else none
    else some (db, false)

/-- A row after an update: changed if it has the key. -/
def updateRow (eng : Engine) (col : Name) (sign : Sign) (n : Int) (key : Name) (lit : Str)
    (r : Row) : Row :=
  if r key = .text lit then Function.update r col (eng.combine sign (r col) n) else r

/-- `UPDATE`; `none` outside the fragment. -/
def execUpdate (eng : Engine) (db : Db) (table col : Name) (sign : Sign) (n : Int) (key : Name)
    (lit : Str) : Option (Db × Bool) :=
  match db.tables table with
  | none => some (db, false)
  | some t =>
    match t.cols.lookup col, t.cols.lookup key with
    | some .integer, some .text =>
      if fitsInt64 n && t.key != .rowid col then
        some (db.setTable table
          { t with rows := t.rows.map (updateRow eng col sign n key lit) }, true)
      else none
    | some _, some _ => none
    | _, _ => some (db, false)

/-- `SELECT`: it succeeds when the table and the columns are there. -/
def execSelect (db : Db) (cols : List Name) (table : Name) (order : Option Name) : Bool :=
  match db.tables table with
  | none => false
  | some t => (cols ++ order.toList).all fun c => (t.cols.lookup c).isSome

/-- The effect of a statement and whether it succeeds; `none` outside the fragment. -/
def execStmt (eng : Engine) (db : Db) : Stmt → Option (Db × Bool)
  | .create table cols key =>
    match db.tables table with
    | some _ => some (db, true)
    | none => some (db.setTable table ⟨cols, key, [], 0⟩, true)
  | .insert orIgnore table cols vals => execInsert db orIgnore table cols vals
  | .update table col sign n key lit => execUpdate eng db table col sign n key lit
  | .select cols table order => some (db, execSelect db cols table order)

/-! ### Texts -/

section Exec

variable (names : List Name) (eng : Engine) (fails : Nat → Bool)

/-- The statements of a text from the `k`-th on. -/
def execFrom (text : Str) : Db → Nat → List (List Token) → Db × Bool
  | db, _, [] => (db, true)
  | db, k, ts :: rest =>
    -- an empty statement does nothing, and is not counted
    if ts.isEmpty then execFrom text db k rest
    else
      match (parseStmt names ts).bind (execStmt eng db) with
      | none => eng.other fails db text k
      | some (db', ok) =>
        -- the statement is rolled back, and the rest of the text is not run
        if fails k || !ok then (db, false) else execFrom text db' (k + 1) rest

/-- `sqlite3_exec`: the database after the text, and whether the result is `SQLITE_OK`. -/
def sqlExec (db : Db) (text : Str) : Db × Bool :=
  if db.extra.isEmpty then
    execFrom names eng fails text db 0 (splitTokens Token.isSemi (tokens text))
  else eng.other fails db text 0

end Exec

end BankSel4.Sql
