import BankSel4.Sql.Lexer

/-!
# A fragment of SQL

The statements that `CREATE TABLE IF NOT EXISTS`, `INSERT`, `UPDATE` and `SELECT` make of tables
with text and integer columns, of literals and of the names in a given list.  `parseStmt` is `none`
for a statement outside this fragment.  Names and keywords are compared without regard to case, as
SQLite does, and kept in lower case.
-/

namespace BankSel4.Sql

/-- The name of a table or a column, in lower case. -/
abbrev Name := Str

/-- The type of a column. -/
inductive ColType where
  | text
  | integer
  deriving DecidableEq, Repr

/-- The primary key of a table. -/
inductive Key where
  | none
  /-- `TEXT PRIMARY KEY` -/
  | text (c : Name)
  /-- `INTEGER PRIMARY KEY AUTOINCREMENT` -/
  | rowid (c : Name)
  deriving DecidableEq, Repr

/-- A literal. -/
inductive Literal where
  | text (s : Str)
  | int (i : Int)
  deriving DecidableEq, Repr

/-- The operator of an update. -/
inductive Sign where
  | plus
  | minus
  deriving DecidableEq, Repr

/-- A statement of the fragment. -/
inductive Stmt where
  /-- `CREATE TABLE IF NOT EXISTS table (..)` -/
  | create (table : Name) (cols : List (Name × ColType)) (key : Key)
  /-- `INSERT [OR IGNORE] INTO table (..) VALUES (..)` -/
  | insert (orIgnore : Bool) (table : Name) (cols : List Name) (vals : List Literal)
  /-- `UPDATE table SET col = col + n WHERE key = 'lit'`, or with `-` -/
  | update (table col : Name) (sign : Sign) (n : Int) (key : Name) (lit : Str)
  /-- `SELECT .. FROM table`, or with `ORDER BY order DESC LIMIT 1` -/
  | select (cols : List Name) (table : Name) (order : Option Name)
  deriving DecidableEq, Repr

/-- A word in lower case. -/
def lower (w : Str) : Str := w.map fun c => if 65 ≤ c && c ≤ 90 then c + 32 else c

/-- The lists between the separators of a list. -/
def splitTokens (isSep : Token → Bool) : List Token → List (List Token)
  | [] => [[]]
  | t :: ts =>
    if isSep t then [] :: splitTokens isSep ts
    else
      match splitTokens isSep ts with
      | [] => [[t]]
      | g :: gs => (t :: g) :: gs

/-- A comma. -/
def Token.isComma : Token → Bool
  | .comma => true
  | _ => false

/-- A semicolon. -/
def Token.isSemi : Token → Bool
  | .semi => true
  | _ => false

/-- The tokens up to the next closing parenthesis, and those behind it. -/
def untilParen : List Token → Option (List Token × List Token)
  | [] => none
  | .rparen :: ts => some ([], ts)
  | t :: ts => (untilParen ts).map fun r => (t :: r.1, r.2)

/-- The tokens behind the given keywords. -/
def expect : List Str → List Token → Option (List Token)
  | [], ts => some ts
  | w :: ws, .word v :: ts => if lower v = w then expect ws ts else none
  | _ :: _, _ => none

section Parser

variable (names : List Name)

/-- A known name. -/
def parseName : List Token → Option Name
  | [.word w] => if lower w ∈ names then some (lower w) else none
  | _ => none

/-- A literal, with its sign. -/
def parseLiteral : List Token → Option Literal
  | [.str s] => some (.text s)
  | [.num n] => some (.int n)
  | [.minus, .num n] => some (.int (-n))
  | _ => none

/-- The definition of a column, and whether it is the primary key. -/
def parseColumn : List Token → Option ((Name × ColType) × Bool)
  | .word c :: .word type :: ts => do
    let c ← parseName names [.word c]
    if lower type = bytes "text" then
      if ts.isEmpty then some ((c, .text), false)
      else (expect [bytes "primary", bytes "key"] ts).bind fun rest =>
        if rest.isEmpty then some ((c, .text), true) else none
    else if lower type = bytes "integer" then
      if ts.isEmpty then some ((c, .integer), false)
      else (expect [bytes "primary", bytes "key", bytes "autoincrement"] ts).bind fun rest =>
        if rest.isEmpty then some ((c, .integer), true) else none
    else none
  | _ => none

/-- The key of a table with these columns; no more than one of them can be the key. -/
def keyOf : List ((Name × ColType) × Bool) → Option Key
  | [] => some .none
  | [((c, .text), true)] => some (.text c)
  | [((c, .integer), true)] => some (.rowid c)
  | _ => none

/-- `CREATE TABLE IF NOT EXISTS t (..)` -/
def parseCreate (ts : List Token) : Option Stmt := do
  let ts ← expect (["create", "table", "if", "not", "exists"].map bytes) ts
  match ts with
  | .word t :: .lparen :: ts => do
    let t ← parseName names [.word t]
    let (body, rest) ← untilParen ts
    let cols ← (splitTokens Token.isComma body).mapM (parseColumn names)
    let key ← keyOf (cols.filter (·.2))
    if rest.isEmpty && decide (cols.map (·.1.1)).Nodup then some (.create t (cols.map (·.1)) key)
    else none
  | _ => none

/-- `INSERT INTO` or `INSERT OR IGNORE INTO` -/
def insertHead (ts : List Token) : Option (Bool × List Token) :=
  ((expect (["insert", "into"].map bytes) ts).map fun ts => (false, ts)) <|>
    (expect (["insert", "or", "ignore", "into"].map bytes) ts).map fun ts => (true, ts)

/-- `INSERT [OR IGNORE] INTO t (..) VALUES (..)` -/
def parseInsert (ts : List Token) : Option Stmt := do
  let (orIgnore, ts) ← insertHead ts
  match ts with
  | .word t :: .lparen :: ts => do
    let t ← parseName names [.word t]
    let (cols, ts) ← untilParen ts
    let cols ← (splitTokens Token.isComma cols).mapM (parseName names)
    match ← expect [bytes "values"] ts with
    | .lparen :: ts => do
      let (vals, rest) ← untilParen ts
      let vals ← (splitTokens Token.isComma vals).mapM parseLiteral
      if rest.isEmpty then some (.insert orIgnore t cols vals) else none
    | _ => none
  | _ => none

/-- `+ n` or `- n`, where `n` may have a sign of its own; and the tokens behind it. -/
def parseAmount : List Token → Option (Sign × Int × List Token)
  | .plus :: .num n :: ts => some (.plus, n, ts)
  | .plus :: .minus :: .num n :: ts => some (.plus, -n, ts)
  | .minus :: .num n :: ts => some (.minus, n, ts)
  | .minus :: .minus :: .num n :: ts => some (.minus, -n, ts)
  | _ => none

/-- `UPDATE t SET c = c + n WHERE k = 's'` -/
def parseUpdate (ts : List Token) : Option Stmt := do
  match ← expect [bytes "update"] ts with
  | .word t :: ts => do
    let t ← parseName names [.word t]
    match ← expect [bytes "set"] ts with
    | .word c :: .eq :: .word c' :: ts => do
      let c ← parseName names [.word c]
      let (sign, n, ts) ← parseAmount ts
      match ← expect [bytes "where"] ts with
      | [.word k, .eq, .str s] => do
        let k ← parseName names [.word k]
        -- the column that is set is the one in the sum
        if lower c' = c then some (.update t c sign n k s) else none
      | _ => none
    | _ => none
  | _ => none

/-- The tokens up to the next `FROM`, and those behind it. -/
def untilFrom : List Token → Option (List Token × List Token)
  | [] => none
  | t :: ts =>
    match expect [bytes "from"] [t] with
    | some _ => some ([], ts)
    | none => (untilFrom ts).map fun r => (t :: r.1, r.2)

/-- `ORDER BY c DESC LIMIT 1`, or nothing -/
def parseOrder (ts : List Token) : Option (Option Name) :=
  if ts.isEmpty then some none
  else do
    match ← expect (["order", "by"].map bytes) ts with
    | .word c :: ts => do
      let c ← parseName names [.word c]
      match ← expect (["desc", "limit"].map bytes) ts with
      | [.num 1] => some (some c)
      | _ => none
    | _ => none

/-- `SELECT .. FROM t ..` -/
def parseSelect (ts : List Token) : Option Stmt := do
  let ts ← expect [bytes "select"] ts
  let (cols, ts) ← untilFrom ts
  let cols ← (splitTokens Token.isComma cols).mapM (parseName names)
  match ts with
  | .word t :: ts => do
    let t ← parseName names [.word t]
    let order ← parseOrder names ts
    some (.select cols t order)
  | _ => none

/-- The statement made of the tokens. -/
def parseStmt (ts : List Token) : Option Stmt :=
  parseCreate names ts <|> parseInsert names ts <|> parseUpdate names ts <|> parseSelect names ts

end Parser

end BankSel4.Sql
