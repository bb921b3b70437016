import BankSel4.Ledger.Bank
import BankSel4.Sql.Equiv.Engine
import BankSel4.Sql.Equiv.Lexer

/-!
# The statements of the Ledger's texts

When no string of a call has a single quote, the texts made of it are the statements of their
formats: `statements_create`, `statements_update`, `statements_approved`, `statements_blocked`.
-/

namespace BankSel4.Ledger

open Sql

/-! ### Names -/

/-- The table `accounts`. -/
def accounts : Name := bytes "accounts"
/-- The table `transactions`. -/
def transactions : Name := bytes "transactions"
/-- The column `user`. -/
def userCol : Name := bytes "user"
/-- The column `balance`. -/
def balanceCol : Name := bytes "balance"

/-- The columns a record gives values for. -/
def recordCols : List Name := ["src", "dest", "type", "amount", "status"].map bytes

/-- `'BLOCKED_INVALID_CAPABILITY'` -/
def blockedStatus : Str := bytes "BLOCKED_INVALID_CAPABILITY"
/-- `'APPROVED'` -/
def approvedStatus : Str := bytes "APPROVED"

/-- The status with which a call is recorded. -/
def Call.status (c : Call) : Str := if c.token < 1000 then blockedStatus else approvedStatus

/-! ### Statements -/

/-- What a statement does to the accounts. -/
inductive Posting where
  /-- Create the account with the balance 0, unless it exists. -/
  | create (u : Str)
  /-- Add to the balance, or subtract from it. -/
  | add (sign : Sign) (n : Int) (u : Str)
  deriving DecidableEq, Repr

/-- The statement for a posting. -/
def Posting.stmt : Posting → Stmt
  | .create u => .insert true accounts [userCol, balanceCol] [.text u, .int 0]
  | .add sign n u => .update accounts balanceCol sign n userCol u

/-- The statement that records a call. -/
def recordStmt (c : Call) (status : Str) : Stmt :=
  .insert false transactions recordCols
    [.text c.src, .text c.dest, .text c.txType, .int c.amount.toInt, .text status]

/-- The postings of the account-creation text. -/
def creations (c : Call) : List Posting := [.create c.src, .create c.dest]

/-- The postings of the update text for a type, if it is known. -/
def updates? (c : Call) : Option (List Posting) :=
  if c.txType = bytes "TRANSFER" then
    some [.add .minus c.amount.toInt c.src, .add .plus c.amount.toInt c.dest]
  else if c.txType = bytes "DEPOSIT" then some [.add .plus c.amount.toInt c.dest]
  else if c.txType = bytes "WITHDRAWAL" then some [.add .minus c.amount.toInt c.src]
  else none

/-- The postings of the second text, which is the account-creation text again for other types. -/
def updates (c : Call) : List Posting := (updates? c).getD (creations c)

/-! ### Numbers -/

/-- A number, read back from its sign and its digits. -/
def signed (i : Int) : Int := if i < 0 then -(i.natAbs : Int) else i.natAbs

theorem signed_eq (i : Int) : signed i = i := by
  unfold signed
  split_ifs <;> omega

theorem sprintf_eq_ok {size : Nat} {fmt : Str} {args : List Arg} {text : Str}
    (h : sprintf size fmt args = .ok text) : format fmt args = some text := by
  unfold sprintf at h
  split at h
  · rename_i t ht
    split_ifs at h
    rw [ht, Except.ok.inj h]
  · cases h

/-! ### Records -/

/-- The pieces of the format of a record, up to its status. -/
def recordPieces (status : Str) : List Piece :=
  [.text (bytes "INSERT INTO transactions (src, dest, type, amount, status) VALUES ('"), .str,
    .text (bytes "', '"), .str, .text (bytes "', '"), .str, .text (bytes "', "), .int, .text status]

/-- The tokens of a record. -/
def recordTokens (src dest type status : Str) (i : Int) : List Token :=
  [.word (bytes "INSERT"), .word (bytes "INTO"), .word (bytes "transactions"), .lparen,
    .word (bytes "src"), .comma, .word (bytes "dest"), .comma, .word (bytes "type"), .comma,
    .word (bytes "amount"), .comma, .word (bytes "status"), .rparen, .word (bytes "VALUES"), .lparen,
    .str src, .comma, .str dest, .comma, .str type, .comma] ++
  (signToken i ++ [.num i.natAbs, .comma, .str status, .rparen, .semi])

theorem pieces_blocked : pieces blockedFormat =
    some (recordPieces (bytes ", 'BLOCKED_INVALID_CAPABILITY');")) := by
  decide +kernel

theorem pieces_approved : pieces approvedFormat =
    some (recordPieces (bytes ", 'APPROVED');")) := by
  decide +kernel

set_option maxRecDepth 20000 in
theorem scanPieces_blocked (src dest type : Str) (i : Int) :
    scanPieces .start (recordPieces (bytes ", 'BLOCKED_INVALID_CAPABILITY');"))
      [.str src, .str dest, .str type, .int i] =
      some (recordTokens src dest type blockedStatus i, .start) := by
  rfl

set_option maxRecDepth 20000 in
theorem scanPieces_approved (src dest type : Str) (i : Int) :
    scanPieces .start (recordPieces (bytes ", 'APPROVED');"))
      [.str src, .str dest, .str type, .int i] =
      some (recordTokens src dest type approvedStatus i, .start) := by
  rfl

set_option maxRecDepth 20000 in
theorem parse_recordTokens (src dest type status : Str) (i : Int) :
    ((splitTokens Token.isSemi (recordTokens src dest type status i)).filter (!·.isEmpty)).mapM
      (parseStmt names) = some [.insert false transactions recordCols
        [.text src, .text dest, .text type, .int i, .text status]] := by
  conv_rhs => rw [← signed_eq i]
  unfold recordTokens signToken signed
  -- a negative number has its sign as a token of its own
  split_ifs
  · rfl
  · rfl

/-! ### Account creation -/

/-- The pieces of the account-creation format. -/
def createPieces : List Piece :=
  [.text (bytes "INSERT OR IGNORE INTO accounts (user, balance) VALUES ('"), .str,
    .text (bytes "', 0);INSERT OR IGNORE INTO accounts (user, balance) VALUES ('"), .str,
    .text (bytes "', 0);")]

/-- The tokens of one account creation. -/
def createTokens (u : Str) : List Token :=
  [.word (bytes "INSERT"), .word (bytes "OR"), .word (bytes "IGNORE"), .word (bytes "INTO"),
    .word (bytes "accounts"), .lparen, .word (bytes "user"), .comma, .word (bytes "balance"),
    .rparen, .word (bytes "VALUES"), .lparen, .str u, .comma, .num 0, .rparen, .semi]

theorem pieces_create : pieces createFormat = some createPieces := by decide +kernel

set_option maxRecDepth 20000 in
theorem scanPieces_create (src dest : Str) :
    scanPieces .start createPieces [.str src, .str dest] =
      some (createTokens src ++ createTokens dest, .start) := by
  rfl

set_option maxRecDepth 20000 in
theorem parse_createTokens (src dest : Str) :
    ((splitTokens Token.isSemi (createTokens src ++ createTokens dest)).filter (!·.isEmpty)).mapM
      (parseStmt names) = some ([.create src, .create dest].map Posting.stmt) := by
  rfl

/-! ### Updates -/

/-- The pieces of an update. -/
def updatePieces (op : String) : List Piece :=
  [.text (bytes "UPDATE accounts SET balance = balance " ++ bytes op ++ bytes " "), .int,
    .text (bytes " WHERE user = '"), .str, .text (bytes "';")]

/-- The tokens of an update. -/
def updateTokens (op : Token) (i : Int) (u : Str) : List Token :=
  [.word (bytes "UPDATE"), .word (bytes "accounts"), .word (bytes "SET"), .word (bytes "balance"),
    .eq, .word (bytes "balance"), op] ++ (signToken i ++ [.num i.natAbs, .word (bytes "WHERE"),
    .word (bytes "user"), .eq, .str u, .semi])

theorem pieces_deposit : pieces depositFormat = some (updatePieces "+") := by decide +kernel

theorem pieces_withdrawal : pieces withdrawalFormat = some (updatePieces "-") := by decide +kernel

set_option maxRecDepth 20000 in
theorem scanPieces_deposit (i : Int) (u : Str) :
    scanPieces .start (updatePieces "+") [.int i, .str u] =
      some (updateTokens .plus i u, .start) := by
  rfl

set_option maxRecDepth 20000 in
theorem scanPieces_withdrawal (i : Int) (u : Str) :
    scanPieces .start (updatePieces "-") [.int i, .str u] =
      some (updateTokens .minus i u, .start) := by
  rfl

set_option maxRecDepth 20000 in
theorem parse_updateTokens_plus (i : Int) (u : Str) :
    ((splitTokens Token.isSemi (updateTokens .plus i u)).filter (!·.isEmpty)).mapM
      (parseStmt names) = some ([.add .plus i u].map Posting.stmt) := by
  conv_rhs => rw [← signed_eq i]
  unfold updateTokens signToken signed
  split_ifs
  · rfl
  · rfl

set_option maxRecDepth 20000 in
theorem parse_updateTokens_minus (i : Int) (u : Str) :
    ((splitTokens Token.isSemi (updateTokens .minus i u)).filter (!·.isEmpty)).mapM
      (parseStmt names) = some ([.add .minus i u].map Posting.stmt) := by
  conv_rhs => rw [← signed_eq i]
  unfold updateTokens signToken signed
  split_ifs
  · rfl
  · rfl

/-- The pieces of the two updates of a transfer. -/
def transferPieces : List Piece :=
  [.text (bytes "UPDATE accounts SET balance = balance - "), .int, .text (bytes " WHERE user = '"),
    .str, .text (bytes "';UPDATE accounts SET balance = balance + "), .int,
    .text (bytes " WHERE user = '"), .str, .text (bytes "';")]

theorem pieces_transfer : pieces transferFormat = some transferPieces := by decide +kernel

set_option maxRecDepth 20000 in
theorem scanPieces_transfer (i : Int) (u v : Str) :
    scanPieces .start transferPieces [.int i, .str u, .int i, .str v] =
      some (updateTokens .minus i u ++ updateTokens .plus i v, .start) := by
  unfold updateTokens
  rw [List.append_assoc, List.append_assoc (signToken i)]
  rfl

set_option maxRecDepth 20000 in
theorem parse_transferTokens (i : Int) (u v : Str) :
    ((splitTokens Token.isSemi (updateTokens .minus i u ++ updateTokens .plus i v)).filter
      (!·.isEmpty)).mapM (parseStmt names) =
      some ([.add .minus i u, .add .plus i v].map Posting.stmt) := by
  conv_rhs => rw [← signed_eq i]
  unfold updateTokens signToken signed
  split_ifs
  · rfl
  · rfl

/-! ### The texts of a call -/

/-- The strings of a call that are put into the texts have no single quote. -/
def Call.QuoteFree (c : Call) : Prop :=
  Sql.QuoteFree c.src ∧ Sql.QuoteFree c.dest ∧ Sql.QuoteFree c.txType

instance (c : Call) : Decidable c.QuoteFree := inferInstanceAs (Decidable (_ ∧ _))

/-- The statements of a formatted text, from the tokens of its format. -/
theorem statements_of_sprintf {fmt text : Str} {args : List Arg} {ps : List Piece}
    {toks : List Token} {stmts : List Stmt} (htext : sprintf 512 fmt args = .ok text)
    (hargs : ∀ s, Arg.str s ∈ args → Sql.QuoteFree s) (hpieces : pieces fmt = some ps)
    (hscan : scanPieces .start ps args = some (toks, .start))
    (hparse : ((splitTokens Token.isSemi toks).filter (!·.isEmpty)).mapM (parseStmt names) =
      some stmts) : statements names text = some stmts := by
  rw [statements, tokens_of_scanPieces hpieces (sprintf_eq_ok htext) hargs hscan, lexEnd,
    List.append_nil, hparse]

theorem sprintfSql_eq_ok {fmt sql : Str} {args : List Arg} {s s' : Session} :
    sprintfSql fmt args s = (.ok sql, s') ↔ sprintf 512 fmt args = .ok sql ∧ s' = s := by
  rw [sprintfSql, Prod.mk.injEq]
  exact and_congr_right fun _ => eq_comm

section Texts

variable {c : Call} {sql : Str}

theorem statements_blocked (hc : c.QuoteFree) (h : sprintf 512 blockedFormat
      [.str c.src, .str c.dest, .str c.txType, .int c.amount.toInt] = .ok sql) :
    statements names sql = some [recordStmt c blockedStatus] := by
  exact statements_of_sprintf h (by simpa using ⟨hc.1, hc.2.1, hc.2.2⟩) pieces_blocked
    (scanPieces_blocked ..) (parse_recordTokens ..)

theorem statements_approved (hc : c.QuoteFree) (h : sprintf 512 approvedFormat
      [.str c.src, .str c.dest, .str c.txType, .int c.amount.toInt] = .ok sql) :
    statements names sql = some [recordStmt c approvedStatus] := by
  exact statements_of_sprintf h (by simpa using ⟨hc.1, hc.2.1, hc.2.2⟩) pieces_approved
    (scanPieces_approved ..) (parse_recordTokens ..)

theorem statements_create (hc : c.QuoteFree)
    (h : sprintf 512 createFormat [.str c.src, .str c.dest] = .ok sql) :
    statements names sql = some ((creations c).map Posting.stmt) :=
  statements_of_sprintf h (by simpa using ⟨hc.1, hc.2.1⟩) pieces_create (scanPieces_create ..)
    (parse_createTokens ..)

/-- The text of the business logic makes the updates of the type, or creates the accounts again. -/
theorem statements_update (hc : c.QuoteFree) (hsql : statements names sql =
      some ((creations c).map Posting.stmt)) {sql' : Str} {s s' : Session}
    (h : updateText c sql s = (.ok sql', s')) :
    s' = s ∧ statements names sql' = some ((updates c).map Posting.stmt) := by
  unfold updateText at h
  unfold updates updates?
  split_ifs at h ⊢ with htransfer hdeposit hwithdrawal
  · obtain ⟨htext, rfl⟩ := sprintfSql_eq_ok.mp h
    exact ⟨rfl, statements_of_sprintf htext (by simpa using ⟨hc.1, hc.2.1⟩) pieces_transfer
      (scanPieces_transfer ..) (parse_transferTokens ..)⟩
  · obtain ⟨htext, rfl⟩ := sprintfSql_eq_ok.mp h
    exact ⟨rfl, statements_of_sprintf htext (by simpa using hc.2.1) pieces_deposit
      (scanPieces_deposit ..) (parse_updateTokens_plus ..)⟩
  · obtain ⟨htext, rfl⟩ := sprintfSql_eq_ok.mp h
    exact ⟨rfl, statements_of_sprintf htext (by simpa using hc.1) pieces_withdrawal
      (scanPieces_withdrawal ..) (parse_updateTokens_minus ..)⟩
  · obtain ⟨htext, rfl⟩ := Prod.mk.inj h
    obtain rfl := Except.ok.inj htext
    exact ⟨rfl, hsql⟩

end Texts

/-! ### Fixed texts -/

/-- The columns of `transactions`. -/
def transactionsCols : List (Name × ColType) :=
  [(bytes "id", .integer), (bytes "type", .text), (bytes "src", .text), (bytes "dest", .text),
    (bytes "amount", .integer), (bytes "status", .text)]

theorem statements_schema : statements names schemaText = some
    [.create accounts [(bytes "username", .text), (balanceCol, .integer)] (.text (bytes "username")),
      .create transactions transactionsCols (.rowid (bytes "id"))] := by
  decide +kernel

theorem statements_dumpLog : statements names dumpLogText = some
    [.select (["id", "type", "src", "dest", "amount", "status"].map bytes) transactions
      (some (bytes "id"))] := by
  decide +kernel

theorem statements_dumpAccounts : statements names dumpAccountsText = some
    [.select [userCol, balanceCol] accounts none] := by
  decide +kernel

end BankSel4.Ledger
