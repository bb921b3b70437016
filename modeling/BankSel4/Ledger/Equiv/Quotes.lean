import BankSel4.Ledger.Equiv.Texts

/-!
# What the texts say

`SqlText` lists the texts that `bank_execute_transaction` formats.  `SqlText.tokens` are the tokens
that each is meant to have, with its strings as literals and the amount as a signed number, and
`SqlText.stmts` the statements they stand for.

A text has these tokens exactly when no string in it has a single quote: `tokens_iff_quoteFree`.
-/

namespace BankSel4.Ledger

open Sql

/-- The texts that a call formats. -/
inductive SqlText where
  | blocked
  | create
  | transfer
  | deposit
  | withdrawal
  | approved
  deriving DecidableEq, Repr

/-- The format of a text. -/
def SqlText.format : SqlText → Str
  | .blocked => blockedFormat
  | .create => createFormat
  | .transfer => transferFormat
  | .deposit => depositFormat
  | .withdrawal => withdrawalFormat
  | .approved => approvedFormat

/-- What is put into a text. -/
def SqlText.args (c : Call) : SqlText → List Arg
  | .blocked | .approved => [.str c.src, .str c.dest, .str c.txType, .int c.amount.toInt]
  | .create => [.str c.src, .str c.dest]
  | .transfer => [.int c.amount.toInt, .str c.src, .int c.amount.toInt, .str c.dest]
  | .deposit => [.int c.amount.toInt, .str c.dest]
  | .withdrawal => [.int c.amount.toInt, .str c.src]

/-- The tokens that a text is meant to have. -/
def SqlText.tokens (c : Call) : SqlText → List Token
  | .blocked => recordTokens c.src c.dest c.txType blockedStatus c.amount.toInt
  | .create => createTokens c.src ++ createTokens c.dest
  | .transfer =>
    updateTokens .minus c.amount.toInt c.src ++ updateTokens .plus c.amount.toInt c.dest
  | .deposit => updateTokens .plus c.amount.toInt c.dest
  | .withdrawal => updateTokens .minus c.amount.toInt c.src
  | .approved => recordTokens c.src c.dest c.txType approvedStatus c.amount.toInt

/-- The statements that a text is meant to be. -/
def SqlText.stmts (c : Call) : SqlText → List Stmt
  | .blocked => [recordStmt c blockedStatus]
  | .create => [.create c.src, .create c.dest].map Posting.stmt
  | .transfer =>
    [.add .minus c.amount.toInt c.src, .add .plus c.amount.toInt c.dest].map Posting.stmt
  | .deposit => [.add .plus c.amount.toInt c.dest].map Posting.stmt
  | .withdrawal => [.add .minus c.amount.toInt c.src].map Posting.stmt
  | .approved => [recordStmt c approvedStatus]

/-- The pieces of a text and the tokens they make. -/
theorem exists_pieces (c : Call) (k : SqlText) : ∃ ps, pieces k.format = some ps ∧
    quoted ps = true ∧ (k.args c).length = directives ps ∧
    scanPieces .start ps (k.args c) = some (k.tokens c, .start) := by
  cases k with
  | blocked =>
    exact ⟨_, pieces_blocked, by decide +kernel, rfl, scanPieces_blocked ..⟩
  | create => exact ⟨_, pieces_create, by decide +kernel, rfl, scanPieces_create ..⟩
  | transfer =>
    exact ⟨_, pieces_transfer, by decide +kernel, rfl, scanPieces_transfer ..⟩
  | deposit => exact ⟨_, pieces_deposit, by decide +kernel, rfl, scanPieces_deposit ..⟩
  | withdrawal =>
    exact ⟨_, pieces_withdrawal, by decide +kernel, rfl, scanPieces_withdrawal ..⟩
  | approved =>
    exact ⟨_, pieces_approved, by decide +kernel, rfl, scanPieces_approved ..⟩

/-- The tokens stand for the statements, with the amount as it is. -/
theorem parse_tokens (c : Call) (k : SqlText) :
    ((splitTokens Token.isSemi (k.tokens c)).filter (!·.isEmpty)).mapM (parseStmt names) =
      some (k.stmts c) := by
  cases k with
  | blocked => exact parse_recordTokens ..
  | create => exact parse_createTokens ..
  | transfer => exact parse_transferTokens ..
  | deposit => exact parse_updateTokens_plus ..
  | withdrawal => exact parse_updateTokens_minus ..
  | approved => exact parse_recordTokens ..

/-- **A text says what was meant** exactly when no string in it has a single quote. -/
theorem tokens_iff_quoteFree (c : Call) (k : SqlText) {text : Str}
    (h : sprintf 512 k.format (k.args c) = .ok text) :
    (tokens text = k.tokens c ↔ ∀ s, Arg.str s ∈ k.args c → Sql.QuoteFree s) ∧
      ((splitTokens Token.isSemi (k.tokens c)).filter (!·.isEmpty)).mapM (parseStmt names) =
        some (k.stmts c) := by
  obtain ⟨ps, hps, hquoted, hargs, hscan⟩ := exists_pieces c k
  have hiff := tokens_iff_of_scanPieces hps (sprintf_eq_ok h) hquoted hargs hscan
  rw [lexEnd, List.append_nil] at hiff
  exact ⟨hiff, parse_tokens c k⟩

/-- A transfer of the most negative amount, from an account with a quote in its name. -/
def quotedCall : Call := ⟨1001, bytes "O'Brien", bytes "Bob", bytes "TRANSFER", -2147483648⟩

theorem tokens_iff_quoteFree_quotedCall : ∃ text,
    sprintf 512 SqlText.transfer.format (SqlText.transfer.args quotedCall) = .ok text ∧
      (tokens text = SqlText.transfer.tokens quotedCall ↔
        ∀ s, Arg.str s ∈ SqlText.transfer.args quotedCall → Sql.QuoteFree s) := by
  have hfits : (sprintf 512 SqlText.transfer.format
      (SqlText.transfer.args quotedCall)).toOption.isSome = true := by
    decide +kernel
  obtain ⟨text, htext⟩ := Option.isSome_iff_exists.mp hfits
  exact ⟨text, toOption_eq_some.mp htext,
    (tokens_iff_quoteFree quotedCall .transfer (toOption_eq_some.mp htext)).1⟩

end BankSel4.Ledger
