import BankSel4.Bytes.Format

/-!
# The tokens of an SQL text

`tokens text` follows `sqlite3GetToken` byte by byte, for the tokens a `Token` names: words, string
literals, integers and punctuation.  White space and both kinds of comments separate tokens.  At a
token of another kind (a quoted identifier, a blob, a float, another operator, an illegal token) the
list ends with `Token.other`.
-/

namespace BankSel4.Sql

/-- A token. -/
inductive Token where
  /-- An identifier or a keyword. -/
  | word (w : Str)
  /-- A string literal, by the string it denotes. -/
  | str (s : Str)
  /-- An integer literal without sign. -/
  | num (n : Nat)
  | lparen
  | rparen
  | comma
  | semi
  | plus
  | minus
  | eq
  /-- Any other token; the tokens after it are not listed. -/
  | other
  deriving DecidableEq, Repr

/-- Where the lexer is. -/
inductive LexState where
  /-- Before a token. -/
  | start
  | space
  | word (w : Str)
  | num (n : Nat)
  | eq
  /-- Inside a string literal. -/
  | str (s : Str)
  /-- Behind a quote, which ends the literal unless another one follows. -/
  | strQuote (s : Str)
  | minus
  | lineComment
  | slash
  /-- Behind the two bytes that open a block comment. -/
  | blockOpen
  | block
  | blockStar
  /-- Behind the first byte, and the second, of a byte order mark. -/
  | bom1
  | bom2
  /-- Behind a `Token.other`. -/
  | stopped
  deriving DecidableEq, Repr

/-- `sqlite3Isspace`. -/
def isSpace (c : UInt8) : Bool := c == 32 || (9 ≤ c && c ≤ 13)

/-- The bytes a word can start with. -/
def isWordStart (c : UInt8) : Bool :=
  (65 ≤ c && c ≤ 90) || (97 ≤ c && c ≤ 122) || c == 95 || 128 ≤ c

/-- `IdChar`. -/
def idChar (c : UInt8) : Bool := isWordStart c || isDigit c || c == 36

/-- The first byte of a token; the tokens it makes and the state behind it. -/
def beginToken (c : UInt8) : List Token × LexState :=
  if isSpace c && c != 11 then ([], .space)
  else if c = 40 then ([.lparen], .start)
  else if c = 41 then ([.rparen], .start)
  else if c = 44 then ([.comma], .start)
  else if c = 59 then ([.semi], .start)
  else if c = 43 then ([.plus], .start)
  else if c = 45 then ([], .minus)
  else if c = 61 then ([], .eq)
  else if c = 39 then ([], .str [])
  else if c = 47 then ([], .slash)
  else if isDigit c then ([], .num (c.toNat - 48))
  else if c = 239 then ([], .bom1)
  else if isWordStart c then ([], .word [c])
  else ([.other], .stopped)

/-- The token `t` ends before the byte. -/
def endToken (t : Token) (c : UInt8) : List Token × LexState :=
  (t :: (beginToken c).1, (beginToken c).2)

/-- The next byte in a word; `x` and a quote start a blob. -/
def stepWord (w : Str) (c : UInt8) : List Token × LexState :=
  if idChar c then ([], .word (w ++ [c]))
  else if c = 39 ∧ (w = [120] ∨ w = [88]) then ([.other], .stopped)
  else endToken (.word w) c

/-- The next byte. -/
def lexStep : LexState → UInt8 → List Token × LexState
  | .start, c => beginToken c
  | .space, c => if isSpace c then ([], .space) else beginToken c
  | .word w, c => stepWord w c
  | .num n, c =>
    if isDigit c then ([], .num (10 * n + (c.toNat - 48)))
    else if c = 46 ∨ idChar c then ([.other], .stopped)
    else endToken (.num n) c
  | .eq, c => if c = 61 then ([.eq], .start) else endToken .eq c
  | .str s, c => if c = 39 then ([], .strQuote s) else ([], .str (s ++ [c]))
  -- a quote behind a quote stands for itself
  | .strQuote s, c => if c = 39 then ([], .str (s ++ [c])) else endToken (.str s) c
  | .minus, c =>
    if c = 45 then ([], .lineComment)
    else if c = 62 then ([.other], .stopped)
    else endToken .minus c
  | .lineComment, c => if c = 10 then ([], .space) else ([], .lineComment)
  | .slash, c => if c = 42 then ([], .blockOpen) else ([.other], .stopped)
  | .blockOpen, c => if c = 42 then ([], .blockStar) else ([], .block)
  | .block, c => if c = 42 then ([], .blockStar) else ([], .block)
  | .blockStar, c =>
    if c = 47 then ([], .start) else if c = 42 then ([], .blockStar) else ([], .block)
  | .bom1, c => if c = 187 then ([], .bom2) else stepWord [239] c
  | .bom2, c => if c = 191 then ([], .start) else stepWord [239, 187] c
  | .stopped, _ => ([], .stopped)

/-- The tokens that end with the text. -/
def lexEnd : LexState → List Token
  | .word w => [.word w]
  | .num n => [.num n]
  | .eq => [.eq]
  | .strQuote s => [.str s]
  | .minus => [.minus]
  | .bom1 => [.word [239]]
  | .bom2 => [.word [239, 187]]
  -- a literal without its closing quote is illegal
  | .str _ | .slash | .blockOpen => [.other]
  | .start | .space | .lineComment | .block | .blockStar | .stopped => []

/-- The tokens made by the bytes of a string, and the state behind it. -/
def scan : LexState → Str → List Token × LexState
  | st, [] => ([], st)
  | st, c :: s => ((lexStep st c).1 ++ (scan (lexStep st c).2 s).1, (scan (lexStep st c).2 s).2)

/-- The tokens of a text. -/
def tokens (text : Str) : List Token := (scan .start text).1 ++ lexEnd (scan .start text).2

end BankSel4.Sql
