import BankSel4.Sql.Lexer

/-!
# The tokens of a formatted text

A text made by a format is lexed piece by piece (`scan_append`): the literal parts are known, a
string without a quote stays inside its literal (`scan_str`), and a decimal number makes a number
behind its sign (`scan_decimal`).  `scanPieces` does this for a whole format, and
`tokens_of_scanPieces` says that it gives the tokens of the text.

It gives them only if the strings are free of quotes (`quoteFree_of_lexFrom`): a literal that starts
with a string and a closing quote denotes that string only if no quote is in it
(`quoteFree_of_literal`).
-/

namespace BankSel4.Sql

/-- A string without a single quote. -/
def QuoteFree (s : Str) : Prop := (39 : UInt8) ∉ s

instance (s : Str) : Decidable (QuoteFree s) := inferInstanceAs (Decidable (_ ∉ _))

theorem scan_append (st : LexState) (s t : Str) :
    scan st (s ++ t) = ((scan st s).1 ++ (scan (scan st s).2 t).1, (scan (scan st s).2 t).2) := by
  induction s generalizing st with
  | nil => rfl
  | cons c s ih => rw [List.cons_append, scan, ih, scan, List.append_assoc]

/-- A string without a quote stays inside the literal. -/
theorem scan_str {s : Str} (hs : QuoteFree s) (a : Str) :
    scan (.str a) s = ([], .str (a ++ s)) := by
  induction s generalizing a with
  | nil => rw [scan, List.append_nil]
  | cons c s ih =>
    rw [QuoteFree, List.mem_cons, not_or] at hs
    rw [scan, lexStep, if_neg (Ne.symm hs.1), ih hs.2, List.append_assoc]
    rfl

theorem scan_num {s : Str} (hs : ∀ c ∈ s, isDigit c = true) (n : Nat) :
    scan (.num n) s = ([], .num (ofDigits n s)) := by
  induction s generalizing n with
  | nil => rfl
  | cons c s ih =>
    obtain ⟨hc, hs'⟩ := List.forall_mem_cons.mp hs
    rw [scan, lexStep, if_pos hc, ih hs']
    rfl

theorem isSpace_of_isDigit {c : UInt8} (hc : isDigit c = true) : isSpace c = false := by
  have h13 : ¬ c ≤ 13 := not_le_of_isDigit hc (by decide)
  have h32 : c ≠ 32 := ne_of_isDigit hc (by decide)
  simp [isSpace, h13, h32]

theorem beginToken_of_isDigit {c : UInt8} (hc : isDigit c = true) :
    beginToken c = ([], .num (c.toNat - 48)) := by
  rw [beginToken, isSpace_of_isDigit hc]
  simp [ne_of_isDigit hc, hc]

/-- The digits of a number, from a state in which a token can begin. -/
theorem scan_digits (st : LexState) (n : Nat) (toks : List Token)
    (hst : ∀ c, isDigit c = true → lexStep st c = (toks, .num (c.toNat - 48))) :
    scan st (digits n) = (toks, .num n) := by
  obtain ⟨c, s, hcs⟩ := exists_digits_eq_cons n
  obtain ⟨hc, hs⟩ := List.forall_mem_cons.mp fun d (hd : d ∈ c :: s) =>
    isDigit_of_mem_digits (hcs.symm ▸ hd)
  have hvalue : ofDigits (c.toNat - 48) s = n := by
    conv_rhs => rw [← ofDigits_digits n, hcs, ofDigits, List.foldl_cons, Nat.mul_zero, Nat.zero_add]
    rfl
  rw [hcs, scan, hst c hc, scan_num hs, hvalue, List.append_nil]

/-- The sign of a number, as a token. -/
def signToken (i : Int) : List Token := if i < 0 then [.minus] else []

/-- A decimal number behind a space. -/
theorem scan_decimal (i : Int) : scan .space (decimal i) = (signToken i, .num i.natAbs) := by
  unfold decimal signToken
  split_ifs with hneg
  · have hminus := scan_digits .minus i.natAbs [.minus] fun c hc => by
      rw [lexStep, if_neg (ne_of_isDigit hc (by decide)), if_neg (ne_of_isDigit hc (by decide)),
        endToken, beginToken_of_isDigit hc]
    rw [scan, show lexStep .space 45 = ([], .minus) from rfl, hminus]
    rfl
  · exact scan_digits .space _ [] fun c hc => by
      rw [lexStep, isSpace_of_isDigit hc, if_neg Bool.false_ne_true, beginToken_of_isDigit hc]

/-- The tokens made by the pieces of a format, when every `%s` stands inside a literal and every
`%d` behind a space. -/
def scanPieces : LexState → List Piece → List Arg → Option (List Token × LexState)
  | st, [], _ => some ([], st)
  | st, .text s :: ps, args =>
    (scanPieces (scan st s).2 ps args).map fun r => ((scan st s).1 ++ r.1, r.2)
  | .str a, .str :: ps, .str s :: args => scanPieces (.str (a ++ s)) ps args
  | .space, .int :: ps, .int i :: args =>
    (scanPieces (.num i.natAbs) ps args).map fun r => (signToken i ++ r.1, r.2)
  | _, _ :: _, _ => none

/-- What the first piece of a format contributes to the text and to the tokens: the literal bytes,
a string inside a literal, or a number behind a space. -/
theorem scanPieces_cons_cases {p : Piece} {ps : List Piece} {args : List Arg} {text : Str}
    {st st' : LexState} {toks : List Token} (htext : render (p :: ps) args = some text)
    (h : scanPieces st (p :: ps) args = some (toks, st')) :
    (∃ s rest rtoks, p = .text s ∧ render ps args = some rest ∧ text = s ++ rest ∧
      scanPieces (scan st s).2 ps args = some (rtoks, st') ∧ toks = (scan st s).1 ++ rtoks) ∨
    (∃ a s args' rest, p = .str ∧ st = .str a ∧ args = .str s :: args' ∧
      render ps args' = some rest ∧ text = s ++ rest ∧
      scanPieces (.str (a ++ s)) ps args' = some (toks, st')) ∨
    (∃ i args' rest rtoks, p = .int ∧ st = .space ∧ args = .int i :: args' ∧
      render ps args' = some rest ∧ text = decimal i ++ rest ∧
      scanPieces (.num i.natAbs) ps args' = some (rtoks, st') ∧ toks = signToken i ++ rtoks) := by
  cases p with
  | text s =>
    simp only [render, Option.map_eq_some_iff] at htext
    obtain ⟨rest, hrest, rfl⟩ := htext
    simp only [scanPieces, Option.map_eq_some_iff, Prod.exists, Prod.mk.injEq] at h
    obtain ⟨rtoks, rst, hr, rfl, rfl⟩ := h
    exact .inl ⟨s, rest, rtoks, rfl, hrest, rfl, hr, rfl⟩
  | str =>
    cases args with
    | nil => simp [render] at htext
    | cons arg args =>
      cases arg with
      | int i => simp [render] at htext
      | str s =>
        simp only [render, Option.map_eq_some_iff] at htext
        obtain ⟨rest, hrest, rfl⟩ := htext
        cases st with
        | str a =>
          rw [scanPieces] at h
          exact .inr (.inl ⟨a, s, args, rest, rfl, rfl, rfl, hrest, rfl, h⟩)
        | _ => simp [scanPieces] at h
  | int =>
    cases args with
    | nil => simp [render] at htext
    | cons arg args =>
      cases arg with
      | str s => simp [render] at htext
      | int i =>
        simp only [render, Option.map_eq_some_iff] at htext
        obtain ⟨rest, hrest, rfl⟩ := htext
        cases st with
        | space =>
          simp only [scanPieces, Option.map_eq_some_iff, Prod.exists, Prod.mk.injEq] at h
          obtain ⟨rtoks, rst, hr, rfl, rfl⟩ := h
          exact .inr (.inr ⟨i, args, rest, rtoks, rfl, rfl, rfl, hrest, rfl, hr, rfl⟩)
        | _ => simp [scanPieces] at h

theorem scan_of_scanPieces {ps : List Piece} {args : List Arg} {text : Str} {st st' : LexState}
    {toks : List Token} (htext : render ps args = some text)
    (hargs : ∀ s, Arg.str s ∈ args → QuoteFree s)
    (h : scanPieces st ps args = some (toks, st')) : scan st text = (toks, st') := by
  induction ps generalizing st args text toks with
  | nil =>
    obtain rfl : [] = text := by simpa [render] using htext
    simpa [scanPieces, scan] using h
  | cons p ps ih =>
    obtain ⟨s, rest, rtoks, -, hrest, rfl, hr, rfl⟩ |
      ⟨a, s, args', rest, -, rfl, rfl, hrest, rfl, hr⟩ |
      ⟨i, args', rest, rtoks, -, rfl, rfl, hrest, rfl, hr, rfl⟩ := scanPieces_cons_cases htext h
    · rw [scan_append, ih hrest hargs hr]
    · have hs : QuoteFree s := hargs s List.mem_cons_self
      rw [scan_append, scan_str hs, ih hrest (fun t ht => hargs t (List.mem_cons_of_mem _ ht)) hr]
      rfl
    · rw [scan_append, scan_decimal,
        ih hrest (fun t ht => hargs t (List.mem_cons_of_mem _ ht)) hr]

/-- **The tokens of a formatted text**, when its strings are free of quotes. -/
theorem tokens_of_scanPieces {fmt : Str} {ps : List Piece} {args : List Arg} {text : Str}
    {toks : List Token} {st : LexState} (hfmt : pieces fmt = some ps)
    (htext : format fmt args = some text) (hargs : ∀ s, Arg.str s ∈ args → QuoteFree s)
    (h : scanPieces .start ps args = some (toks, st)) : tokens text = toks ++ lexEnd st := by
  rw [format, hfmt] at htext
  rw [tokens, scan_of_scanPieces htext hargs h]

/-! ### Strings with quotes -/

/-- The tokens of a text, from a state of the lexer on. -/
def lexFrom (st : LexState) (s : Str) : List Token := (scan st s).1 ++ lexEnd (scan st s).2

theorem lexFrom_append (st : LexState) (s t : Str) :
    lexFrom st (s ++ t) = (scan st s).1 ++ lexFrom (scan st s).2 t := by
  rw [lexFrom, scan_append, List.append_assoc]
  rfl

/-- The string that a literal denotes, of which `a` has been read; none if it does not end. -/
def literal : Str → Str → Option Str
  | _, [] => none
  | a, c :: s =>
    if c = 39 then
      match s with
      | [] => some a
      | d :: t => if d = 39 then literal (a ++ [39]) t else some a
    else literal (a ++ [c]) s

theorem literal_of_ne {c : UInt8} (hc : c ≠ 39) (a s : Str) :
    literal a (c :: s) = literal (a ++ [c]) s := by
  rw [literal.eq_def]
  exact if_neg hc

theorem literal_quotes (a s : Str) : literal a (39 :: 39 :: s) = literal (a ++ [39]) s := by
  rw [literal, if_pos rfl]
  exact if_pos rfl

theorem literal_end {c : UInt8} (hc : c ≠ 39) (a s : Str) : literal a (39 :: c :: s) = some a := by
  rw [literal, if_pos rfl]
  exact if_neg hc

/-- The first token inside a literal is the literal. -/
theorem head?_lexFrom_str (a s : Str) : (lexFrom (.str a) s).head? =
    some (match literal a s with | some l => .str l | none => .other) := by
  fun_induction literal a s with
  | case1 a => rfl
  | case2 a => rfl
  | case3 a t ih => exact ih
  | case4 a d t hd =>
    rw [lexFrom, scan, scan]
    simp [lexStep, hd, endToken]
  | case5 a c s hc ih =>
    rw [← ih, lexFrom, lexFrom, scan, lexStep, if_neg hc, List.nil_append]

/-- What has been read of a literal stays. -/
theorem prefix_of_literal {a s l : Str} (h : literal a s = some l) : a <+: l := by
  fun_induction literal a s with
  | case1 a => cases h
  | case2 a => exact Option.some.inj h ▸ List.prefix_refl a
  | case3 a t ih => exact (List.prefix_append a [39]).trans (ih h)
  | case4 a d t hd => exact Option.some.inj h ▸ List.prefix_refl a
  | case5 a c s hc ih => exact (List.prefix_append a [c]).trans (ih h)

/-- The next byte of a literal is the next byte of its string. -/
theorem eq_of_literal {a s l : Str} {c d : UInt8} (h : literal (a ++ [c]) s = some (a ++ d :: l)) :
    c = d := by
  have hprefix := prefix_of_literal h
  rw [List.prefix_append_right_inj, List.cons_prefix_cons] at hprefix
  exact hprefix.1

theorem replicate_cons_comm (k : Nat) (c : UInt8) (r : Str) :
    List.replicate k c ++ c :: r = c :: (List.replicate k c ++ r) := by
  rw [← List.singleton_append, ← List.append_assoc, ← List.replicate_succ', List.replicate_succ,
    List.cons_append]

/-- A literal does not end before its string does. -/
theorem self_ne_append (a l : Str) (c : UInt8) : some a ≠ some (a ++ c :: l) := by
  intro h
  have hlen := congrArg List.length (Option.some.inj h)
  rw [List.length_append, List.length_cons] at hlen
  omega

/-- A literal that has lost quotes does not catch up: it never denotes the string that is `k + 1`
quotes ahead of it. -/
theorem literal_ne_of_behind {c : UInt8} (hc : c ≠ 39) (t : Str) (n : Nat) {r : Str}
    (hr : r.length ≤ n) (b : Str) (k : Nat) :
    literal b (r ++ 39 :: c :: t) ≠ some (b ++ 39 :: (List.replicate k 39 ++ r)) := by
  -- on the length, since a pair of quotes takes two bytes of the string at once
  induction n generalizing r b k with
  | zero =>
    obtain rfl := List.length_eq_zero_iff.mp (Nat.le_zero.mp hr)
    rw [List.nil_append, literal_end hc]
    exact self_ne_append b _ 39
  | succ n ih =>
    intro h
    cases r with
    | nil =>
      rw [List.nil_append, literal_end hc] at h
      exact self_ne_append b _ 39 h
    | cons d r =>
      by_cases hd : d = 39
      · subst hd
        rw [replicate_cons_comm] at h
        cases r with
        | nil =>
          -- the quote of the string pairs with the closing one
          rw [List.cons_append, List.nil_append, literal_quotes, literal_of_ne hc,
            List.append_cons b 39 (39 :: _)] at h
          exact hc (eq_of_literal h)
        | cons e r =>
          -- a pair of quotes puts the literal one quote further behind
          by_cases he : e = 39
          · subst he
            rw [List.cons_append, List.cons_append, literal_quotes, replicate_cons_comm,
              ← List.cons_append, ← List.replicate_succ, List.append_cons b 39 (39 :: _)] at h
            have hlen : r.length ≤ n := by
              rw [List.length_cons, List.length_cons] at hr
              omega
            exact ih hlen (b ++ [39]) (k + 1) h
          · rw [List.cons_append, List.cons_append, literal_end he] at h
            exact self_ne_append b _ 39 h
      · rw [List.cons_append, literal_of_ne hd] at h
        exact hd (eq_of_literal h)

/-- **A literal** with the body `s` denotes `s` only if no quote is in it. -/
theorem quoteFree_of_literal {c : UInt8} (hc : c ≠ 39) {a s t : Str}
    (h : literal a (s ++ 39 :: c :: t) = some (a ++ s)) : QuoteFree s := by
  induction s generalizing a with
  | nil => exact List.not_mem_nil
  | cons d s ih =>
    -- the first quote ends the literal, or is read with the next byte as one quote
    by_cases hd : d = 39
    · subst hd
      cases s with
      | nil =>
        rw [List.cons_append, List.nil_append, literal_quotes, literal_of_ne hc] at h
        have hlen := (prefix_of_literal h).length_le
        simp at hlen
      | cons e s =>
        by_cases he : e = 39
        · subst he
          rw [List.cons_append, List.cons_append, literal_quotes,
            List.append_cons a 39 (39 :: s)] at h
          exact absurd h (literal_ne_of_behind hc t s.length le_rfl (a ++ [39]) 0)
        · rw [List.cons_append, List.cons_append, literal_end he] at h
          exact absurd h (self_ne_append a _ 39)
    · rw [List.cons_append, literal_of_ne hd] at h
      have hs : QuoteFree s := ih (by rw [h, List.append_assoc]; rfl)
      rw [QuoteFree, List.mem_cons, not_or]
      exact ⟨Ne.symm hd, hs⟩

/-- The text that the pieces start with closes a literal. -/
def closesLiteral : List Piece → Bool
  | .text (q :: c :: _) :: _ => q == 39 && c != 39
  | _ => false

/-- Behind every `%s` the literal is closed. -/
def quoted : List Piece → Bool
  | [] => true
  | .str :: ps => closesLiteral ps && quoted ps
  | _ :: ps => quoted ps

theorem exists_of_closesLiteral {ps : List Piece} (h : closesLiteral ps = true) :
    ∃ c s ps', c ≠ 39 ∧ ps = .text (39 :: c :: s) :: ps' := by
  unfold closesLiteral at h
  split at h
  · rename_i q c s ps'
    obtain ⟨hq, hc⟩ : q = 39 ∧ c ≠ 39 := by simpa using h
    exact ⟨c, s, ps', hc, by rw [hq]⟩
  · cases h

/-- The tokens of a literal that is closed. -/
theorem exists_scan_close {c : UInt8} (hc : c ≠ 39) (a s : Str) :
    ∃ toks, (scan (.str a) (39 :: c :: s)).1 = .str a :: toks := by
  rw [scan, scan, lexStep, if_pos rfl, lexStep, if_neg hc]
  exact ⟨_, rfl⟩

/-- The string in front of the closing quote of a literal has no quote, when the literal comes out
as the pieces have it. -/
theorem quoteFree_of_closesLiteral {ps : List Piece} {args : List Arg} {a s rest : Str}
    {st' : LexState} {toks : List Token} (hclose : closesLiteral ps = true)
    (hrest : render ps args = some rest)
    (hscan : scanPieces (.str (a ++ s)) ps args = some (toks, st'))
    (h : lexFrom (.str a) (s ++ rest) = toks ++ lexEnd st') : QuoteFree s := by
  obtain ⟨c, t, ps', hc, rfl⟩ := exists_of_closesLiteral hclose
  simp only [render, Option.map_eq_some_iff] at hrest
  obtain ⟨rest', -, rfl⟩ := hrest
  simp only [scanPieces, Option.map_eq_some_iff, Prod.exists, Prod.mk.injEq] at hscan
  obtain ⟨rtoks, rst, -, rfl, rfl⟩ := hscan
  obtain ⟨ts, hts⟩ := exists_scan_close hc (a ++ s) t
  have hhead := head?_lexFrom_str a (s ++ 39 :: c :: (t ++ rest'))
  rw [← List.cons_append, ← List.cons_append, h, hts] at hhead
  refine quoteFree_of_literal hc (a := a) (t := t ++ rest') ?_
  rw [← List.cons_append, ← List.cons_append]
  cases hlit : literal a (s ++ (39 :: c :: t ++ rest')) with
  | none =>
    rw [hlit] at hhead
    cases hhead
  | some l =>
    rw [hlit] at hhead
    rw [Token.str.inj (Option.some.inj hhead)]

/-- The tokens of the pieces only come out if no string has a quote. -/
theorem quoteFree_of_lexFrom {ps : List Piece} {args : List Arg} {text : Str} {st st' : LexState}
    {toks : List Token} (htext : render ps args = some text)
    (hscan : scanPieces st ps args = some (toks, st')) (hquoted : quoted ps = true)
    (hargs : args.length = directives ps) (h : lexFrom st text = toks ++ lexEnd st') :
    ∀ s, Arg.str s ∈ args → QuoteFree s := by
  induction ps generalizing st args text toks with
  | nil =>
    obtain rfl := List.length_eq_zero_iff.mp hargs
    exact nofun
  | cons p ps ih =>
    obtain ⟨s, rest, rtoks, rfl, hrest, rfl, hr, rfl⟩ |
      ⟨a, s, args', rest, rfl, rfl, rfl, hrest, rfl, hr⟩ |
      ⟨i, args', rest, rtoks, rfl, rfl, rfl, hrest, rfl, hr, rfl⟩ :=
        scanPieces_cons_cases htext hscan
    · rw [lexFrom_append, List.append_assoc] at h
      exact ih hrest hr hquoted hargs (List.append_cancel_left h)
    · obtain ⟨hclose, hquoted'⟩ : closesLiteral ps = true ∧ quoted ps = true := by
        simpa [quoted] using hquoted
      -- the literal ends right behind the string, and so denotes it only without a quote
      have hs : QuoteFree s := quoteFree_of_closesLiteral hclose hrest hr h
      rw [lexFrom_append, scan_str hs, List.nil_append] at h
      have hrec := ih hrest hr hquoted' (by simpa [directives] using hargs) h
      intro u hu
      rcases List.mem_cons.mp hu with heq | hu
      · obtain rfl := Arg.str.inj heq
        exact hs
      · exact hrec u hu
    · rw [lexFrom_append, scan_decimal, List.append_assoc] at h
      have hrec := ih hrest hr hquoted (by simpa [directives] using hargs)
        (List.append_cancel_left h)
      intro u hu
      rcases List.mem_cons.mp hu with heq | hu
      · cases heq
      · exact hrec u hu

/-- **The tokens of a formatted text** are its format's exactly when no string has a quote. -/
theorem tokens_iff_of_scanPieces {fmt : Str} {ps : List Piece} {args : List Arg} {text : Str}
    {toks : List Token} {st : LexState} (hfmt : pieces fmt = some ps)
    (htext : format fmt args = some text) (hquoted : quoted ps = true)
    (hargs : args.length = directives ps) (h : scanPieces .start ps args = some (toks, st)) :
    tokens text = toks ++ lexEnd st ↔ ∀ s, Arg.str s ∈ args → QuoteFree s := by
  refine ⟨fun htokens => ?_, fun hfree => tokens_of_scanPieces hfmt htext hfree h⟩
  rw [format, hfmt] at htext
  exact quoteFree_of_lexFrom htext h hquoted hargs htokens

end BankSel4.Sql
